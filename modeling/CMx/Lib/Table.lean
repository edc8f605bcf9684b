/-
Tables as lists of entries, for any keys and values: the first entry with a key counts. A table covers
a pattern if it has every key of the pattern, with a value related to the one of the pattern. Covering
is as reflexive and as transitive as the relation of the values, and two tables with unique keys that
cover each other are the same partial function.
-/
import Mathlib.Data.List.Forall2
import Mathlib.Data.List.Perm.Basic

namespace Table

variable {κ ν μ ρ : Type} [DecidableEq κ]

/-! ## Entries -/

theorem mem_of_lookup {table : List (κ × ν)} {k : κ} {v : ν} (h : table.lookup k = some v) : (k, v) ∈ table := by
  obtain ⟨front, behind, rfl, -⟩ := List.lookup_eq_some_iff.1 h
  exact List.mem_append_right _ (List.mem_cons_self ..)

theorem lookup_of_mem : ∀ {table : List (κ × ν)} {k : κ} {v : ν}, (table.map Prod.fst).Nodup → (k, v) ∈ table →
    table.lookup k = some v
  | [], _, _, _, h => by cases h
  | (k', v') :: table, k, v, hkeys, h => by
    rw [List.map_cons, List.nodup_cons] at hkeys
    rw [List.mem_cons] at h
    rcases h with h | h
    · cases h
      exact List.lookup_cons_self
    · have hne : k ≠ k' := by
        rintro rfl
        exact hkeys.1 (List.mem_map.2 ⟨(k, v), h, rfl⟩)
      rw [List.lookup_cons, beq_false_of_ne hne]
      exact lookup_of_mem hkeys.2 h

theorem isSome_lookup_iff {table : List (κ × ν)} {k : κ} : (table.lookup k).isSome = true ↔ k ∈ table.map Prod.fst := by
  rw [List.lookup_isSome_iff, List.mem_map]
  constructor
  · rintro ⟨e, he, hk⟩
    exact ⟨e, he, (eq_of_beq hk).symm⟩
  · rintro ⟨e, he, rfl⟩
    exact ⟨e, he, beq_self_eq_true _⟩

/-! ## Covering -/

/-- Every key of the pattern is in the table, with a related value. -/
def Covers (R : ν → μ → Prop) (table : List (κ × ν)) (pattern : List (κ × μ)) : Prop :=
  ∀ e ∈ pattern, ∃ v, table.lookup e.1 = some v ∧ R v e.2

theorem Covers.refl {R : ν → ν → Prop} {table : List (κ × ν)} (hkeys : (table.map Prod.fst).Nodup)
    (h : ∀ e ∈ table, R e.2 e.2) : Covers R table table :=
  fun e he => ⟨e.2, lookup_of_mem hkeys he, h e he⟩

theorem Covers.imp {R S : ν → μ → Prop} {table : List (κ × ν)} {pattern : List (κ × μ)}
    (h : ∀ d ∈ table, ∀ e ∈ pattern, R d.2 e.2 → S d.2 e.2) (hcovers : Covers R table pattern) : Covers S table pattern := by
  intro e he
  obtain ⟨v, hv, hr⟩ := hcovers e he
  exact ⟨v, hv, h (e.1, v) (mem_of_lookup hv) e he hr⟩

/-- The relations need to compose for the values of the tables alone. -/
theorem Covers.trans {R : ν → μ → Prop} {S : μ → ρ → Prop} {T : ν → ρ → Prop} {table : List (κ × ν)}
    {pattern : List (κ × μ)} {last : List (κ × ρ)} (hcovers : Covers R table pattern)
    (h : ∀ e ∈ last, ∀ c ∈ table, ∀ d ∈ pattern, R c.2 d.2 → S d.2 e.2 → T c.2 e.2)
    (hcovers' : Covers S pattern last) : Covers T table last := by
  intro e he
  obtain ⟨w, hw, hs⟩ := hcovers' e he
  obtain ⟨v, hv, hr⟩ := hcovers _ (mem_of_lookup hw)
  exact ⟨v, hv, h e he (e.1, v) (mem_of_lookup hv) (e.1, w) (mem_of_lookup hw) hr hs⟩

/-- Every key of the one is a key of the other. -/
def KeysIn (table : List (κ × ν)) (other : List (κ × μ)) : Prop := ∀ e ∈ table, (other.lookup e.1).isSome = true

theorem KeysIn.refl (table : List (κ × ν)) : KeysIn table table := fun _ he =>
  isSome_lookup_iff.2 (List.mem_map_of_mem he)

theorem KeysIn.trans {table : List (κ × ν)} {other : List (κ × μ)} {last : List (κ × ρ)} (h : KeysIn table other)
    (h' : KeysIn other last) : KeysIn table last := by
  intro e he
  obtain ⟨w, hw⟩ := Option.isSome_iff_exists.1 (h e he)
  exact h' _ (mem_of_lookup hw)

/-- Tables that cover each other, up to what is made of their values, are the same partial function. -/
theorem covers_iff_lookup_eq {σ : Type} {f : ν → σ} {g : μ → σ} {table : List (κ × ν)} {pattern : List (κ × μ)}
    (hpattern : (pattern.map Prod.fst).Nodup) :
    (Covers (fun v w => f v = g w) table pattern ∧ KeysIn table pattern) ↔
      ∀ k, (table.lookup k).map f = (pattern.lookup k).map g := by
  constructor
  · rintro ⟨hcovers, hkeys⟩ k
    cases hk : pattern.lookup k with
    | some w =>
      obtain ⟨v, hv, hvw⟩ := hcovers _ (mem_of_lookup hk)
      rw [hv, Option.map_some, Option.map_some, hvw]
    | none =>
      cases hk' : table.lookup k with
      | none => rfl
      | some v =>
        have hsome := hkeys _ (mem_of_lookup hk')
        rw [hk] at hsome
        cases hsome
  · intro h
    constructor
    · intro e he
      have hk := h e.1
      rw [lookup_of_mem hpattern he, Option.map_some, Option.map_eq_some_iff] at hk
      exact hk
    · intro e he
      have hk := congrArg Option.isSome (h e.1)
      rw [Option.isSome_map, Option.isSome_map, isSome_lookup_iff.2 (List.mem_map_of_mem he)] at hk
      exact hk.symm

/-- And then they have as many entries. -/
theorem length_eq_of_keysIn {table : List (κ × ν)} {pattern : List (κ × μ)} (htable : (table.map Prod.fst).Nodup)
    (hpattern : (pattern.map Prod.fst).Nodup) (h : KeysIn table pattern) (h' : KeysIn pattern table) :
    table.length = pattern.length := by
  have hmem : ∀ k, k ∈ table.map Prod.fst ↔ k ∈ pattern.map Prod.fst := by
    intro k
    constructor
    · intro hk
      obtain ⟨e, he, rfl⟩ := List.mem_map.1 hk
      exact isSome_lookup_iff.1 (h e he)
    · intro hk
      obtain ⟨e, he, rfl⟩ := List.mem_map.1 hk
      exact isSome_lookup_iff.1 (h' e he)
  have hperm := (List.perm_ext_iff_of_nodup htable hpattern).2 hmem
  simpa using hperm.length_eq

theorem Covers.keysIn {R : ν → μ → Prop} {table : List (κ × ν)} {pattern : List (κ × μ)} (h : Covers R table pattern) :
    KeysIn pattern table := by
  intro e he
  obtain ⟨v, hv, -⟩ := h e he
  rw [hv]
  rfl

end Table
