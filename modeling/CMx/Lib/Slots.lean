/-
A list used as a store with one slot per key: putting a value replaces the one under its key,
taking a key removes what is under it. In every state reached by puts and takes the keys are
distinct, and under each key is the value put last since the key was last taken.
-/
import Mathlib.Tactic

namespace Slots

variable {κ ν : Type} [DecidableEq κ] (key : ν → κ)

/-- An operation on the store. -/
inductive Op (κ ν : Type) where
  | put (value : ν)
  | take (k : κ)

/-- The value under a key of `value`'s replaced, at the end of the list. -/
def put (l : List ν) (value : ν) : List ν := l.filter (fun w => key w ≠ key value) ++ [value]

/-- The list without the values under `k`. -/
def drop (l : List ν) (k : κ) : List ν := l.filter (fun w => key w ≠ k)

/-- The values under `k`. -/
def under (l : List ν) (k : κ) : List ν := l.filter (fun w => key w = k)

def apply (l : List ν) : Op κ ν → List ν
  | .put v => put key l v
  | .take k => drop key l k

/-- The value put last under `k` since `k` was last taken. -/
def latest (ops : List (Op κ ν)) (k : κ) : Option ν :=
  ops.foldl (fun current op =>
    match op with
    | .put v => if key v = k then some v else current
    | .take j => if j = k then none else current) none

@[simp] theorem latest_nil (k : κ) : latest key ([] : List (Op κ ν)) k = none := rfl

@[simp] theorem latest_put (ops : List (Op κ ν)) (v : ν) (k : κ) :
    latest key (ops ++ [.put v]) k = if key v = k then some v else latest key ops k := by
  simp [latest, List.foldl_append]

@[simp] theorem latest_take (ops : List (Op κ ν)) (j k : κ) :
    latest key (ops ++ [.take j]) k = if j = k then none else latest key ops k := by
  simp [latest, List.foldl_append]

theorem under_put (l : List ν) (v : ν) (k : κ) :
    under key (put key l v) k = if key v = k then [v] else under key l k := by
  unfold under put
  rw [List.filter_append, List.filter_filter]
  split
  · rename_i h
    subst h
    simp
  · rename_i h
    rw [List.filter_cons_of_neg (by simpa using h), List.filter_nil, List.append_nil]
    refine List.filter_congr fun w _ => ?_
    by_cases hw : key w = k <;> simp [hw, Ne.symm h]

theorem under_drop (l : List ν) (j k : κ) :
    under key (drop key l j) k = if j = k then [] else under key l k := by
  unfold under drop
  rw [List.filter_filter]
  split
  · rename_i h; subst h
    simp
  · rename_i h
    refine List.filter_congr fun w _ => ?_
    by_cases hw : key w = k <;> simp [hw, Ne.symm h]

theorem nodup_drop {l : List ν} (h : (l.map key).Nodup) (k : κ) : ((drop key l k).map key).Nodup :=
  h.sublist (List.filter_sublist.map _)

theorem nodup_put {l : List ν} (h : (l.map key).Nodup) (v : ν) : ((put key l v).map key).Nodup := by
  unfold put
  rw [List.map_append, List.nodup_append]
  refine ⟨h.sublist (List.filter_sublist.map _), List.nodup_singleton _, fun a ha b hb => ?_⟩
  obtain ⟨w, hw, rfl⟩ := List.mem_map.1 ha
  simp only [List.map_cons, List.map_nil, List.mem_singleton] at hb
  subst hb
  simpa using (List.mem_filter.1 hw).2

/-- A run of the store from a list `l` under whose keys is `cur`. -/
theorem foldl_apply_spec (ops : List (Op κ ν)) :
    ((ops.foldl (apply key) []).map key).Nodup ∧
      ∀ k, under key (ops.foldl (apply key) []) k = (latest key ops k).toList := by
  induction ops using List.reverseRecOn with
  | nil => exact ⟨List.nodup_nil, fun k => rfl⟩
  | append_singleton ops op ih =>
    obtain ⟨hnd, hat⟩ := ih
    rw [List.foldl_append]
    cases op with
    | put v =>
      refine ⟨nodup_put key hnd v, fun k => ?_⟩
      show under key (put key _ v) k = _
      rw [under_put, latest_put, hat]
      split <;> rfl
    | take j =>
      refine ⟨nodup_drop key hnd j, fun k => ?_⟩
      show under key (drop key _ j) k = _
      rw [under_drop, latest_take, hat]
      split <;> rfl

end Slots
