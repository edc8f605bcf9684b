/-
Tail queues that own their elements, as the streams use them: an element is allocated when it is inserted and
freed when it is removed, so that what is allocated is what is in the queues. The queues are then known by the
contents of their elements alone.
-/
import CMx.Queue

namespace CMx

open Links

/-- What `xmalloc` returns: an element that is not in use. The program is reset where there is none. -/
structure Allocator (α δ : Type) where
  malloc : (α → Option δ) → α
  fresh : ∀ data : α → Option δ, {x | (data x).isSome = true}.Finite → data (malloc data) = none

/-- The least address that is free. -/
noncomputable def Allocator.least (δ : Type) : Allocator Nat δ where
  malloc data := sInf {x | data x = none}
  fresh data hfinite := by
    have hfree : {x | data x = none}.Nonempty := by
      obtain ⟨x, hx⟩ := hfinite.exists_notMem
      exact ⟨x, by simpa using hx⟩
    exact Nat.sInf_mem hfree

section Macros

variable {β α δ : Type} [DecidableEq β] [DecidableEq α]

/-- An element with content `d` at the end of a queue. -/
def insertNewTail (A : Allocator α δ) (m : Memory β α δ) (h : β) (d : δ) : Option (Memory β α δ) :=
  tailqInsertTail (m.alloc (A.malloc m.data) d) h (A.malloc m.data)

/-- An element with content `d` at the front of a queue. -/
def insertNewHead (A : Allocator α δ) (m : Memory β α δ) (h : β) (d : δ) : Option (Memory β α δ) :=
  tailqInsertHead (m.alloc (A.malloc m.data) d) h (A.malloc m.data)

def removeDelete (m : Memory β α δ) (h : β) (x : α) : Option (Memory β α δ) := do
  let m ← tailqRemove m h x
  m.free x

/-- The body of a loop that removes what meets `p` and notes whether anything does. -/
def removeIf (p : δ → Bool) (h : β) (found : Bool) (m : Memory β α δ) (x : α) : Option (Bool × Memory β α δ) := do
  let d ← m.data x
  if p d then
    let m ← removeDelete m h x
    return (true, m)
  else return (found, m)

/-- `n` bounds the rounds. -/
def removeAll (n : Nat) (m : Memory β α δ) (h : β) (p : δ → Bool) : Option (Bool × Memory β α δ) := do
  let first ← tailqFirst m h
  forEachSafe (removeIf p h) n first false m

end Macros

/-! ## What is stored -/

section Stored

variable {β α δ : Type}

/-- The lists `q` are those of the heads, nothing else is allocated, and `items` are the contents. -/
structure Stored (m : Memory β α δ) (q : β → List α) (items : β → List δ) : Prop where
  tailed : Tailed m q
  owned : ∀ x, (m.data x).isSome = true → ∃ h, x ∈ q h
  contents : ∀ h, (q h).map m.data = (items h).map some

/-- The queues own elements with these contents, at whatever addresses. -/
def Owns (m : Memory β α δ) (items : β → List δ) : Prop := ∃ q, Stored m q items

variable {m m' : Memory β α δ} {q : β → List α} {items : β → List δ} {h : β} {x : α}

theorem Stored.finite [Finite β] (hs : Stored m q items) : {x | (m.data x).isSome = true}.Finite := by
  apply (Set.finite_iUnion fun h => (q h).finite_toSet).subset
  intro x hx
  exact Set.mem_iUnion.2 (hs.owned x hx)

theorem Stored.length_eq (hs : Stored m q items) (h : β) : (q h).length = (items h).length := by
  simpa using congrArg List.length (hs.contents h)

theorem Owns.first_nil (hm : Owns m items) (hitems : items h = []) : tailqFirst m h = some none := by
  obtain ⟨q, hs⟩ := hm
  have hcontents := hs.contents h
  rw [hitems, List.map_nil, List.map_eq_nil_iff] at hcontents
  rw [tailqFirst_eq hs.tailed.toShape, hcontents]
  rfl

section Changes

variable [DecidableEq β]

/-- The contents of one queue change with its addresses. -/
theorem Stored.update (hs : Stored m q items) {xs : List α} {ds : List δ} (hm : Tailed m' (Function.update q h xs))
    (howned : ∀ x, (m'.data x).isSome = true → x ∈ xs ∨ ∃ h', h' ≠ h ∧ x ∈ q h')
    (hothers : ∀ h', h' ≠ h → ∀ x ∈ q h', m'.data x = m.data x) (hcontents : xs.map m'.data = ds.map some) :
    Stored m' (Function.update q h xs) (Function.update items h ds) where
  tailed := hm
  owned x hx := by
    rcases howned x hx with hx | ⟨h', hne, hx⟩
    · refine ⟨h, ?_⟩
      rwa [Function.update_self]
    · refine ⟨h', ?_⟩
      rwa [Function.update_of_ne hne]
  contents h' := by
    rcases eq_or_ne h' h with rfl | hne
    · rw [Function.update_self, Function.update_self, hcontents]
    · rw [Function.update_of_ne hne, Function.update_of_ne hne, ← hs.contents h']
      exact List.map_congr_left (hothers h' hne)

variable [DecidableEq α]

/-- A new element is put into a queue, wherever the macro puts it. -/
theorem Stored.insert [Finite β] (hs : Stored m q items) (A : Allocator α δ) (h : β) (d : δ) {as bs : List α}
    {ias ibs : List δ} (hq : q h = as ++ bs) (hias : as.map m.data = ias.map some) (hibs : bs.map m.data = ibs.map some)
    {put : Memory β α δ → β → α → Option (Memory β α δ)}
    (hput : ∀ {m : Memory β α δ} {x : α}, Tailed m q → (m.data x).isSome = true → (∀ h', x ∉ q h') →
      ∃ m', put m h x = some m' ∧ m'.data = m.data ∧ Tailed m' (Function.update q h (as ++ x :: bs))) :
    ∃ m' q', put (m.alloc (A.malloc m.data) d) h (A.malloc m.data) = some m' ∧
      Stored m' q' (Function.update items h (ias ++ d :: ibs)) := by
  have hfresh : m.data (A.malloc m.data) = none := A.fresh m.data hs.finite
  have hfree : ∀ h', A.malloc m.data ∉ q h' := by
    intro h' hx
    have hlive := (hs.tailed.listed h').seg.held _ hx
    rw [hfresh] at hlive
    cases hlive
  -- memory that has just been allocated is in no list
  have hne : ∀ h', ∀ y ∈ q h', y ≠ A.malloc m.data := by
    rintro h' y hy rfl
    exact hfree h' hy
  have hsame : ∀ h', ∀ y ∈ q h', (m.alloc (A.malloc m.data) d).data y = m.data y := fun h' y hy =>
    Function.update_of_ne (hne h' y hy) ..
  have hself : (m.alloc (A.malloc m.data) d).data (A.malloc m.data) = some d := Function.update_self ..
  have halloc : Tailed (m.alloc (A.malloc m.data) d) q := hs.tailed.data rfl rfl hsame
  obtain ⟨m', he, hdata, hm'⟩ := hput halloc (Option.isSome_iff_exists.2 ⟨d, hself⟩) hfree
  refine ⟨m', _, he, hs.update hm' (fun x hx => ?_) (fun h' _ y hy => ?_) ?_⟩
  · rw [hdata] at hx
    rcases eq_or_ne x (A.malloc m.data) with rfl | hxne
    · exact Or.inl (by simp)
    · rw [show (m.alloc (A.malloc m.data) d).data x = m.data x from Function.update_of_ne hxne ..] at hx
      obtain ⟨h', hx'⟩ := hs.owned x hx
      rcases eq_or_ne h' h with rfl | hne'
      · rw [hq, List.mem_append] at hx'
        exact Or.inl (by simp only [List.mem_append, List.mem_cons]; tauto)
      · exact Or.inr ⟨h', hne', hx'⟩
  · rw [hdata, hsame h' y hy]
  · rw [hdata, List.map_append, List.map_cons, hself, List.map_append, List.map_cons, ← hias, ← hibs]
    have hqas : ∀ y ∈ as, y ∈ q h := by
      intro y hy
      rw [hq]
      exact List.mem_append_left _ hy
    have hqbs : ∀ y ∈ bs, y ∈ q h := by
      intro y hy
      rw [hq]
      exact List.mem_append_right _ hy
    rw [List.map_congr_left fun y hy => hsame h y (hqas y hy), List.map_congr_left fun y hy => hsame h y (hqbs y hy)]

theorem Owns.insertNewTail [Finite β] (hm : Owns m items) (A : Allocator α δ) (h : β) (d : δ) :
    ∃ m', insertNewTail A m h d = some m' ∧ Owns m' (Function.update items h (items h ++ [d])) := by
  obtain ⟨q, hs⟩ := hm
  have hnil : ([] : List α).map m.data = ([] : List δ).map some := rfl
  obtain ⟨m', q', he, hs'⟩ := hs.insert A h d (List.append_nil (q h)).symm (hs.contents h) hnil
    fun hm hx hfree => tailqInsertTail_spec hm hx hfree h
  exact ⟨m', he, q', hs'⟩

theorem Owns.insertNewHead [Finite β] (hm : Owns m items) (A : Allocator α δ) (h : β) (d : δ) :
    ∃ m', insertNewHead A m h d = some m' ∧ Owns m' (Function.update items h (d :: items h)) := by
  obtain ⟨q, hs⟩ := hm
  have hnil : ([] : List α).map m.data = ([] : List δ).map some := rfl
  obtain ⟨m', q', he, hs'⟩ := hs.insert A h d (List.nil_append (q h)).symm hnil (hs.contents h)
    fun hm hx hfree => tailqInsertHead_spec hm hx hfree h
  exact ⟨m', he, q', hs'⟩

/-- An element is removed and freed. -/
theorem Stored.remove (hs : Stored m q items) {as bs : List α} {ias ibs : List δ} (hq : q h = as ++ x :: bs)
    (hias : as.map m.data = ias.map some) (hibs : bs.map m.data = ibs.map some) :
    ∃ m', removeDelete m h x = some m' ∧ m'.data = Function.update m.data x none ∧
      Stored m' (Function.update q h (as ++ bs)) (Function.update items h (ias ++ ibs)) := by
  have hlist := hs.tailed.listed h
  rw [hq] at hlist
  have hx : (m.data x).isSome = true := hlist.seg.held x (by simp)
  have hnodup : x ∉ as ++ bs := by
    have hnodup := hlist.nodup
    rw [List.nodup_middle, List.nodup_cons] at hnodup
    exact hnodup.1
  obtain ⟨m₁, he, hdata, hm₁⟩ := tailqRemove_spec hs.tailed hq
  -- no list holds the entry any more, so its memory can be freed
  have hfree : ∀ h', x ∉ Function.update q h (as ++ bs) h' := by
    intro h'
    rcases eq_or_ne h' h with rfl | hne
    · rw [Function.update_self]
      exact hnodup
    · rw [Function.update_of_ne hne]
      apply hs.tailed.apart h h' hne.symm
      simp [hq]
  obtain ⟨m₂, hfreed, hlink, hback, hdata₂⟩ := Memory.free_spec (show (m₁.data x).isSome = true by rwa [hdata])
  rw [hdata] at hdata₂
  -- freeing it is seen by no other entry
  have hsame : ∀ y, y ≠ x → m₂.data y = m.data y := by
    intro y hy
    rw [hdata₂, Function.update_of_ne hy]
  refine ⟨m₂, ?_, hdata₂, ?_⟩
  · unfold removeDelete
    rw [he]
    exact hfreed
  · apply hs.update
    · apply hm₁.data hlink hback
      intro h' y hy
      have hne : y ≠ x := by
        rintro rfl
        exact hfree h' hy
      rw [hsame y hne, hdata]
    · intro y hy
      have hne : y ≠ x := by
        rintro rfl
        rw [hdata₂, Function.update_self] at hy
        cases hy
      rw [hsame y hne] at hy
      obtain ⟨h', hy'⟩ := hs.owned y hy
      rcases eq_or_ne h' h with rfl | hne'
      · rw [hq] at hy'
        exact Or.inl (by simpa [hne] using hy')
      · exact Or.inr ⟨h', hne', hy'⟩
    · intro h' hne y hy
      apply hsame
      rintro rfl
      exact hs.tailed.apart h h' hne.symm y (by simp [hq]) hy
    · have haway : ∀ y ∈ as ++ bs, m₂.data y = m.data y := by
        intro y hy
        apply hsame
        rintro rfl
        exact hnodup hy
      rw [List.map_append, List.map_append, ← hias, ← hibs]
      rw [List.map_congr_left fun y hy => haway y (List.mem_append_left _ hy),
        List.map_congr_left fun y hy => haway y (List.mem_append_right _ hy)]

/-- An element goes to the end of another queue. -/
theorem Stored.move (hs : Stored m q items) {h' : β} (hne : h' ≠ h) {as bs : List α} {d : δ} {ias ibs : List δ}
    (hq : q h = as ++ x :: bs) (hias : as.map m.data = ias.map some) (hd : m.data x = some d)
    (hibs : bs.map m.data = ibs.map some) :
    ∃ m₁ m', tailqRemove m h x = some m₁ ∧ tailqInsertTail m₁ h' x = some m' ∧ m'.data = m.data ∧
      Stored m' (Function.update (Function.update q h (as ++ bs)) h' (q h' ++ [x]))
        (Function.update (Function.update items h (ias ++ ibs)) h' (items h' ++ [d])) := by
  obtain ⟨m₁, he₁, hdata₁, hm₁⟩ := tailqRemove_spec hs.tailed hq
  have hnodup : x ∉ as ++ bs := by
    have hnodup := (hs.tailed.listed h).nodup
    rw [hq, List.nodup_middle, List.nodup_cons] at hnodup
    exact hnodup.1
  -- removed from its list, the entry is in none, so it can be put into another
  have hother : ∀ h', h' ≠ h → x ∉ q h' := fun h' hne => hs.tailed.apart h h' hne.symm x (by simp [hq])
  have hfree : ∀ h', x ∉ Function.update q h (as ++ bs) h' := by
    intro h'
    rcases eq_or_ne h' h with rfl | hne
    · rw [Function.update_self]
      exact hnodup
    · rw [Function.update_of_ne hne]
      exact hother h' hne
  have hx : (m₁.data x).isSome = true := by
    rw [hdata₁, hd]
    rfl
  obtain ⟨m', he', hdata', hm'⟩ := tailqInsertTail_spec hm₁ hx hfree h'
  rw [Function.update_of_ne hne] at hm'
  have hdata : m'.data = m.data := hdata'.trans hdata₁
  refine ⟨m₁, m', he₁, he', hdata, hm', fun y hy => ?_, fun k => ?_⟩
  · rw [hdata] at hy
    obtain ⟨k, hyk⟩ := hs.owned y hy
    rcases eq_or_ne k h' with rfl | hk
    · refine ⟨k, ?_⟩
      rw [Function.update_self]
      exact List.mem_append_left _ hyk
    · rcases eq_or_ne k h with rfl | hkh
      · rw [hq, List.mem_append, List.mem_cons] at hyk
        rcases eq_or_ne y x with rfl | hyx
        · exact ⟨h', by simp⟩
        · refine ⟨k, ?_⟩
          rw [Function.update_of_ne hk, Function.update_self, List.mem_append]
          tauto
      · refine ⟨k, ?_⟩
        rw [Function.update_of_ne hk, Function.update_of_ne hkh]
        exact hyk
  · rw [hdata]
    rcases eq_or_ne k h' with rfl | hk
    · rw [Function.update_self, Function.update_self, List.map_append, List.map_append, hs.contents, List.map_cons, hd]
      rfl
    · rw [Function.update_of_ne hk, Function.update_of_ne hk]
      rcases eq_or_ne k h with rfl | hkh
      · rw [Function.update_self, Function.update_self, List.map_append, List.map_append, hias, hibs]
      · rw [Function.update_of_ne hkh, Function.update_of_ne hkh]
        exact hs.contents k

/-- The first element is read, and may be removed. -/
theorem Owns.first (hm : Owns m items) {d : δ} {ds : List δ} (hitems : items h = d :: ds) :
    ∃ x, tailqFirst m h = some (some x) ∧ m.data x = some d ∧
      ∃ m', removeDelete m h x = some m' ∧ Owns m' (Function.update items h ds) := by
  obtain ⟨q, hs⟩ := hm
  have hcontents := hs.contents h
  rw [hitems] at hcontents
  cases hq : q h with
  | nil =>
    rw [hq] at hcontents
    cases hcontents
  | cons x xs =>
    rw [hq, List.map_cons, List.map_cons, List.cons.injEq] at hcontents
    have hfirst := tailqFirst_eq hs.tailed.toShape h
    rw [hq] at hfirst
    have hnil : ([] : List α).map m.data = ([] : List δ).map some := rfl
    obtain ⟨m', he, -, hs'⟩ := hs.remove (show q h = [] ++ x :: xs from hq) hnil hcontents.2
    exact ⟨x, hfirst, hcontents.1, m', he, _, hs'⟩

/-- The loop removes exactly what meets `p`. -/
theorem Owns.removeAll (hm : Owns m items) (h : β) (p : δ → Bool) {n : Nat} (hn : (items h).length ≤ n) :
    ∃ m', removeAll n m h p = some ((items h).any p, m') ∧
      Owns m' (Function.update items h ((items h).filter fun d => !p d)) := by
  obtain ⟨q, hs⟩ := hm
  -- the elements to come, with those that were kept, and what the contents of both are
  let I : List α → Bool → Memory β α δ → Prop := fun xs found m' => ∃ as done ds, items h = done ++ ds ∧
    found = done.any p ∧ as.map m'.data = (done.filter fun d => !p d).map some ∧ xs.map m'.data = ds.map some ∧
    Stored m' (Function.update q h (as ++ xs)) (Function.update items h ((done.filter fun d => !p d) ++ ds))
  have hstart : I (q h) false m := by
    refine ⟨[], [], items h, rfl, rfl, rfl, hs.contents h, ?_⟩
    simpa using hs
  have hstep : ∀ x xs found m', I (x :: xs) found m' → m'.getLink (.entry x) = some xs.head? ∧
      ∃ found' m'', removeIf p h found m' x = some (found', m'') ∧ I xs found' m'' := by
    rintro x xs found m' ⟨as, done, ds, hitems, rfl, has, hxs, hs'⟩
    have hq' : Function.update q h (as ++ x :: xs) h = as ++ x :: xs := Function.update_self ..
    refine ⟨tailqNext_eq hs'.tailed.toShape hq', ?_⟩
    cases ds with
    | nil => cases hxs
    | cons d ds =>
      rw [List.map_cons, List.map_cons, List.cons.injEq] at hxs
      obtain ⟨hd, hxs⟩ := hxs
      unfold removeIf
      simp only [hd, Option.bind_eq_bind, Option.bind_some]
      cases hp : p d with
      | false =>
        refine ⟨done.any p, m', rfl, as ++ [x], done ++ [d], ds, by simp [hitems], by simp [hp], ?_, hxs, ?_⟩
        · simp [has, hd, hp]
        · simpa [hp] using hs'
      | true =>
        obtain ⟨m'', he, hdata, hs''⟩ := hs'.remove hq' has hxs
        have hnodup := (hs'.tailed.listed h).nodup
        rw [hq', List.nodup_middle, List.nodup_cons] at hnodup
        have haway : ∀ y ∈ as ++ xs, m''.data y = m'.data y := by
          intro y hy
          rw [hdata]
          refine Function.update_of_ne ?_ ..
          rintro rfl
          exact hnodup.1 hy
        refine ⟨true, m'', by simp [he], as, done ++ [d], ds, by simp [hitems], by simp [hp], ?_, ?_, ?_⟩
        · rw [List.map_congr_left fun y hy => haway y (List.mem_append_left _ hy), has]
          simp [hp]
        · rw [List.map_congr_left fun y hy => haway y (List.mem_append_right _ hy), hxs]
        · rw [Function.update_idem, Function.update_idem] at hs''
          simpa [hp] using hs''
  obtain ⟨found, m', hloop, as, done, ds, hitems, rfl, has, hxs, hs'⟩ :=
    forEachSafe_rule hstep hstart (show (q h).length ≤ n by rwa [hs.length_eq])
  cases ds with
  | cons d ds => cases hxs
  | nil =>
    rw [List.append_nil] at hitems
    subst hitems
    refine ⟨m', ?_, _, by simpa using hs'⟩
    unfold CMx.removeAll
    simp only [tailqFirst_eq hs.tailed.toShape h, Option.bind_eq_bind, Option.bind_some]
    exact hloop

end Changes

/-- No element is allocated, and every queue is empty. -/
theorem owns_init [DecidableEq β] [DecidableEq α] {hs : List β} (hall : ∀ h, h ∈ hs) (hm : ∀ x, m.data x = none) :
    ∃ m', hs.foldlM tailqInit m = some m' ∧ Owns m' (fun _ => []) := by
  obtain ⟨m', he, hdata, hm'⟩ := tailqInit_all hall m
  refine ⟨m', he, fun _ => [], hm', fun x hx => ?_, fun _ => rfl⟩
  rw [hdata, hm] at hx
  cases hx

theorem Owns.empty (hm : Owns m items) (h : β) : tailqEmpty m h = some (items h).isEmpty := by
  obtain ⟨q, hs⟩ := hm
  rw [tailqEmpty_eq hs.tailed.toShape]
  have hlength := hs.length_eq h
  cases hq : q h <;> cases hitems : items h <;> simp_all

end Stored

end CMx
