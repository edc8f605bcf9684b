/-
Doubly linked lists threaded through their elements, for any types of heads, elements and contents. A
pointer to an element lies in a slot: in the head of a list, or in the entry of another element. Every slot
has a second pointer, which leads back: that of an entry to the slot that points at its element, that of a
head, where it is kept, to the last slot of its list. Elements are allocated and freed; an access to an
element that is not allocated has no result. Splicing an element in or out at any place of one list changes
the shape of that list alone.
-/
import Mathlib.Tactic

namespace Links

/-! ## Memory -/

/-- Where a pointer to an element lies. -/
inductive Slot (β α : Type) where
  | head (h : β)
  | entry (x : α)
  deriving DecidableEq, Repr

/-- Elements without content are not allocated. -/
structure Memory (β α δ : Type) where
  link : Slot β α → Option α
  back : Slot β α → Slot β α
  data : α → Option δ

namespace Memory

variable {β α δ : Type}

/-- Heads are always there. -/
def held (m : Memory β α δ) : Slot β α → Bool
  | .head _ => true
  | .entry x => (m.data x).isSome

def getLink (m : Memory β α δ) (s : Slot β α) : Option (Option α) :=
  if m.held s then some (m.link s) else none

def getBack (m : Memory β α δ) (s : Slot β α) : Option (Slot β α) :=
  if m.held s then some (m.back s) else none

theorem getLink_eq {m : Memory β α δ} {s : Slot β α} (hs : m.held s = true) : m.getLink s = some (m.link s) :=
  if_pos hs

theorem getBack_eq {m : Memory β α δ} {s : Slot β α} (hs : m.held s = true) : m.getBack s = some (m.back s) :=
  if_pos hs

@[simp] theorem held_head (m : Memory β α δ) (h : β) : m.held (.head h) = true := by rw [held]

@[simp] theorem held_entry (m : Memory β α δ) (x : α) : m.held (.entry x) = (m.data x).isSome := by rw [held]

variable [DecidableEq α]

/-- The pointers of a new element are whatever its memory held. -/
def alloc (m : Memory β α δ) (x : α) (d : δ) : Memory β α δ := { m with data := Function.update m.data x (some d) }

def free (m : Memory β α δ) (x : α) : Option (Memory β α δ) :=
  if (m.data x).isSome then some { m with data := Function.update m.data x none } else none

theorem free_spec {m : Memory β α δ} {x : α} (hx : (m.data x).isSome = true) :
    ∃ m', m.free x = some m' ∧ m'.link = m.link ∧ m'.back = m.back ∧ m'.data = Function.update m.data x none :=
  ⟨_, if_pos hx, rfl, rfl, rfl⟩

variable [DecidableEq β]

def putLink (m : Memory β α δ) (s : Slot β α) (x : Option α) : Memory β α δ :=
  { m with link := Function.update m.link s x }

def putBack (m : Memory β α δ) (s t : Slot β α) : Memory β α δ := { m with back := Function.update m.back s t }

def setLink (m : Memory β α δ) (s : Slot β α) (x : Option α) : Option (Memory β α δ) :=
  if m.held s then some (m.putLink s x) else none

def setBack (m : Memory β α δ) (s t : Slot β α) : Option (Memory β α δ) :=
  if m.held s then some (m.putBack s t) else none

theorem setLink_eq {m : Memory β α δ} {s : Slot β α} (hs : m.held s = true) (x : Option α) :
    m.setLink s x = some (m.putLink s x) :=
  if_pos hs

theorem setBack_eq {m : Memory β α δ} {s : Slot β α} (hs : m.held s = true) (t : Slot β α) :
    m.setBack s t = some (m.putBack s t) :=
  if_pos hs

section Put

variable (m : Memory β α δ) (s : Slot β α) (x : Option α) (t u : Slot β α)

@[simp] theorem putLink_link : (m.putLink s x).link u = if u = s then x else m.link u := Function.update_apply ..

@[simp] theorem putLink_back : (m.putLink s x).back = m.back := rfl

@[simp] theorem putLink_data : (m.putLink s x).data = m.data := rfl

@[simp] theorem putLink_held : (m.putLink s x).held u = m.held u := rfl

@[simp] theorem putBack_link : (m.putBack s t).link = m.link := rfl

@[simp] theorem putBack_back : (m.putBack s t).back u = if u = s then t else m.back u := Function.update_apply ..

@[simp] theorem putBack_data : (m.putBack s t).data = m.data := rfl

@[simp] theorem putBack_held : (m.putBack s t).held u = m.held u := rfl

end Put

end Memory

/-! ## Segments -/

section Segments

variable {β α δ : Type}

/-- The slots of the elements, behind `s`. -/
def slots (s : Slot β α) (xs : List α) : List (Slot β α) := s :: xs.map .entry

/-- The slot behind the last element. -/
def tail (s : Slot β α) : List α → Slot β α
  | [] => s
  | x :: xs => tail (.entry x) xs

/-- From `s` the links lead through the elements, and back. -/
def Seg (m : Memory β α δ) : Slot β α → List α → Prop
  | _, [] => True
  | s, x :: xs => m.link s = some x ∧ m.back (.entry x) = s ∧ (m.data x).isSome = true ∧ Seg m (.entry x) xs

@[simp] theorem tail_nil (s : Slot β α) : tail s [] = s := rfl

@[simp] theorem tail_cons (s : Slot β α) (x : α) (xs : List α) : tail s (x :: xs) = tail (.entry x) xs := rfl

@[simp] theorem tail_append (s : Slot β α) (xs ys : List α) : tail s (xs ++ ys) = tail (tail s xs) ys := by
  induction xs generalizing s with
  | nil => rfl
  | cons x xs ih => exact ih (.entry x)

theorem mem_slots {s u : Slot β α} {xs : List α} : u ∈ slots s xs ↔ u = s ∨ ∃ x ∈ xs, u = .entry x := by
  simp [slots, eq_comm]

theorem tail_mem_slots (s : Slot β α) (xs : List α) : tail s xs ∈ slots s xs := by
  induction xs generalizing s with
  | nil => exact List.mem_cons_self ..
  | cons x xs ih => exact List.mem_cons_of_mem _ (ih (.entry x))

/-- The last slot of a list with an element is an entry of it. -/
theorem tail_of_ne_nil (s : Slot β α) {xs : List α} (h : xs ≠ []) : ∃ x ∈ xs, tail s xs = .entry x := by
  cases xs with
  | nil => exact absurd rfl h
  | cons x xs =>
    rcases mem_slots.1 (tail_mem_slots (.entry x) xs) with h | ⟨y, hy, h⟩
    · exact ⟨x, List.mem_cons_self .., h⟩
    · exact ⟨y, List.mem_cons_of_mem _ hy, h⟩

@[simp] theorem seg_nil (m : Memory β α δ) (s : Slot β α) : Seg m s [] := trivial

theorem seg_append {m : Memory β α δ} {s : Slot β α} {xs ys : List α} :
    Seg m s (xs ++ ys) ↔ Seg m s xs ∧ Seg m (tail s xs) ys := by
  induction xs generalizing s with
  | nil => simp
  | cons x xs ih => simp only [List.cons_append, Seg, ih, tail_cons, and_assoc]

theorem Seg.held {m : Memory β α δ} {s : Slot β α} {xs : List α} (h : Seg m s xs) :
    ∀ x ∈ xs, (m.data x).isSome = true := by
  induction xs generalizing s with
  | nil =>
    intro x hx
    cases hx
  | cons y ys ih =>
    intro x hx
    rcases List.mem_cons.1 hx with rfl | hx
    · exact h.2.2.1
    · exact ih h.2.2.2 x hx

/-- A segment stays where its links, but the one behind its last element, and its elements stay. -/
theorem Seg.frame {m m' : Memory β α δ} {s : Slot β α} {xs : List α} (hs : ∀ x ∈ xs, s ≠ .entry x)
    (hnodup : xs.Nodup) (h : Seg m s xs)
    (hlink : ∀ u ∈ slots s xs, u ≠ tail s xs → m'.link u = m.link u)
    (hback : ∀ x ∈ xs, m'.back (.entry x) = m.back (.entry x))
    (hdata : ∀ x ∈ xs, m'.data x = m.data x) : Seg m' s xs := by
  induction xs generalizing s with
  | nil => exact trivial
  | cons x xs ih =>
    obtain ⟨hx, hxs⟩ := List.nodup_cons.1 hnodup
    have hentry : ∀ y ∈ xs, (.entry x : Slot β α) ≠ .entry y := by
      intro y hy heq
      cases heq
      exact hx hy
    have hne : s ≠ tail (.entry x) xs := by
      intro heq
      rcases mem_slots.1 (tail_mem_slots (.entry x) xs) with htail | ⟨y, hy, htail⟩
      · exact hs x (List.mem_cons_self ..) (heq.trans htail)
      · exact hs y (List.mem_cons_of_mem _ hy) (heq.trans htail)
    refine ⟨?_, ?_, ?_, ?_⟩
    · rw [hlink s (List.mem_cons_self ..) hne]
      exact h.1
    · rw [hback x (List.mem_cons_self ..)]
      exact h.2.1
    · rw [hdata x (List.mem_cons_self ..)]
      exact h.2.2.1
    · apply ih hentry hxs h.2.2.2
      · intro u hu hu'
        exact hlink u (List.mem_cons_of_mem _ hu) hu'
      · intro y hy
        exact hback y (List.mem_cons_of_mem _ hy)
      · intro y hy
        exact hdata y (List.mem_cons_of_mem _ hy)

end Segments

/-! ## Lists -/

section Lists

variable {β α δ : Type}

/-- The list of a head. -/
structure Listed (m : Memory β α δ) (h : β) (xs : List α) : Prop where
  seg : Seg m (.head h) xs
  stop : m.link (tail (.head h) xs) = none
  nodup : xs.Nodup

/-- The lists of all heads; no two share an element. -/
structure Shape (m : Memory β α δ) (q : β → List α) : Prop where
  listed : ∀ h, Listed m h (q h)
  apart : ∀ h h', h ≠ h' → ∀ x ∈ q h, x ∉ q h'

/-- Every head also knows the last slot of its list. -/
structure Tailed (m : Memory β α δ) (q : β → List α) : Prop extends Shape m q where
  last : ∀ h, m.back (.head h) = tail (.head h) (q h)

/-- The link at any place of a list. -/
theorem Listed.link {m : Memory β α δ} {h : β} {as bs : List α} (hm : Listed m h (as ++ bs)) :
    m.link (tail (.head h) as) = bs.head? := by
  cases bs with
  | nil =>
    have hstop := hm.stop
    rw [List.append_nil] at hstop
    exact hstop
  | cons b bs => exact (seg_append.1 hm.seg).2.1

/-- The link of an element leads to the one behind it. -/
theorem Listed.next {m : Memory β α δ} {h : β} {as bs : List α} {x : α} (hm : Listed m h (as ++ x :: bs)) :
    m.link (.entry x) = bs.head? := by
  have hlink := Listed.link (show Listed m h ((as ++ [x]) ++ bs) by simpa using hm)
  rwa [tail_append] at hlink

/-- The way back from an element leads to the slot before it. -/
theorem Listed.prev {m : Memory β α δ} {h : β} {as bs : List α} {x : α} (hm : Listed m h (as ++ x :: bs)) :
    m.back (.entry x) = tail (.head h) as :=
  (seg_append.1 hm.seg).2.2.1

theorem Listed.held {m : Memory β α δ} {h : β} {xs : List α} (hm : Listed m h xs) :
    ∀ s ∈ slots (.head h) xs, m.held s = true := by
  intro s hs
  rcases mem_slots.1 hs with rfl | ⟨x, hx, rfl⟩
  · rfl
  · exact hm.seg.held x hx

/-- A list stays where its slots and its elements stay. -/
theorem Listed.frame {m m' : Memory β α δ} {h : β} {xs : List α} (hm : Listed m h xs)
    (hlink : ∀ u ∈ slots (.head h) xs, m'.link u = m.link u)
    (hback : ∀ x ∈ xs, m'.back (.entry x) = m.back (.entry x))
    (hdata : ∀ x ∈ xs, m'.data x = m.data x) : Listed m' h xs where
  seg := by
    apply hm.seg.frame _ hm.nodup (fun u hu _ => hlink u hu) hback hdata
    intro x _ heq
    cases heq
  stop := by
    rw [hlink _ (tail_mem_slots ..)]
    exact hm.stop
  nodup := hm.nodup

/-! ## Splicing -/

section Splicing

variable {m m' : Memory β α δ} {q : β → List α} {h : β} {as bs : List α} {x : α}

/-- The elements behind a slot `t` are put behind a slot `t'`. -/
theorem Seg.move {t t' : Slot β α} (hseg : Seg m t bs) (hnodup : bs.Nodup) (hon : m'.link t' = bs.head?)
    (hnext : ∀ y, bs.head? = some y → m'.back (.entry y) = t')
    (hlink : ∀ y ∈ bs, m'.link (.entry y) = m.link (.entry y))
    (hback : ∀ y ∈ bs, bs.head? ≠ some y → m'.back (.entry y) = m.back (.entry y))
    (hdata : ∀ y ∈ bs, m'.data y = m.data y) : Seg m' t' bs := by
  cases bs with
  | nil => exact trivial
  | cons b bs =>
    obtain ⟨hb, hbs⟩ := List.nodup_cons.1 hnodup
    have hne : ∀ y ∈ bs, b ≠ y := by
      rintro y hy rfl
      exact hb hy
    refine ⟨hon, hnext b rfl, ?_, ?_⟩
    · rw [hdata b (List.mem_cons_self ..)]
      exact hseg.2.2.1
    · apply hseg.2.2.2.frame _ hbs
      · intro u hu _
        rcases mem_slots.1 hu with rfl | ⟨y, hy, rfl⟩
        · exact hlink b (List.mem_cons_self ..)
        · exact hlink y (List.mem_cons_of_mem _ hy)
      · intro y hy
        apply hback y (List.mem_cons_of_mem _ hy)
        rw [List.head?_cons, Ne, Option.some.injEq]
        exact hne y hy
      · intro y hy
        exact hdata y (List.mem_cons_of_mem _ hy)
      · intro y hy heq
        cases heq
        exact hb hy

/-- They still end the list. -/
theorem stop_move {t t' : Slot β α} (hstop : m.link (tail t bs) = none) (hon : m'.link t' = bs.head?)
    (hlink : ∀ y ∈ bs, m'.link (.entry y) = m.link (.entry y)) : m'.link (tail t' bs) = none := by
  cases bs with
  | nil => exact hon
  | cons b bs =>
    obtain ⟨y, hy, heq⟩ := tail_of_ne_nil t' (List.cons_ne_nil b bs)
    have hsame : tail t (b :: bs) = tail t' (b :: bs) := rfl
    rw [heq, hlink y hy, ← heq, ← hsame]
    exact hstop

/-- Elements in no list come and go. -/
theorem Shape.data (hm : Shape m q) (hlink : m'.link = m.link) (hback : m'.back = m.back)
    (hdata : ∀ h, ∀ y ∈ q h, m'.data y = m.data y) : Shape m' q where
  listed h := (hm.listed h).frame (fun _ _ => congrFun hlink _) (fun _ _ => congrFun hback _) (hdata h)
  apart := hm.apart

theorem Tailed.data (hm : Tailed m q) (hlink : m'.link = m.link) (hback : m'.back = m.back)
    (hdata : ∀ h, ∀ y ∈ q h, m'.data y = m.data y) : Tailed m' q where
  toShape := hm.toShape.data hlink hback hdata
  last h := by
    rw [hback]
    exact hm.last h

/-- The list of one head changes, at slots and elements of its own. -/
theorem Shape.change [DecidableEq β] (hm : Shape m q) {xs : List α} (hlisted : Listed m' h xs) (away : List α)
    (haway : ∀ y ∈ away, ∀ h', h' ≠ h → y ∉ q h') (hxs : ∀ y ∈ xs, y ∈ away)
    (hlink : ∀ u, u ∉ slots (.head h) away → m'.link u = m.link u)
    (hback : ∀ y, y ∉ away → m'.back (.entry y) = m.back (.entry y))
    (hdata : ∀ y, y ∉ away → m'.data y = m.data y) : Shape m' (Function.update q h xs) := by
  -- no cell of another list has been written
  have hothers : ∀ h', h' ≠ h → Listed m' h' (q h') := by
    intro h' hne
    have hapart : ∀ y ∈ q h', y ∉ away := fun y hy hyaway => haway y hyaway h' hne hy
    apply (hm.listed h').frame
    · intro u hu
      apply hlink
      intro hu'
      rcases mem_slots.1 hu with rfl | ⟨y, hy, rfl⟩
      · rcases mem_slots.1 hu' with heq | ⟨z, _, heq⟩
        · cases heq
          exact hne rfl
        · cases heq
      · rcases mem_slots.1 hu' with heq | ⟨z, hz, heq⟩
        · cases heq
        · cases heq
          exact hapart y hy hz
    · intro y hy
      exact hback y (hapart y hy)
    · intro y hy
      exact hdata y (hapart y hy)
  refine ⟨fun h' => ?_, fun h₁ h₂ hne y hy₁ hy₂ => ?_⟩
  · rcases eq_or_ne h' h with rfl | hne
    · rw [Function.update_self]
      exact hlisted
    · rw [Function.update_of_ne hne]
      exact hothers h' hne
  · rcases eq_or_ne h₁ h with rfl | hne₁
    · rw [Function.update_self] at hy₁
      rw [Function.update_of_ne hne.symm] at hy₂
      exact haway y (hxs y hy₁) h₂ hne.symm hy₂
    · rw [Function.update_of_ne hne₁] at hy₁
      rcases eq_or_ne h₂ h with rfl | hne₂
      · rw [Function.update_self] at hy₂
        exact haway y (hxs y hy₂) h₁ hne₁ hy₁
      · rw [Function.update_of_ne hne₂] at hy₂
        exact hm.apart h₁ h₂ hne y hy₁ hy₂

/-- The last slot of the front part of a list is one of the list's, and none of an element behind. -/
theorem Listed.tail_front (hm : Listed m h (as ++ bs)) :
    tail (.head h) as ∈ slots (.head h) (as ++ bs) ∧ ∀ y ∈ bs, tail (.head h) as ≠ .entry y := by
  rcases mem_slots.1 (tail_mem_slots (.head h) as) with htail | ⟨z, hz, htail⟩
  · refine ⟨mem_slots.2 (Or.inl htail), fun y _ heq => ?_⟩
    cases htail.symm.trans heq
  · refine ⟨mem_slots.2 (Or.inr ⟨z, List.mem_append_left _ hz, htail⟩), fun y hy heq => ?_⟩
    cases htail.symm.trans heq
    exact (List.nodup_append.1 hm.nodup).2.2 z hz z hy rfl

/-- An element in no list is spliced in behind `as`. -/
theorem Shape.insert [DecidableEq β] (hm : Shape m q) (hq : q h = as ++ bs) (hfree : ∀ h', x ∉ q h')
    (hx : (m'.data x).isSome = true) (hdata : ∀ y, y ≠ x → m'.data y = m.data y)
    (hto : m'.link (tail (.head h) as) = some x) (hon : m'.link (.entry x) = bs.head?)
    (hlink : ∀ u, u ≠ tail (.head h) as → u ≠ .entry x → m'.link u = m.link u)
    (hprev : m'.back (.entry x) = tail (.head h) as) (hnext : ∀ y, bs.head? = some y → m'.back (.entry y) = .entry x)
    (hback : ∀ y, y ≠ x → bs.head? ≠ some y → m'.back (.entry y) = m.back (.entry y)) :
    Shape m' (Function.update q h (as ++ x :: bs)) := by
  have hlist : Listed m h (as ++ bs) := hq ▸ hm.listed h
  have hnew : x ∉ as ++ bs := hq ▸ hfree h
  have hne : ∀ y ∈ as ++ bs, y ≠ x := by
    rintro y hy rfl
    exact hnew hy
  obtain ⟨hnodupAs, hnodupBs, hapart⟩ := List.nodup_append.1 hlist.nodup
  obtain ⟨hsegAs, hsegBs⟩ := seg_append.1 hlist.seg
  obtain ⟨htail, htailBs⟩ := hlist.tail_front
  have hlinkBs : ∀ y ∈ bs, m'.link (.entry y) = m.link (.entry y) := by
    intro y hy
    apply hlink _ (htailBs y hy).symm
    rw [Ne, Slot.entry.injEq]
    exact hne y (List.mem_append_right _ hy)
  -- in front of the new entry only the last pointer has been written
  have hfront : Seg m' (.head h) as := by
    apply hsegAs.frame _ hnodupAs
    · intro u hu hu'
      apply hlink u hu'
      rintro rfl
      rcases mem_slots.1 hu with heq | ⟨y, hy, heq⟩
      · cases heq
      · cases heq
        exact hne x (List.mem_append_left _ hy) rfl
    · intro y hy
      apply hback y (hne y (List.mem_append_left _ hy))
      intro hhead
      exact hapart y hy y (List.mem_of_mem_head? hhead) rfl
    · intro y hy
      exact hdata y (hne y (List.mem_append_left _ hy))
    · intro y _ heq
      cases heq
  -- behind it the entries hang on another slot, with the same pointers
  have hrest : Seg m' (.entry x) bs :=
    hsegBs.move hnodupBs hon hnext hlinkBs (fun y hy => hback y (hne y (List.mem_append_right _ hy)))
      (fun y hy => hdata y (hne y (List.mem_append_right _ hy)))
  have hstop : m'.link (tail (.entry x) bs) = none := by
    apply @stop_move _ _ _ m m' bs (tail (.head h) as) (.entry x) _ hon hlinkBs
    rw [← tail_append]
    exact hlist.stop
  have hlisted : Listed m' h (as ++ x :: bs) := by
    refine ⟨seg_append.2 ⟨hfront, hto, hprev, hx, hrest⟩, ?_, ?_⟩
    · rw [tail_append, tail_cons]
      exact hstop
    · rw [List.nodup_middle, List.nodup_cons]
      exact ⟨hnew, hlist.nodup⟩
  have hmem : ∀ y, y ∈ as ++ x :: bs ↔ y = x ∨ y ∈ as ++ bs := by
    intro y
    simp only [List.mem_append, List.mem_cons]
    tauto
  -- the other lists have no part in what has been written
  apply hm.change hlisted (as ++ x :: bs)
  · intro y hy h' hh'
    rcases (hmem y).1 hy with rfl | hy
    · exact hfree h'
    · exact hm.apart h h' hh'.symm y (hq ▸ hy)
  · exact fun y hy => hy
  · intro u hu
    apply hlink
    · rintro rfl
      rcases mem_slots.1 htail with heq | ⟨y, hy, heq⟩
      · exact hu (mem_slots.2 (Or.inl heq))
      · exact hu (mem_slots.2 (Or.inr ⟨y, (hmem y).2 (Or.inr hy), heq⟩))
    · rintro rfl
      exact hu (mem_slots.2 (Or.inr ⟨x, (hmem x).2 (Or.inl rfl), rfl⟩))
  · intro y hy
    apply hback y (fun heq => hy ((hmem y).2 (Or.inl heq)))
    intro hhead
    exact hy ((hmem y).2 (Or.inr (List.mem_append_right _ (List.mem_of_mem_head? hhead))))
  · intro y hy
    exact hdata y (fun heq => hy ((hmem y).2 (Or.inl heq)))

/-- An element is spliced out from between `as` and `bs`. -/
theorem Shape.remove [DecidableEq β] (hm : Shape m q) (hq : q h = as ++ x :: bs)
    (hdata : ∀ y, y ≠ x → m'.data y = m.data y) (hon : m'.link (tail (.head h) as) = bs.head?)
    (hlink : ∀ u, u ≠ tail (.head h) as → m'.link u = m.link u)
    (hnext : ∀ y, bs.head? = some y → m'.back (.entry y) = tail (.head h) as)
    (hback : ∀ y, bs.head? ≠ some y → m'.back (.entry y) = m.back (.entry y)) :
    Shape m' (Function.update q h (as ++ bs)) := by
  have hlist : Listed m h (as ++ x :: bs) := hq ▸ hm.listed h
  obtain ⟨hnodupAs, hnodupBs, hapart⟩ := List.nodup_append.1 hlist.nodup
  obtain ⟨hxbs, hnodupBs⟩ := List.nodup_cons.1 hnodupBs
  obtain ⟨hsegAs, hsegX⟩ := seg_append.1 hlist.seg
  obtain ⟨htail, htailX⟩ := hlist.tail_front
  have hneAs : ∀ y ∈ as, y ≠ x := fun y hy => hapart y hy x (List.mem_cons_self ..)
  have hneBs : ∀ y ∈ bs, y ≠ x := by
    rintro y hy rfl
    exact hxbs hy
  have hlinkBs : ∀ y ∈ bs, m'.link (.entry y) = m.link (.entry y) := fun y hy =>
    hlink _ (htailX y (List.mem_cons_of_mem _ hy)).symm
  have hfront : Seg m' (.head h) as := by
    apply hsegAs.frame _ hnodupAs (fun u _ hu' => hlink u hu')
    · intro y hy
      apply hback y
      intro hhead
      exact hapart y hy y (List.mem_cons_of_mem _ (List.mem_of_mem_head? hhead)) rfl
    · intro y hy
      exact hdata y (hneAs y hy)
    · intro y _ heq
      cases heq
  -- the entries behind hang on the slot in front of the removed one
  have hrest : Seg m' (tail (.head h) as) bs :=
    hsegX.2.2.2.move hnodupBs hon hnext hlinkBs (fun y _ => hback y) (fun y hy => hdata y (hneBs y hy))
  have hstop : m'.link (tail (tail (.head h) as) bs) = none := by
    apply @stop_move _ _ _ m m' bs (.entry x) (tail (.head h) as) _ hon hlinkBs
    have hold := hlist.stop
    rw [tail_append, tail_cons] at hold
    exact hold
  have hlisted : Listed m' h (as ++ bs) := by
    refine ⟨seg_append.2 ⟨hfront, hrest⟩, ?_, ?_⟩
    · rw [tail_append]
      exact hstop
    · exact (List.nodup_middle.1 hlist.nodup).of_cons
  -- what has been written belongs to this list alone
  apply hm.change hlisted (as ++ x :: bs)
  · intro y hy h' hh'
    exact hm.apart h h' hh'.symm y (hq ▸ hy)
  · intro y hy
    simp only [List.mem_append, List.mem_cons] at hy ⊢
    tauto
  · intro u hu
    apply hlink
    rintro rfl
    exact hu htail
  · intro y hy
    apply hback
    intro hhead
    exact hy (List.mem_append_right _ (List.mem_cons_of_mem _ (List.mem_of_mem_head? hhead)))
  · intro y hy
    apply hdata
    rintro rfl
    exact hy (List.mem_append_right _ (List.mem_cons_self ..))

end Splicing

end Lists

end Links
