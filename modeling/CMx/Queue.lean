/-
The lists and tail queues of `queue.h`, as their macros work on the pointers of the elements: which pointer
each reads and writes, in the order of the source. Elements of one type can be in any list of their type, with
one entry. Over it, the macros as operations on lists, for any number of lists in one memory.
-/
import CMx.Lib.Links

namespace CMx

open Links

/-! ## Lists -/

section Macros

variable {β α δ : Type} [DecidableEq β] [DecidableEq α]

def listFirst (m : Memory β α δ) (h : β) : Option (Option α) := m.getLink (.head h)

def listNext (m : Memory β α δ) (x : α) : Option (Option α) := m.getLink (.entry x)

def listInit (m : Memory β α δ) (h : β) : Option (Memory β α δ) := m.setLink (.head h) none

/-- A pointer stored where the way back of the element `x` is, if there is such an element. -/
def setBackOf (m : Memory β α δ) (x : Option α) (s : Slot β α) : Option (Memory β α δ) :=
  match x with
  | none => some m
  | some y => m.setBack (.entry y) s

def listInsertHead (m : Memory β α δ) (h : β) (x : α) : Option (Memory β α δ) := do
  let first ← m.getLink (.head h)
  let m ← m.setLink (.entry x) first
  let m ← setBackOf m first (.entry x)
  let m ← m.setLink (.head h) (some x)
  m.setBack (.entry x) (.head h)

def listRemove (m : Memory β α δ) (x : α) : Option (Memory β α δ) := do
  let m ← setBackOf m (← m.getLink (.entry x)) (← m.getBack (.entry x))
  m.setLink (← m.getBack (.entry x)) (← m.getLink (.entry x))

/-! ## Tail queues -/

def tailqEmpty (m : Memory β α δ) (h : β) : Option Bool := do
  let first ← m.getLink (.head h)
  return first.isNone

def tailqFirst (m : Memory β α δ) (h : β) : Option (Option α) := m.getLink (.head h)

def tailqNext (m : Memory β α δ) (x : α) : Option (Option α) := m.getLink (.entry x)

/-- The macro reads the slot that the head's second pointer leads to as if it were a head itself: an entry
has its way back where a head has its last slot. -/
def tailqLast (m : Memory β α δ) (h : β) : Option (Option α) := do
  let last ← m.getBack (.head h)
  let before ← m.getBack last
  m.getLink before

def tailqInit (m : Memory β α δ) (h : β) : Option (Memory β α δ) := do
  let m ← m.setLink (.head h) none
  m.setBack (.head h) (.head h)

/-- A pointer stored as the way back of `x` or, without an element, as the last slot of a head. -/
def setBackOrLast (m : Memory β α δ) (h : β) (x : Option α) (s : Slot β α) : Option (Memory β α δ) :=
  match x with
  | none => m.setBack (.head h) s
  | some y => m.setBack (.entry y) s

def tailqInsertHead (m : Memory β α δ) (h : β) (x : α) : Option (Memory β α δ) := do
  let first ← m.getLink (.head h)
  let m ← m.setLink (.entry x) first
  let m ← setBackOrLast m h first (.entry x)
  let m ← m.setLink (.head h) (some x)
  m.setBack (.entry x) (.head h)

def tailqInsertTail (m : Memory β α δ) (h : β) (x : α) : Option (Memory β α δ) := do
  let m ← m.setLink (.entry x) none
  let m ← m.setBack (.entry x) (← m.getBack (.head h))
  let m ← m.setLink (← m.getBack (.head h)) (some x)
  m.setBack (.head h) (.entry x)

def tailqRemove (m : Memory β α δ) (h : β) (x : α) : Option (Memory β α δ) := do
  let m ← setBackOrLast m h (← m.getLink (.entry x)) (← m.getBack (.entry x))
  m.setLink (← m.getBack (.entry x)) (← m.getLink (.entry x))

end Macros

/-! ## What reading finds -/

section Reading

variable {β α δ : Type} {m : Memory β α δ} {q : β → List α} {h : β} {x : α}

theorem listFirst_eq (hm : Shape m q) (h : β) : listFirst m h = some (q h).head? := by
  have hlink : m.link (.head h) = (q h).head? := (show Listed m h ([] ++ q h) from hm.listed h).link
  unfold listFirst
  rw [Memory.getLink_eq (Memory.held_head m h), hlink]

theorem listNext_eq (hm : Shape m q) {as bs : List α} (hq : q h = as ++ x :: bs) : listNext m x = some bs.head? := by
  have hlist : Listed m h (as ++ x :: bs) := hq ▸ hm.listed h
  have hx : m.held (.entry x) = true := hlist.seg.held x (by simp)
  unfold listNext
  rw [Memory.getLink_eq hx, hlist.next]

theorem tailqFirst_eq (hm : Shape m q) (h : β) : tailqFirst m h = some (q h).head? := listFirst_eq hm h

theorem tailqNext_eq (hm : Shape m q) {as bs : List α} (hq : q h = as ++ x :: bs) : tailqNext m x = some bs.head? :=
  listNext_eq hm hq

theorem tailqEmpty_eq (hm : Shape m q) (h : β) : tailqEmpty m h = some (q h).isEmpty := by
  have hfirst : m.getLink (.head h) = some (q h).head? := listFirst_eq hm h
  unfold tailqEmpty
  rw [hfirst]
  cases q h <;> rfl

theorem tailqLast_eq (hm : Tailed m q) (h : β) : tailqLast m h = some (q h).getLast? := by
  have hlast := hm.last h
  unfold tailqLast
  rw [Memory.getBack_eq (Memory.held_head m h), hlast]
  simp only [Option.bind_eq_bind, Option.bind_some]
  rcases List.eq_nil_or_concat (q h) with hq | ⟨as, x, hq⟩
  · -- the head is read as itself
    have hlink : m.link (.head h) = none := by
      have hstop := (hm.listed h).stop
      rwa [hq] at hstop
    rw [hq] at hlast ⊢
    rw [tail_nil] at hlast ⊢
    rw [Memory.getBack_eq (Memory.held_head m h), Option.bind_some, hlast, Memory.getLink_eq (Memory.held_head m h), hlink]
    rfl
  · have hlist : Listed m h (as ++ [x]) := by
      rw [← List.concat_eq_append, ← hq]
      exact hm.listed h
    have hx : m.held (.entry x) = true := hlist.seg.held x (by simp)
    have hbefore : m.held (tail (.head h) as) = true := hlist.held _ hlist.tail_front.1
    rw [hq, List.concat_eq_append, tail_append, tail_cons, tail_nil, List.getLast?_concat]
    rw [Memory.getBack_eq hx, Option.bind_some, hlist.prev, Memory.getLink_eq hbefore, hlist.link, List.head?_cons]

end Reading

/-! ## What writing does -/

section Writing

variable {β α δ : Type} [DecidableEq β] [DecidableEq α] {m : Memory β α δ} {q : β → List α} {h : β} {x : α}

theorem listInsertHead_spec (hm : Shape m q) (hx : (m.data x).isSome = true) (hfree : ∀ h', x ∉ q h') (h : β) :
    ∃ m', listInsertHead m h x = some m' ∧ m'.data = m.data ∧ Shape m' (Function.update q h (x :: q h)) := by
  have hlink : m.link (.head h) = (q h).head? := (show Listed m h ([] ++ q h) from hm.listed h).link
  have hxy : ∀ y ∈ q h, y ≠ x := by
    rintro y hy rfl
    exact hfree h hy
  cases hq : q h with
  | nil =>
    rw [hq] at hlink
    refine ⟨((m.putLink (.entry x) none).putLink (.head h) (some x)).putBack (.entry x) (.head h), ?_, rfl, ?_⟩
    · simp [listInsertHead, setBackOf, Memory.getLink_eq, Memory.setLink_eq, Memory.setBack_eq, hx, hlink]
    · apply @Shape.insert _ _ _ m _ q h [] [] x _ hm hq hfree <;> simp +contextual [hx]
  | cons y ys =>
    rw [hq] at hlink hxy
    have hy : (m.data y).isSome = true := (hm.listed h).seg.held y (by simp [hq])
    have hyx : x ≠ y := (hxy y (List.mem_cons_self ..)).symm
    refine ⟨(((m.putLink (.entry x) (some y)).putBack (.entry y) (.entry x)).putLink (.head h) (some x)).putBack (.entry x)
      (.head h), ?_, rfl, ?_⟩
    · simp [listInsertHead, setBackOf, Memory.getLink_eq, Memory.setLink_eq, Memory.setBack_eq, hx, hy, hlink]
    · apply @Shape.insert _ _ _ m _ q h [] (y :: ys) x _ hm hq hfree <;>
        simp +contextual [hx, hyx, eq_comm]

theorem tailqInsertHead_spec (hm : Tailed m q) (hx : (m.data x).isSome = true) (hfree : ∀ h', x ∉ q h') (h : β) :
    ∃ m', tailqInsertHead m h x = some m' ∧ m'.data = m.data ∧ Tailed m' (Function.update q h (x :: q h)) := by
  have hlink : m.link (.head h) = (q h).head? := (show Listed m h ([] ++ q h) from (hm.listed h)).link
  have hxy : ∀ y ∈ q h, y ≠ x := by
    rintro y hy rfl
    exact hfree h hy
  cases hq : q h with
  | nil =>
    rw [hq] at hlink
    refine ⟨(((m.putLink (.entry x) none).putBack (.head h) (.entry x)).putLink (.head h) (some x)).putBack (.entry x)
      (.head h), ?_, rfl, ?_, ?_⟩
    · simp [tailqInsertHead, setBackOrLast, Memory.getLink_eq, Memory.setLink_eq, Memory.setBack_eq, hx, hlink]
    · apply @Shape.insert _ _ _ m _ q h [] [] x _ hm.toShape hq hfree <;> simp +contextual [hx]
    · intro h'
      rcases eq_or_ne h' h with rfl | hne
      · simp
      · simp [hne, hm.last h']
  | cons y ys =>
    rw [hq] at hlink hxy
    have hy : (m.data y).isSome = true := (hm.listed h).seg.held y (by simp [hq])
    have hyx : x ≠ y := (hxy y (List.mem_cons_self ..)).symm
    have hlast := hm.last h
    rw [hq] at hlast
    refine ⟨(((m.putLink (.entry x) (some y)).putBack (.entry y) (.entry x)).putLink (.head h) (some x)).putBack (.entry x)
      (.head h), ?_, rfl, ?_, ?_⟩
    · simp [tailqInsertHead, setBackOrLast, Memory.getLink_eq, Memory.setLink_eq, Memory.setBack_eq, hx, hy, hlink]
    · apply @Shape.insert _ _ _ m _ q h [] (y :: ys) x _ hm.toShape hq hfree <;>
        simp +contextual [hx, hyx, eq_comm]
    · intro h'
      rcases eq_or_ne h' h with rfl | hne
      · simpa using hlast
      · simp [hne, hm.last h']

theorem tailqInsertTail_spec (hm : Tailed m q) (hx : (m.data x).isSome = true) (hfree : ∀ h', x ∉ q h') (h : β) :
    ∃ m', tailqInsertTail m h x = some m' ∧ m'.data = m.data ∧ Tailed m' (Function.update q h (q h ++ [x])) := by
  have hlast := hm.last h
  have hheld : m.held (tail (.head h) (q h)) = true := (hm.listed h).held _ (tail_mem_slots ..)
  have hne : (tail (.head h) (q h)) ≠ .entry x := by
    intro heq
    rcases mem_slots.1 (tail_mem_slots (.head h) (q h)) with htail | ⟨y, hy, htail⟩
    · cases heq.symm.trans htail
    · cases heq.symm.trans htail
      exact hfree h hy
  refine ⟨(((m.putLink (.entry x) none).putBack (.entry x) (tail (.head h) (q h))).putLink (tail (.head h) (q h))
    (some x)).putBack (.head h) (.entry x), ?_, rfl, ?_, ?_⟩
  · simp [tailqInsertTail, Memory.getBack_eq, Memory.setLink_eq, Memory.setBack_eq, hx, hlast, hheld]
  · have hq : q h = q h ++ [] := (List.append_nil _).symm
    apply @Shape.insert _ _ _ m _ q h (q h) [] x _ hm.toShape hq hfree <;> simp +contextual [hx, hne.symm]
  · intro h'
    rcases eq_or_ne h' h with rfl | hne
    · simp
    · simp [hne, hm.last h']

/-- The removed element keeps its own pointer to the one that was behind it. -/
theorem listRemove_spec (hm : Shape m q) {as bs : List α} (hq : q h = as ++ x :: bs) :
    ∃ m', listRemove m x = some m' ∧ m'.data = m.data ∧ m'.link (.entry x) = m.link (.entry x) ∧
      Shape m' (Function.update q h (as ++ bs)) := by
  have hlist : Listed m h (as ++ x :: bs) := hq ▸ hm.listed h
  have hx : (m.data x).isSome = true := hlist.seg.held x (by simp)
  have hnext := hlist.next
  have hprev := hlist.prev
  have hheld : m.held (tail (.head h) as) = true := hlist.held _ hlist.tail_front.1
  have hne : Slot.entry x ≠ tail (.head h) as := (hlist.tail_front.2 x (List.mem_cons_self ..)).symm
  cases bs with
  | nil =>
    refine ⟨m.putLink (tail (.head h) as) none, ?_, rfl, by simp [hne], ?_⟩
    · simp [listRemove, setBackOf, Memory.getLink_eq, Memory.getBack_eq, Memory.setLink_eq, hx, hnext, hprev, hheld]
    · apply @Shape.remove _ _ _ m _ q h as [] x _ hm hq <;> simp +contextual
  | cons y ys =>
    have hy : (m.data y).isSome = true := hlist.seg.held y (by simp)
    have hyx : x ≠ y := by
      rintro rfl
      have hnodup := (List.nodup_append.1 hlist.nodup).2.1
      simp at hnodup
    refine ⟨(m.putBack (.entry y) (tail (.head h) as)).putLink (tail (.head h) as) (some y), ?_, rfl, by simp [hne], ?_⟩
    · simp [listRemove, setBackOf, Memory.getLink_eq, Memory.getBack_eq, Memory.setLink_eq, Memory.setBack_eq, hx, hy,
        hnext, hprev, hheld, hyx]
    · apply @Shape.remove _ _ _ m _ q h as (y :: ys) x _ hm hq <;> simp +contextual [eq_comm]

theorem tailqRemove_spec (hm : Tailed m q) {as bs : List α} (hq : q h = as ++ x :: bs) :
    ∃ m', tailqRemove m h x = some m' ∧ m'.data = m.data ∧ Tailed m' (Function.update q h (as ++ bs)) := by
  have hlist : Listed m h (as ++ x :: bs) := hq ▸ hm.listed h
  have hx : (m.data x).isSome = true := hlist.seg.held x (by simp)
  have hnext := hlist.next
  have hprev := hlist.prev
  have hheld : m.held (tail (.head h) as) = true := hlist.held _ hlist.tail_front.1
  have hlast := hm.last h
  rw [hq, tail_append, tail_cons] at hlast
  cases bs with
  | nil =>
    refine ⟨(m.putBack (.head h) (tail (.head h) as)).putLink (tail (.head h) as) none, ?_, rfl, ?_, ?_⟩
    · simp [tailqRemove, setBackOrLast, Memory.getLink_eq, Memory.getBack_eq, Memory.setLink_eq, Memory.setBack_eq, hx,
        hnext, hprev, hheld]
    · apply @Shape.remove _ _ _ m _ q h as [] x _ hm.toShape hq <;> simp +contextual
    · intro h'
      rcases eq_or_ne h' h with rfl | hne
      · simp
      · simp [hne, hm.last h']
  | cons y ys =>
    have hy : (m.data y).isSome = true := hlist.seg.held y (by simp)
    have hyx : x ≠ y := by
      rintro rfl
      have hnodup := (List.nodup_append.1 hlist.nodup).2.1
      simp at hnodup
    refine ⟨(m.putBack (.entry y) (tail (.head h) as)).putLink (tail (.head h) as) (some y), ?_, rfl, ?_, ?_⟩
    · simp [tailqRemove, setBackOrLast, Memory.getLink_eq, Memory.getBack_eq, Memory.setLink_eq, Memory.setBack_eq, hx, hy,
        hnext, hprev, hheld, hyx]
    · apply @Shape.remove _ _ _ m _ q h as (y :: ys) x _ hm.toShape hq <;> simp +contextual [eq_comm]
    · intro h'
      rcases eq_or_ne h' h with rfl | hne
      · simpa using hlast
      · simp [hne, hm.last h']

/-- Initialised heads are the heads of empty lists. -/
theorem tailqInit_all {hs : List β} (hall : ∀ h, h ∈ hs) (m : Memory β α δ) :
    ∃ m', hs.foldlM tailqInit m = some m' ∧ m'.data = m.data ∧ Tailed m' (fun _ => []) := by
  have hinit : ∀ (hs : List β) (m : Memory β α δ), ∃ m', hs.foldlM tailqInit m = some m' ∧ m'.data = m.data ∧
      ∀ h, (h ∈ hs ∨ m.link (.head h) = none ∧ m.back (.head h) = .head h) →
        m'.link (.head h) = none ∧ m'.back (.head h) = .head h := by
    intro hs
    induction hs with
    | nil =>
      intro m
      refine ⟨m, rfl, rfl, fun h hh => ?_⟩
      rcases hh with hh | hh
      · cases hh
      · exact hh
    | cons h hs ih =>
      intro m
      obtain ⟨m', he, hdata, hempty⟩ := ih ((m.putLink (.head h) none).putBack (.head h) (.head h))
      refine ⟨m', ?_, hdata, fun h' hh => hempty h' ?_⟩
      · rw [List.foldlM_cons]
        simpa [tailqInit, Memory.setLink_eq, Memory.setBack_eq] using he
      · rcases eq_or_ne h' h with rfl | hne
        · simp
        · simpa [hne] using hh
  obtain ⟨m', he, hdata, hempty⟩ := hinit hs m
  refine ⟨m', he, hdata, ⟨fun h => ?_, ?_⟩, fun h => (hempty h (Or.inl (hall h))).2⟩
  · exact ⟨trivial, (hempty h (Or.inl (hall h))).1, List.nodup_nil⟩
  · intro _ _ _ _ hx
    cases hx

end Writing

/-! ## Loops -/

section Loops

variable {β α δ γ ρ : Type}

/-- `LIST_FOREACH` and `TAILQ_FOREACH` from `x` on, at most `n` rounds, with a body that leaves the pointers
alone: it goes on with some state or leaves the loop. -/
def forEach (m : Memory β α δ) (body : γ → α → Option (Except ρ γ)) : (n : Nat) → (x : Option α) → γ → Option (Except ρ γ)
  | _, none, state => some (.ok state)
  | 0, some _, _ => none
  | n + 1, some x, state => do
    match ← body state x with
    | .error result => return .error result
    | .ok state => forEach m body n (← m.getLink (.entry x)) state

/-- `LIST_FOREACH_SAFE` and `TAILQ_FOREACH_SAFE`: the next element is read before the body is run. -/
def forEachSafe (body : γ → Memory β α δ → α → Option (γ × Memory β α δ)) :
    (n : Nat) → (x : Option α) → γ → Memory β α δ → Option (γ × Memory β α δ)
  | _, none, state, m => some (state, m)
  | 0, some _, _, _ => none
  | n + 1, some x, state, m => do
    let next ← m.getLink (.entry x)
    let (state, m) ← body state m x
    forEachSafe body n next state m

/-- A loop from any place of a list runs over what is behind it. -/
theorem forEach_eq {m : Memory β α δ} {h : β} {body : γ → α → Option (Except ρ γ)} {pure : γ → α → Except ρ γ} :
    ∀ {as bs : List α}, Listed m h (as ++ bs) → (∀ state, ∀ x ∈ bs, body state x = some (pure state x)) → ∀ {n : Nat},
      bs.length ≤ n → ∀ state, forEach m body n bs.head? state = some (bs.foldlM pure state)
  | as, [], _, _, n, _, state => by cases n <;> rfl
  | as, x :: bs, hm, hbody, 0, hn, state => by simp at hn
  | as, x :: bs, hm, hbody, n + 1, hn, state => by
    have hx : m.held (.entry x) = true := hm.seg.held x (by simp)
    have hrest : Listed m h ((as ++ [x]) ++ bs) := by simpa using hm
    rw [List.head?_cons, forEach, hbody state x (List.mem_cons_self ..), List.foldlM_cons]
    cases hpure : pure state x with
    | error result => rfl
    | ok state' =>
      rw [Memory.getLink_eq hx, hm.next]
      exact forEach_eq hrest (fun state y hy => hbody state y (List.mem_cons_of_mem _ hy)) (by simpa using hn) state'

/-- An invariant of the elements to come: before each round the pointer of the first leads to the second. -/
theorem forEachSafe_rule {body : γ → Memory β α δ → α → Option (γ × Memory β α δ)}
    {I : List α → γ → Memory β α δ → Prop} (hstep : ∀ x xs state m, I (x :: xs) state m →
      m.getLink (.entry x) = some xs.head? ∧ ∃ state' m', body state m x = some (state', m') ∧ I xs state' m') :
    ∀ {xs : List α} {n : Nat} {state : γ} {m : Memory β α δ}, I xs state m → xs.length ≤ n →
      ∃ state' m', forEachSafe body n xs.head? state m = some (state', m') ∧ I [] state' m'
  | [], n, state, m, hI, _ => by
    refine ⟨state, m, ?_, hI⟩
    cases n <;> rfl
  | x :: xs, 0, state, m, _, hn => by simp at hn
  | x :: xs, n + 1, state, m, hI, hn => by
    obtain ⟨hnext, state', m', hbody, hI'⟩ := hstep x xs state m hI
    obtain ⟨state'', m'', hloop, hI''⟩ := forEachSafe_rule hstep hI' (show xs.length ≤ n by simpa using hn)
    refine ⟨state'', m'', ?_, hI''⟩
    rw [List.head?_cons, forEachSafe, hnext]
    simp only [Option.bind_eq_bind, Option.bind_some, hbody]
    exact hloop

/-- A body that never leaves the loop. -/
theorem foldlM_ok (f : γ → α → γ) (xs : List α) (state : γ) :
    xs.foldlM (fun state x => (.ok (f state x) : Except ρ γ)) state = .ok (xs.foldl f state) := List.foldlM_pure

def collect (xs : List α) (x : α) : Except Empty (List α) := .ok (xs ++ [x])

/-- The elements in the order in which a loop meets them. -/
def elements (m : Memory β α δ) (n : Nat) (h : β) : Option (List α) := do
  match ← forEach m (fun xs x => some (collect xs x)) n (← m.getLink (.head h)) [] with
  | .ok xs => some xs
  | .error result => result.elim

theorem elements_eq {m : Memory β α δ} {q : β → List α} (hm : Shape m q) (h : β) {n : Nat} (hn : (q h).length ≤ n) :
    elements m n h = some (q h) := by
  have hcollect : (q h).foldlM collect [] = .ok (q h) := by
    have hfold : ∀ xs ys : List α, ys.foldl (fun xs x => xs ++ [x]) xs = xs ++ ys := by
      intro xs ys
      induction ys generalizing xs with
      | nil => simp
      | cons y ys ih => simp [ih]
    exact (foldlM_ok _ _ _).trans (congrArg Except.ok (hfold [] (q h)))
  have hloop : forEach m (fun xs x => some (collect xs x)) n (q h).head? [] = some (.ok (q h)) := by
    have hlist : Listed m h ([] ++ q h) := hm.listed h
    rw [forEach_eq hlist (fun _ _ _ => rfl) hn, hcollect]
  have hfirst : m.getLink (.head h) = some (q h).head? := listFirst_eq hm h
  unfold elements
  simp only [hfirst, hloop, Option.bind_eq_bind, Option.bind_some]

end Loops

/-! ## Runs -/

section Runs

variable {β α δ : Type} [DecidableEq β] [DecidableEq α]

/-- What is done with the elements of the tail queues in a memory. -/
inductive QueueOp (β α δ : Type) where
  /-- `x` is what `malloc` returns. -/
  | new (x : α) (d : δ)
  | delete (x : α)
  | insertHead (h : β) (x : α)
  | insertTail (h : β) (x : α)
  | remove (h : β) (x : α)

def QueueOp.exec (m : Memory β α δ) : QueueOp β α δ → Option (Memory β α δ)
  | .new x d => some (m.alloc x d)
  | .delete x => m.free x
  | .insertHead h x => tailqInsertHead m h x
  | .insertTail h x => tailqInsertTail m h x
  | .remove h x => tailqRemove m h x

/-- What the queues stand for: lists of elements, and the elements there are. -/
structure Queues (β α δ : Type) where
  lists : β → List α
  data : α → Option δ

/-- How the queues are to be used: an element is inserted while it is in no list, removed from the list it is
in, and freed outside of the lists. -/
def QueueOp.Allowed (c : Queues β α δ) : QueueOp β α δ → Prop
  | .new x _ => c.data x = none
  | .delete x => (c.data x).isSome = true ∧ ∀ h, x ∉ c.lists h
  | .insertHead _ x | .insertTail _ x => (c.data x).isSome = true ∧ ∀ h, x ∉ c.lists h
  | .remove h x => x ∈ c.lists h

def QueueOp.apply (c : Queues β α δ) : QueueOp β α δ → Queues β α δ
  | .new x d => { c with data := Function.update c.data x (some d) }
  | .delete x => { c with data := Function.update c.data x none }
  | .insertHead h x => { c with lists := Function.update c.lists h (x :: c.lists h) }
  | .insertTail h x => { c with lists := Function.update c.lists h (c.lists h ++ [x]) }
  | .remove h x => { c with lists := Function.update c.lists h ((c.lists h).erase x) }

/-- The memory holds the queues. -/
structure Queues.Held (c : Queues β α δ) (m : Memory β α δ) : Prop where
  tailed : Tailed m c.lists
  data : m.data = c.data

theorem Queues.Held.step {c : Queues β α δ} {m : Memory β α δ} (hc : c.Held m) {op : QueueOp β α δ} (hop : op.Allowed c) :
    ∃ m', op.exec m = some m' ∧ (op.apply c).Held m' := by
  obtain ⟨hm, hdata⟩ := hc
  -- an entry of a list has not been freed
  have hlive : ∀ h, ∀ y ∈ c.lists h, (c.data y).isSome = true := by
    rw [← hdata]
    exact fun h y hy => (hm.listed h).seg.held y hy
  cases op with
  | new x d =>
    have hnew : c.data x = none := hop
    have hdata' : (m.alloc x d).data = Function.update c.data x (some d) := by
      rw [← hdata]
      rfl
    refine ⟨m.alloc x d, rfl, hm.data rfl rfl fun h y hy => ?_, hdata'⟩
    have hne : y ≠ x := by
      rintro rfl
      have hy' := hlive h y hy
      rw [hnew] at hy'
      cases hy'
    exact Function.update_of_ne hne ..
  | delete x =>
    obtain ⟨hx, hfree⟩ := hop
    obtain ⟨m', he, hlink, hback, hdata'⟩ := Memory.free_spec (show (m.data x).isSome = true by rwa [hdata])
    refine ⟨m', he, hm.data hlink hback fun h y hy => ?_, by rw [hdata', hdata]; rfl⟩
    have hne : y ≠ x := by
      rintro rfl
      exact hfree h hy
    rw [hdata', Function.update_of_ne hne]
  | insertHead h x =>
    obtain ⟨m', he, hdata', hm'⟩ := tailqInsertHead_spec hm (hdata ▸ hop.1) hop.2 h
    exact ⟨m', he, hm', hdata'.trans hdata⟩
  | insertTail h x =>
    obtain ⟨m', he, hdata', hm'⟩ := tailqInsertTail_spec hm (hdata ▸ hop.1) hop.2 h
    exact ⟨m', he, hm', hdata'.trans hdata⟩
  | remove h x =>
    obtain ⟨as, bs, hq⟩ := List.append_of_mem (show x ∈ c.lists h from hop)
    obtain ⟨m', he, hdata', hm'⟩ := tailqRemove_spec hm hq
    have hx : x ∉ as := by
      have hnodup := (hm.listed h).nodup
      rw [hq, List.nodup_append] at hnodup
      exact fun hx => hnodup.2.2 x hx x (List.mem_cons_self ..) rfl
    have herase : (c.lists h).erase x = as ++ bs := by
      rw [hq, List.erase_append_right _ hx, List.erase_cons_head]
    refine ⟨m', he, ?_, hdata'.trans hdata⟩
    show Tailed m' (Function.update c.lists h ((c.lists h).erase x))
    rw [herase]
    exact hm'

/-- Each operation of a run is allowed where it is done. -/
def AllowedAll : Queues β α δ → List (QueueOp β α δ) → Prop
  | _, [] => True
  | c, op :: ops => op.Allowed c ∧ AllowedAll (op.apply c) ops

theorem Queues.Held.run {ops : List (QueueOp β α δ)} : ∀ {c : Queues β α δ} {m : Memory β α δ}, c.Held m → AllowedAll c ops →
    ∃ m', ops.foldlM QueueOp.exec m = some m' ∧ (ops.foldl QueueOp.apply c).Held m' := by
  induction ops with
  | nil =>
    intro c m hc _
    exact ⟨m, rfl, hc⟩
  | cons op ops ih =>
    rintro c m hc ⟨hop, hops⟩
    obtain ⟨m₁, he, hc₁⟩ := hc.step hop
    obtain ⟨m₂, hrun, hc₂⟩ := ih hc₁ hops
    refine ⟨m₂, ?_, hc₂⟩
    rw [List.foldlM_cons, he]
    exact hrun

/-- In every allowed run over any number of queues in one memory, no operation touches memory that is not
there, and behind it each queue is read as the list it stands for: whether it is empty, its first and its last
element, the one behind each, and all of them by a loop. -/
theorem tailq_run {hs : List β} (hall : ∀ h, h ∈ hs) (m : Memory β α δ) {ops : List (QueueOp β α δ)}
    (hops : AllowedAll ⟨fun _ => [], m.data⟩ ops) :
    ∃ m', (do ops.foldlM QueueOp.exec (← hs.foldlM tailqInit m)) = some m' ∧
      let c := ops.foldl QueueOp.apply ⟨fun _ => [], m.data⟩
      m'.data = c.data ∧ ∀ h, tailqEmpty m' h = some (c.lists h).isEmpty ∧ tailqFirst m' h = some (c.lists h).head? ∧
        tailqLast m' h = some (c.lists h).getLast? ∧ (∀ n, (c.lists h).length ≤ n → elements m' n h = some (c.lists h)) ∧
        ∀ as x bs, c.lists h = as ++ x :: bs → tailqNext m' x = some bs.head? := by
  obtain ⟨m₀, hinit, hdata, hm₀⟩ := tailqInit_all hall m
  obtain ⟨m', hrun, hc⟩ := (show Queues.Held ⟨fun _ => [], m.data⟩ m₀ from ⟨hm₀, hdata⟩).run hops
  refine ⟨m', ?_, hc.data, fun h => ⟨?_, ?_, ?_, ?_, ?_⟩⟩
  · rw [hinit]
    exact hrun
  · exact tailqEmpty_eq hc.tailed.toShape h
  · exact tailqFirst_eq hc.tailed.toShape h
  · exact tailqLast_eq hc.tailed h
  · exact fun n hn => elements_eq hc.tailed.toShape h hn
  · exact fun as x bs hq => tailqNext_eq hc.tailed.toShape hq

/-- The second element is put before the first one, which then goes to the other queue. -/
theorem tailq_run_two : ∃ m', (do
      [QueueOp.new 0 'a', .new 1 'b', .insertTail false 0, .insertHead false 1, .remove false 0, .insertTail true 0].foldlM
        QueueOp.exec (← [false, true].foldlM tailqInit (⟨fun _ => none, id, fun _ => none⟩ : Memory Bool Nat Char))) =
        some m' ∧ tailqLast m' false = some (some 1) ∧ elements m' 1 true = some [0] := by
  have hall : ∀ h : Bool, h ∈ [false, true] := by decide
  have hops : AllowedAll ⟨fun _ : Bool => [], fun _ => none⟩ [QueueOp.new 0 'a', .new 1 'b', .insertTail false 0,
      .insertHead false 1, .remove false 0, .insertTail true 0] := by
    simp [AllowedAll, QueueOp.Allowed, QueueOp.apply, Function.update]
  obtain ⟨m', he, -, h⟩ := tailq_run hall ⟨fun _ => none, id, fun _ => none⟩ hops
  exact ⟨m', he, (h false).2.2.1, (h true).2.2.2.1 1 (by decide)⟩

end Runs

end CMx
