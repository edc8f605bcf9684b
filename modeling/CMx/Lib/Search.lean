/-
Searching a text from its front: the first place where a pattern occurs, as the rest of the text
from there on, the parts between all such places, and those that a scan for a stop finds. What a
search has found is about the front of the text, and stays where it is when more text arrives behind it.
-/
import Mathlib.Data.List.TakeWhile
import Mathlib.Tactic

namespace Search

variable {α : Type}

/-! ## The first occurrence of a pattern -/

section Find

variable [DecidableEq α]

/-- The text from the first occurrence of the pattern on. -/
def find (pattern : List α) : List α → Option (List α)
  | [] => if pattern = [] then some [] else none
  | x :: xs => if pattern.isPrefixOf (x :: xs) then some (x :: xs) else find pattern xs

variable {pattern : List α}

theorem find_here {xs : List α} (h : pattern <+: xs) : find pattern xs = some xs := by
  cases xs with
  | nil => simp [find, List.prefix_nil.1 h]
  | cons x xs => simp [find, List.isPrefixOf_iff_prefix.2 h]

theorem find_later {x : α} {xs : List α} (h : ¬ pattern <+: x :: xs) :
    find pattern (x :: xs) = find pattern xs := by
  rw [find, if_neg (by rwa [List.isPrefixOf_iff_prefix])]

/-- What is found is an end of the text and starts with the pattern. -/
theorem find_spec : ∀ {xs ys : List α}, find pattern xs = some ys → pattern <+: ys ∧ ys <:+ xs
  | [], ys, h => by
    unfold find at h
    split at h
    · rename_i hnil
      cases h
      simp [hnil]
    · cases h
  | x :: xs, ys, h => by
    by_cases hx : pattern <+: x :: xs
    · rw [find_here hx] at h
      cases h
      exact ⟨hx, List.suffix_refl _⟩
    · rw [find_later hx] at h
      obtain ⟨hp, hs⟩ := find_spec h
      exact ⟨hp, hs.trans (List.suffix_cons ..)⟩

/-- A pattern is found if and only if it occurs. -/
theorem find_isSome_iff : ∀ {xs : List α}, (find pattern xs).isSome = true ↔ pattern <:+: xs
  | [] => by
    unfold find
    split <;> rename_i h <;> simp [h]
  | x :: xs => by
    by_cases hx : pattern <+: x :: xs
    · rw [find_here hx]
      simp [hx.isInfix]
    · rw [find_later hx, find_isSome_iff, List.infix_cons_iff]
      simp [hx]

theorem find_eq_none_iff {xs : List α} : find pattern xs = none ↔ ¬ pattern <:+: xs := by
  rw [← find_isSome_iff]
  cases find pattern xs <;> simp

/-- More text behind does not move the first occurrence. -/
theorem find_append : ∀ {xs ys : List α} (zs : List α), find pattern xs = some ys →
    find pattern (xs ++ zs) = some (ys ++ zs)
  | [], ys, zs, h => by
    obtain ⟨hp, hs⟩ := find_spec h
    obtain rfl := List.suffix_nil.1 hs
    exact find_here (hp.trans (List.prefix_append _ _))
  | x :: xs, ys, zs, h => by
    by_cases hx : pattern <+: x :: xs
    · rw [find_here hx] at h
      cases h
      exact find_here (hx.trans (List.prefix_append _ _))
    · rw [find_later hx] at h
      have hlen : pattern.length ≤ (x :: xs).length := by
        obtain ⟨hp, hs⟩ := find_spec h
        have hle := hp.length_le
        have hle' := hs.length_le
        rw [List.length_cons]
        omega
      have hx' : ¬ pattern <+: x :: xs ++ zs := fun hp =>
        hx (List.prefix_of_prefix_length_le hp (List.prefix_append _ _) hlen)
      rw [List.cons_append] at hx' ⊢
      rw [find_later hx', find_append zs h]

/-- Text in front in which the pattern cannot start is passed over. -/
theorem find_skip {c : α} {cs : List α} : ∀ {front : List α} (xs : List α), c ∉ front →
    find (c :: cs) (front ++ xs) = find (c :: cs) xs
  | [], xs, _ => rfl
  | x :: front, xs, h => by
    rw [List.mem_cons, not_or] at h
    have hx : ¬ (c :: cs) <+: x :: (front ++ xs) := fun hp => h.1 (List.cons_prefix_cons.1 hp).1
    rw [List.cons_append, find_later hx, find_skip xs h.2]

end Find

/-! ## The parts between the occurrences of a pattern -/

section Parts

variable [DecidableEq α]

/-- The parts of a text between the occurrences of a pattern, at most `rounds` of them. -/
def partsLoop (pattern : List α) : (rounds : Nat) → List α → List (List α)
  | 0, xs => [xs]
  | rounds + 1, xs =>
    match find pattern xs with
    | none => [xs]
    | some ys => xs.take (xs.length - ys.length) :: partsLoop pattern rounds (ys.drop pattern.length)

/-- Every round takes an occurrence off the text, so its length bounds the rounds. -/
def parts (pattern xs : List α) : List (List α) := partsLoop pattern xs.length xs

variable {pattern : List α}

theorem partsLoop_eq (hp : pattern ≠ []) : ∀ {rounds rounds' : Nat} {xs : List α}, xs.length ≤ rounds →
    xs.length ≤ rounds' → partsLoop pattern rounds xs = partsLoop pattern rounds' xs
  | 0, 0, xs, _, _ => rfl
  | 0, rounds' + 1, xs, h, _ => by
    obtain rfl := List.eq_nil_of_length_eq_zero (Nat.le_zero.1 h)
    simp [partsLoop, find, hp]
  | rounds + 1, 0, xs, _, h => by
    obtain rfl := List.eq_nil_of_length_eq_zero (Nat.le_zero.1 h)
    simp [partsLoop, find, hp]
  | rounds + 1, rounds' + 1, xs, h, h' => by
    rw [partsLoop, partsLoop]
    cases hfind : find pattern xs with
    | none => rfl
    | some ys =>
      have hpos := List.length_pos_iff.2 hp
      have hlen := (find_spec hfind).1.length_le
      have hsuffix := (find_spec hfind).2.length_le
      have hdrop : (ys.drop pattern.length).length ≤ rounds ∧ (ys.drop pattern.length).length ≤ rounds' := by
        rw [List.length_drop]
        omega
      exact congrArg _ (partsLoop_eq hp hdrop.1 hdrop.2)

/-- The first part ends where the pattern is found, and the others are those of the text behind it. -/
theorem parts_of_find (hp : pattern ≠ []) {xs ys : List α} (h : find pattern xs = some ys) :
    parts pattern xs = xs.take (xs.length - ys.length) :: parts pattern (ys.drop pattern.length) := by
  have hpos := List.length_pos_iff.2 hp
  have hlen := (find_spec h).1.length_le
  have hsuffix := (find_spec h).2.length_le
  rw [parts, parts]
  obtain ⟨n, hn⟩ : ∃ n, xs.length = n + 1 := ⟨xs.length - 1, by omega⟩
  conv_lhs => rw [hn, partsLoop, h]
  simp only
  rw [partsLoop_eq hp (by rw [List.length_drop]; omega) (le_refl _)]

end Parts

/-! ## Scanning for a stop -/

section Scan

variable {p : α → Bool} {xs : List α}

/-- A scan that has come to its stop has seen enough. -/
theorem takeWhile_append_of_stop (h : ∃ x ∈ xs, p x = false) (ys : List α) :
    (xs ++ ys).takeWhile p = xs.takeWhile p := by
  induction xs with
  | nil => simp at h
  | cons x xs ih =>
    cases hx : p x with
    | false => simp [hx]
    | true =>
      obtain ⟨y, hy, hpy⟩ := h
      rw [List.mem_cons] at hy
      rcases hy with rfl | hy
      · rw [hx] at hpy
        cases hpy
      · simp [hx, ih ⟨y, hy, hpy⟩]

theorem dropWhile_append_of_stop (h : ∃ x ∈ xs, p x = false) (ys : List α) :
    (xs ++ ys).dropWhile p = xs.dropWhile p ++ ys := by
  induction xs with
  | nil => simp at h
  | cons x xs ih =>
    cases hx : p x with
    | false => simp [hx]
    | true =>
      obtain ⟨y, hy, hpy⟩ := h
      rw [List.mem_cons] at hy
      rcases hy with rfl | hy
      · rw [hx] at hpy
        cases hpy
      · simp [hx, ih ⟨y, hy, hpy⟩]

/-- The stop is behind what a scan passes over. -/
theorem mem_dropWhile {x : α} (h : x ∈ xs) (hx : p x = false) : x ∈ xs.dropWhile p := by
  have hsplit := List.takeWhile_append_dropWhile (p := p) (l := xs)
  rw [← hsplit, List.mem_append] at h
  rcases h with h | h
  · have hp := List.mem_takeWhile_imp h
    rw [hx] at hp
    cases hp
  · exact h

/-- A text is split in one way at the first place where a character stands. -/
theorem append_cons_inj {c : α} : ∀ {xs ys xs' ys' : List α}, c ∉ xs → c ∉ ys → xs ++ c :: xs' = ys ++ c :: ys' →
    xs = ys ∧ xs' = ys'
  | [], [], _, _, _, _, h => ⟨rfl, (List.cons.inj h).2⟩
  | [], y :: ys, _, _, _, hys, h => absurd (List.mem_cons_self ..) ((List.cons.inj h).1 ▸ hys)
  | x :: xs, [], _, _, hxs, _, h => absurd (List.mem_cons_self ..) ((List.cons.inj h).1 ▸ hxs)
  | x :: xs, y :: ys, _, _, hxs, hys, h => by
    rw [List.mem_cons, not_or] at hxs hys
    obtain ⟨hx, hrest⟩ := List.cons.inj h
    obtain ⟨hfront, hback⟩ := append_cons_inj hxs.2 hys.2 hrest
    exact ⟨by rw [hx, hfront], hback⟩

end Scan

end Search
