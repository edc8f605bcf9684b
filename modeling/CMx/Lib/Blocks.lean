/-
A stream that is absorbed by blocks of a fixed size, for any alphabet and any compression of a state and a
block: what a hash keeps is the state behind the whole blocks and the symbols behind the last of them. Both
depend on the stream only, and both are computed from what was kept and the symbols that are new.
-/
import CMx.Lib.Framing

namespace Blocks

open Framing

variable {α σ : Type} {n : Nat}

/-! ## Whole blocks -/

/-- The first `n` symbols. -/
def front (xs : List α) (h : n ≤ xs.length) : Vector α n := ⟨(xs.take n).toArray, by simp [h]⟩

@[simp] theorem toList_front (xs : List α) (h : n ≤ xs.length) : (front xs h).toList = xs.take n := by
  simp [front, Vector.toList]

/-- A block is a frame of `n` symbols. -/
def block (n : Nat) : Parser α (Vector α n) := fun xs =>
  if h : n ≤ xs.length then .frame (front xs h) n else .more

theorem block_frame {xs : List α} (h : n ≤ xs.length) : block n xs = .frame (front xs h) n := dif_pos h

theorem block_more {xs : List α} (h : xs.length < n) : block n xs = .more := dif_neg (by omega)

theorem front_append {xs : List α} (ys : List α) (h : n ≤ xs.length) (h' : n ≤ (xs ++ ys).length) :
    front (xs ++ ys) h' = front xs h := by
  apply Vector.toList_inj.1
  rw [toList_front, toList_front, List.take_append_of_le_length h]

theorem stable_block (hn : 0 < n) : (block (α := α) n).Stable where
  nil := block_more hn
  pos := by
    intro xs b m h
    unfold block at h
    split at h <;> cases h
    exact hn
  le := by
    intro xs b m h
    unfold block at h
    split at h <;> cases h
    assumption
  frame_append := by
    intro xs b m ys h
    unfold block at h
    split at h <;> cases h
    rename_i hle
    have hle' : n ≤ (xs ++ ys).length := by
      rw [List.length_append]
      omega
    rw [block_frame hle', front_append ys hle]
  bad_append := by
    intro xs ys h
    unfold block at h
    split at h <;> cases h

/-- There is no stream that cannot be cut. -/
theorem drain_clean (hn : 0 < n) (xs : List α) : (drain (block n) xs).bad = false := by
  induction xs using drain_induction (stable_block hn) with
  | more xs h => rw [drain_more h]
  | bad xs h =>
    unfold block at h
    split at h <;> cases h
  | frame xs b m h ih =>
    rw [drain_frame (stable_block hn) h]
    exact ih

/-! ## What is kept -/

/-- The symbols behind the last whole block. -/
def rest (n : Nat) (xs : List α) : List α := (drain (block n) xs).rest

/-- The state behind the whole blocks. -/
def absorb (compress : σ → Vector α n → σ) (s : σ) (xs : List α) : σ := (drain (block n) xs).frames.foldl compress s

section Kept

variable {compress : σ → Vector α n → σ} {s : σ}

theorem rest_short {xs : List α} (h : xs.length < n) : rest n xs = xs := by
  rw [rest, drain_more (block_more h)]

theorem absorb_short {xs : List α} (h : xs.length < n) : absorb compress s xs = s := by
  rw [absorb, drain_more (block_more h)]
  rfl

variable (hn : 0 < n)
include hn

theorem rest_front {xs : List α} (h : n ≤ xs.length) : rest n xs = rest n (xs.drop n) := by
  rw [rest, drain_frame (stable_block hn) (block_frame h)]
  rfl

theorem absorb_front {xs : List α} (h : n ≤ xs.length) :
    absorb compress s xs = absorb compress (compress s (front xs h)) (xs.drop n) := by
  rw [absorb, drain_frame (stable_block hn) (block_frame h)]
  rfl

theorem rest_append (xs ys : List α) : rest n (xs ++ ys) = rest n (rest n xs ++ ys) := by
  rw [rest, drain_append (stable_block hn) ys xs (drain_clean hn xs)]
  rfl

theorem absorb_append (xs ys : List α) :
    absorb compress s (xs ++ ys) = absorb compress (absorb compress s xs) (rest n xs ++ ys) := by
  rw [absorb, drain_append (stable_block hn) ys xs (drain_clean hn xs), List.foldl_append]
  rfl

theorem length_rest (xs : List α) : (rest n xs).length = xs.length % n := by
  induction hlen : xs.length using Nat.strong_induction_on generalizing xs with
  | _ len ih =>
    subst hlen
    by_cases h : n ≤ xs.length
    · rw [rest_front hn h, ih _ (by rw [List.length_drop]; omega) (xs.drop n) rfl, List.length_drop]
      exact (Nat.mod_eq_sub_mod h).symm
    · rw [rest_short (by omega), Nat.mod_eq_of_lt (by omega)]

/-- New symbols that are enough for a whole block: those that it takes fill it up. -/
theorem toList_fill {xs ys : List α} (h : n ≤ (rest n xs ++ ys).length) :
    (front (rest n xs ++ ys) h).toList = rest n xs ++ ys.take (n - xs.length % n) := by
  have hrest := length_rest hn xs
  have hlt := Nat.mod_lt xs.length hn
  rw [toList_front, List.take_append, List.take_of_length_le (by omega), hrest]

theorem drop_fill (xs ys : List α) : (rest n xs ++ ys).drop n = ys.drop (n - xs.length % n) := by
  have hrest := length_rest hn xs
  have hlt := Nat.mod_lt xs.length hn
  rw [List.drop_append, List.drop_eq_nil_of_le (by omega), hrest, List.nil_append]

theorem absorb_fill {xs ys : List α} (h : n ≤ (rest n xs ++ ys).length) :
    absorb compress s (xs ++ ys) =
      absorb compress (compress (absorb compress s xs) (front (rest n xs ++ ys) h)) (ys.drop (n - xs.length % n)) := by
  rw [absorb_append hn, absorb_front hn h, drop_fill hn]

theorem rest_fill {xs ys : List α} (h : n ≤ (rest n xs ++ ys).length) :
    rest n (xs ++ ys) = rest n (ys.drop (n - xs.length % n)) := by
  rw [rest_append hn, rest_front hn h, drop_fill hn]

end Kept

end Blocks
