/-
What the model uses of `string.c` and of the strings of the C library. A `char*` is the string that it
points to, so moving on within a string takes an end of it, and the difference of two pointers into a
string is that of the lengths of two ends, as a `size_t`.
-/
import CMx.Numbers
import CMx.Lib.Search
import CMx.Mqtt.Body

namespace CMx

open Mqtt (Bytes CString)

/-! ## What is used of the C library -/

/-- `isgraph` in the C locale. -/
def isgraph (ch : UInt8) : Bool := 33 ≤ ch && ch ≤ 126

/-- `tolower` in the C locale. -/
def tolower (ch : UInt8) : UInt8 := if 65 ≤ ch ∧ ch ≤ 90 then ch + 32 else ch

def strstr (str needle : Bytes) : Option Bytes := Search.find needle str

def strchr (str : Bytes) (ch : UInt8) : Option Bytes :=
  match str.dropWhile (· ≠ ch) with
  | [] => none
  | found => some found

/-- Whether `strncasecmp` finds the first `n` characters equal. -/
def strncaseeq (a b : Bytes) (n : Nat) : Bool := (a.take n).map tolower = (b.take n).map tolower

/-- Whether `strncmp` finds the first `n` characters equal. -/
def strneq (a b : Bytes) (n : Nat) : Bool := a.take n = b.take n

def xstrltrim (str : Bytes) : Bytes := str.dropWhile fun ch => !isgraph ch

/-- `xstr_word_len` without space characters given: the word ends with any that is not printable. -/
def xstrWordLen (str : Bytes) : Nat := (str.takeWhile isgraph).length

def xstrSpaceLen (str spaceChars : Bytes) : Nat := (str.takeWhile (spaceChars.contains ·)).length

/-- The bytes of a string literal. -/
def text (s : String) : Bytes := s.toList.map fun ch => UInt8.ofNat ch.toNat

/-- What holds of the bytes of a text is decided along the text, not over all bytes. -/
instance decidableForallMem (p : UInt8 → Prop) [DecidablePred p] (str : Bytes) : Decidable (∀ c ∈ str, p c) :=
  List.decidableBAll p str

/-- A string that with its NUL has room in memory. -/
structure StoredString extends CString where
  small : bytes.length < 2 ^ 64

/-- The pointer `p` less the pointer `start`. -/
def ptrDiff (p start : Bytes) : Nat := sizeT (start.length - p.length)

/-! ## Searching -/

theorem strchr_eq (str : Bytes) (ch : UInt8) :
    strchr str ch = if ch ∈ str then some (str.dropWhile (· ≠ ch)) else none := by
  unfold strchr
  split
  · rename_i hnil
    rw [List.dropWhile_eq_nil_iff] at hnil
    rw [if_neg fun h => by simpa using hnil ch h]
  · rename_i hne
    rw [if_pos]
    by_contra hmem
    exact hne (List.dropWhile_eq_nil_iff.2 fun c hc => decide_eq_true fun he => hmem (he ▸ hc))

theorem strchr_skip {front : Bytes} {ch : UInt8} (xs : Bytes) (h : ch ∉ front) :
    strchr (front ++ xs) ch = strchr xs ch := by
  have hfront : ∀ c ∈ front, decide (c ≠ ch) = true := fun c hc => decide_eq_true fun he => h (he ▸ hc)
  rw [strchr, List.dropWhile_append_of_pos hfront, strchr]

theorem strchr_skip_cons {c ch : UInt8} (xs : Bytes) (h : ch ≠ c) : strchr (c :: xs) ch = strchr xs ch :=
  @strchr_skip [c] ch xs (by simpa using h)

theorem strchr_spec {str found : Bytes} {ch : UInt8} (h : strchr str ch = some found) :
    str.dropWhile (· ≠ ch) = found ∧ found = ch :: found.drop 1 := by
  have hhead := List.head?_dropWhile_not (fun c : UInt8 => decide (c ≠ ch)) str
  unfold strchr at h
  cases hdrop : str.dropWhile (· ≠ ch) with
  | nil => rw [hdrop] at h; cases h
  | cons c rest =>
    rw [hdrop] at h hhead
    cases h
    have hc : c = ch := by simpa using hhead
    exact ⟨rfl, by rw [hc]; rfl⟩

theorem strchr_append {front : Bytes} {ch : UInt8} (h : ch ∉ front) (rest : Bytes) :
    strchr (front ++ ch :: rest) ch = some (ch :: rest) := by
  rw [strchr_skip _ h, strchr, List.dropWhile_cons_of_neg (by simp)]

theorem strchr_eq_none_iff {str : Bytes} {ch : UInt8} : strchr str ch = none ↔ ch ∉ str := by
  rw [strchr_eq]
  split
  · rename_i hmem
    exact ⟨fun h => absurd h (by simp), fun h => absurd hmem h⟩
  · rename_i hmem
    exact ⟨fun _ => hmem, fun _ => rfl⟩

theorem strchr_split {str found : Bytes} {ch : UInt8} (h : strchr str ch = some found) :
    ∃ front rest, str = front ++ ch :: rest ∧ found = ch :: rest ∧ ch ∉ front := by
  obtain ⟨hdrop, hfound⟩ := strchr_spec h
  refine ⟨str.takeWhile (· ≠ ch), found.drop 1, ?_, hfound, ?_⟩
  · rw [← hfound, ← hdrop, List.takeWhile_append_dropWhile]
  · intro hmem
    simpa using List.mem_takeWhile_imp hmem

theorem strchr_append_of_found {str found : Bytes} {ch : UInt8} (xs : Bytes) (h : strchr str ch = some found) :
    strchr (str ++ xs) ch = some (found ++ xs) := by
  obtain ⟨front, rest, rfl, rfl, hfront⟩ := strchr_split h
  rw [List.append_assoc, List.cons_append, strchr_append hfront]

theorem strstr_suffix {str needle found : Bytes} (h : strstr str needle = some found) : found <:+ str :=
  (Search.find_spec h).2

theorem strchr_suffix {str found : Bytes} {ch : UInt8} (h : strchr str ch = some found) : found <:+ str := by
  obtain ⟨front, rest, rfl, rfl, -⟩ := strchr_split h
  exact List.suffix_append ..

/-! ## Pointers -/

theorem ptrDiff_of_le {p start : Bytes} (hle : p.length ≤ start.length) (hsmall : start.length < 2 ^ 64) :
    ptrDiff p start = start.length - p.length := by
  unfold ptrDiff sizeT
  omega

/-- A difference that is negative wraps around. -/
theorem lt_ptrDiff {p start : Bytes} (hlt : start.length < p.length) (hsmall : p.length < 2 ^ 64) :
    start.length < ptrDiff p start := by
  unfold ptrDiff sizeT
  omega

theorem ptrDiff_le {p start : Bytes} (hsuffix : p <:+ start) (hsmall : start.length < 2 ^ 64) :
    ptrDiff p start ≤ start.length := by
  rw [ptrDiff_of_le hsuffix.length_le hsmall]
  exact Nat.sub_le ..

theorem ptrDiff_append {xs ys : Bytes} (hsmall : (xs ++ ys).length < 2 ^ 64) : ptrDiff ys (xs ++ ys) = xs.length := by
  rw [ptrDiff_of_le (List.suffix_append ..).length_le hsmall, List.length_append]
  exact Nat.add_sub_cancel ..

end CMx
