/-
The tokenizer of `string.c`, which is asked for one token after the other, each time with other separators.
-/
import CMx.Strings

namespace CMx

open Mqtt (Bytes CString)

/-! ## The tokenizer -/

/-- `chunk` is the memory of the buffer that all chunks but the last are copied to. -/
structure Xstrtok where
  prevChunk : Option Bytes
  chunk : Option Bytes
  deriving DecidableEq, Repr

def xstrtokNew (original : Bytes) : Xstrtok := ⟨some original, none⟩

/-- The loop of `xstrtok_next` over the separators, with the one in front of all others so far. -/
def findSeparator (prevChunk : Bytes) : (separators : Bytes) → (separator : Option Bytes) → Option Bytes
  | [], separator => separator
  | ch :: separators, separator =>
    match strchr prevChunk ch with
    | none => findSeparator prevChunk separators separator
    | some tmp =>
      match separator with
      | none => findSeparator prevChunk separators (some tmp)
      | some found => findSeparator prevChunk separators (some (if found.length < tmp.length then tmp else found))

/-- The string at the beginning of the memory. -/
def stringAt (memory : Bytes) : Bytes := memory.takeWhile (· ≠ 0)

def xstrtokNext (tkzr : Xstrtok) (separators : Bytes) : Option Bytes × Xstrtok :=
  match tkzr.prevChunk with
  | none => (none, tkzr)
  | some prevChunk =>
    match findSeparator prevChunk separators none with
    | some separator =>
      let chunk := prevChunk.take (ptrDiff separator prevChunk) ++ [0]
      (some (stringAt chunk), ⟨some (separator.drop 1), some chunk⟩)
    | none => (some prevChunk, { tkzr with prevChunk := none })

/-- What the calls return, one after the other. -/
def xstrtokCalls (tkzr : Xstrtok) : List CString → List (Option Bytes)
  | [] => []
  | separators :: sets =>
    (xstrtokNext tkzr separators.bytes).1 :: xstrtokCalls (xstrtokNext tkzr separators.bytes).2 sets

/-! ## One token -/

/-- What the loop finds is one of the separators, if there is any, and none of them is in front of it. -/
theorem findSeparator_spec (str : Bytes) :
    ∀ (separators : Bytes) (separator : Option Bytes),
      (findSeparator str separators separator = none ↔ separator = none ∧ ∀ ch ∈ separators, ch ∉ str) ∧
        ∀ found, findSeparator str separators separator = some found →
          (separator = some found ∨ ∃ ch ∈ separators, strchr str ch = some found) ∧
            (∀ tmp, separator = some tmp → tmp.length ≤ found.length) ∧
            ∀ ch ∈ separators, ∀ tmp, strchr str ch = some tmp → tmp.length ≤ found.length
  | [], separator => by
    rw [findSeparator]
    refine ⟨by simp, ?_⟩
    rintro found rfl
    refine ⟨.inl rfl, ?_, by simp⟩
    rintro tmp htmp
    cases htmp
    exact le_refl _
  | ch :: separators, separator => by
    rw [findSeparator]
    cases hchr : strchr str ch with
    | none =>
      obtain ⟨hnone, hsome⟩ := findSeparator_spec str separators separator
      refine ⟨?_, ?_⟩
      · rw [hnone, List.forall_mem_cons]
        simp [strchr_eq_none_iff.1 hchr]
      · intro found hfound
        obtain ⟨hin, hlong, hall⟩ := hsome found hfound
        refine ⟨hin.imp_right fun ⟨c, hc, h⟩ => ⟨c, List.mem_cons_of_mem _ hc, h⟩, hlong, ?_⟩
        rw [List.forall_mem_cons]
        refine ⟨?_, hall⟩
        intro tmp htmp
        rw [hchr] at htmp
        cases htmp
    | some tmp =>
      have hmem : ch ∈ str := by
        by_contra hnot
        rw [strchr_eq_none_iff.2 hnot] at hchr
        cases hchr
      cases separator with
      | none =>
        obtain ⟨hnone, hsome⟩ := findSeparator_spec str separators (some tmp)
        refine ⟨?_, ?_⟩
        · simp only [hnone]
          simp [hmem]
        · intro found hfound
          obtain ⟨hin, hlong, hall⟩ := hsome found hfound
          refine ⟨.inr ?_, by simp, ?_⟩
          · rcases hin with hin | ⟨c, hc, h⟩
            · exact ⟨ch, List.mem_cons_self .., hchr.trans hin⟩
            · exact ⟨c, List.mem_cons_of_mem _ hc, h⟩
          · rw [List.forall_mem_cons]
            refine ⟨?_, hall⟩
            intro tmp' htmp'
            exact hlong tmp' (hchr.symm.trans htmp')
      | some longest =>
        -- the one of the two with more behind it is in front
        generalize hbest : (if longest.length < tmp.length then tmp else longest) = best
        have hor : best = tmp ∨ best = longest := by rw [← hbest]; split <;> simp
        have hle : tmp.length ≤ best.length ∧ longest.length ≤ best.length := by rw [← hbest]; split <;> omega
        obtain ⟨hnone, hsome⟩ := findSeparator_spec str separators (some best)
        simp only [hbest]
        refine ⟨?_, ?_⟩
        · simp only [hnone]
          simp
        · intro found hfound
          obtain ⟨hin, hlong, hall⟩ := hsome found hfound
          refine ⟨?_, ?_, ?_⟩
          · rcases hin with hin | ⟨c, hc, h⟩
            · cases hin
              rcases hor with rfl | rfl
              · exact .inr ⟨ch, List.mem_cons_self .., hchr⟩
              · exact .inl rfl
            · exact .inr ⟨c, List.mem_cons_of_mem _ hc, h⟩
          · intro tmp' htmp'
            cases htmp'
            exact hle.2.trans (hlong best rfl)
          · rw [List.forall_mem_cons]
            refine ⟨?_, hall⟩
            intro tmp' htmp'
            rw [hchr] at htmp'
            cases htmp'
            exact hle.1.trans (hlong best rfl)

theorem stringAt_append {front : Bytes} (h : 0 ∉ front) (rest : Bytes) : stringAt (front ++ 0 :: rest) = front := by
  have hfront : ∀ c ∈ front, decide (c ≠ 0) = true := fun c hc => decide_eq_true fun he => h (he ▸ hc)
  rw [stringAt, List.takeWhile_append_of_pos hfront, List.takeWhile_cons_of_neg (by simp), List.append_nil]

/-- A call either cuts the text at the first of the separators, or there is none and it returns all of the text. -/
theorem xstrtokNext_spec (tkzr : Xstrtok) {str : Bytes} (hprev : tkzr.prevChunk = some str) (hnul : 0 ∉ str)
    (hsmall : str.length < 2 ^ 64) (separators : Bytes) :
    (∃ token cut rest, str = token ++ cut :: rest ∧ cut ∈ separators ∧ (∀ ch ∈ separators, ch ∉ token) ∧
        xstrtokNext tkzr separators = (some token, ⟨some rest, some (token ++ [0])⟩)) ∨
      ((∀ ch ∈ separators, ch ∉ str) ∧
        xstrtokNext tkzr separators = (some str, { tkzr with prevChunk := none })) := by
  obtain ⟨hnone, hsome⟩ := findSeparator_spec str separators none
  rw [xstrtokNext, hprev]
  cases hfind : findSeparator str separators none with
  | none =>
    right
    exact ⟨(hnone.1 hfind).2, by simp only [hfind]⟩
  | some separator =>
    left
    obtain ⟨hin, -, hall⟩ := hsome separator hfind
    obtain ⟨cut, hcut, hchr⟩ := hin.resolve_left (by simp)
    obtain ⟨token, rest, rfl, rfl, -⟩ := strchr_split hchr
    refine ⟨token, cut, rest, rfl, hcut, ?_, ?_⟩
    · -- another separator in the token would be in front of the one that was found
      intro ch hch hmem
      obtain ⟨found, hfound⟩ := Option.ne_none_iff_exists'.1 (mt strchr_eq_none_iff.1 (not_not.2 hmem))
      have hle := hall ch hch _ (strchr_append_of_found _ hfound)
      obtain ⟨-, rest', -, rfl, -⟩ := strchr_split hfound
      rw [List.length_append, List.length_cons] at hle
      omega
    · have htoken : 0 ∉ token := fun hmem => hnul (List.mem_append_left _ hmem)
      simp only [hfind]
      rw [ptrDiff_append hsmall, List.take_left, stringAt_append htoken]
      rfl

/-! ## All tokens -/

/-- A token, and the character that it was cut at unless it goes to the end. -/
structure Piece where
  token : Bytes
  cut : Option UInt8
  deriving DecidableEq, Repr

/-- What the pieces spell. -/
def spelled (pieces : List Piece) : Bytes := pieces.flatMap fun piece => piece.token ++ piece.cut.toList

/-- The piece is cut at one of the separators, and none of them is in it. -/
def Piece.CutBy (piece : Piece) (separators : CString) : Prop :=
  (∀ ch ∈ separators.bytes, ch ∉ piece.token) ∧ ∀ cut, piece.cut = some cut → cut ∈ separators.bytes

theorem xstrtokCalls_none (chunk : Option Bytes) :
    ∀ sets : List CString, xstrtokCalls ⟨none, chunk⟩ sets = List.replicate sets.length none
  | [] => rfl
  | separators :: sets => by
    rw [xstrtokCalls, List.length_cons, List.replicate_succ]
    exact congrArg _ (xstrtokCalls_none chunk sets)

/-- The calls return the tokens of the pieces and from then on null. The pieces are cut by the separators of their
calls and spell a prefix of the text, and all of it as soon as one of them goes to the end. -/
structure Tokenized (str : Bytes) (sets : List CString) (results : List (Option Bytes))
    (pieces : List Piece) : Prop where
  results_eq : results = pieces.map (fun piece => some piece.token) ++ List.replicate (sets.length - pieces.length) none
  length_le : pieces.length ≤ str.length + 1
  cut : List.Forall₂ Piece.CutBy pieces (sets.take pieces.length)
  spells : spelled pieces <+: str
  last : ∀ piece ∈ pieces.dropLast, piece.cut ≠ none
  whole : none ∈ results ∨ (∃ piece ∈ pieces, piece.cut = none) → spelled pieces = str

theorem Tokenized.cons {str rest token : Bytes} {cut : UInt8} {separators : CString} {sets : List CString}
    {results : List (Option Bytes)} {pieces : List Piece} (t : Tokenized rest sets results pieces)
    (hstr : str = token ++ cut :: rest) (hcut : cut ∈ separators.bytes) (htoken : ∀ ch ∈ separators.bytes, ch ∉ token) :
    Tokenized str (separators :: sets) (some token :: results) (⟨token, some cut⟩ :: pieces) := by
  have hspelled : spelled (⟨token, some cut⟩ :: pieces) = token ++ cut :: spelled pieces := by simp [spelled]
  refine ⟨?_, ?_, ?_, ?_, ?_, ?_⟩
  · rw [t.results_eq, List.length_cons, List.length_cons, Nat.add_sub_add_right]
    rfl
  · have := t.length_le
    rw [hstr, List.length_cons, List.length_append, List.length_cons]
    omega
  · rw [List.length_cons, List.take_succ_cons]
    refine .cons ⟨htoken, ?_⟩ t.cut
    rintro _ ⟨⟩
    exact hcut
  · rw [hspelled, hstr, List.prefix_append_right_inj, List.cons_prefix_cons]
    exact ⟨rfl, t.spells⟩
  · cases pieces with
    | nil => simp
    | cons piece pieces =>
      rw [List.dropLast_cons_cons, List.forall_mem_cons]
      exact ⟨by simp, t.last⟩
  · intro h
    rw [hspelled, hstr, t.whole]
    simpa using h

theorem xstrtokCalls_spec :
    ∀ (sets : List CString) (tkzr : Xstrtok) (str : Bytes), tkzr.prevChunk = some str → 0 ∉ str → str.length < 2 ^ 64 →
      ∃ pieces, Tokenized str sets (xstrtokCalls tkzr sets) pieces
  | [], tkzr, str, _, _, _ => ⟨[], rfl, Nat.zero_le _, .nil, List.nil_prefix, by simp, by simp [xstrtokCalls]⟩
  | separators :: sets, tkzr, str, hprev, hnul, hsmall => by
    rw [xstrtokCalls]
    rcases xstrtokNext_spec tkzr hprev hnul hsmall separators.bytes with
      ⟨token, cut, rest, rfl, hcut, htoken, heq⟩ | ⟨hstr, heq⟩
    · simp only [heq]
      rw [List.mem_append, not_or, List.mem_cons, not_or] at hnul
      rw [List.length_append, List.length_cons] at hsmall
      obtain ⟨pieces, t⟩ := xstrtokCalls_spec sets ⟨some rest, some (token ++ [0])⟩ rest rfl hnul.2.2 (by omega)
      exact ⟨_, t.cons rfl hcut htoken⟩
    · simp only [heq]
      have hspelled : spelled [⟨str, none⟩] = str := by simp [spelled]
      refine ⟨[⟨str, none⟩], ?_, by simp, .cons ⟨hstr, by simp⟩ .nil, ?_, by simp, fun _ => hspelled⟩
      · rw [xstrtokCalls_none]
        rfl
      · rw [hspelled]

/-- Whatever the text and the separators of each call: at most one call more than the text has characters
returns a token, and every call behind those returns null. -/
theorem xstrtokCalls_tokenized (original : StoredString) (sets : List CString) :
    ∃ pieces, Tokenized original.bytes sets (xstrtokCalls (xstrtokNew original.bytes) sets) pieces :=
  xstrtokCalls_spec sets _ _ rfl original.noNul original.small

end CMx
