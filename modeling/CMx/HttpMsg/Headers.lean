/-
A block of headers has two readers in `http.c`: `http_msg_parse_headers` splits each line at its
colon, and `http_header_find` compares the front of each line with a name.
-/
import CMx.HttpMsg.State

namespace CMx

open Mqtt (Bytes CString)

/-! ## The lines of a block -/

/-- Where the lines of a block start, which is behind the white space in front of them. -/
def blockLinesLoop : (rounds : Nat) → (str : Bytes) → List Bytes
  | 0, _ => []
  | rounds + 1, str =>
    match strstr (skipSpace str) httpLineEnd with
    | none => []
    | some lineEnd =>
      if (skipSpace str).length - lineEnd.length = 0 then []
      else skipSpace str :: blockLinesLoop rounds (lineEnd.drop httpLineEnd.length)

def blockLines (str : Bytes) : List Bytes := blockLinesLoop str.length str

/-- The end of the line that a text starts with, and what is behind it. -/
def lineEnd (s : Bytes) : Bytes := (strstr s httpLineEnd).getD []

def lineText (s : Bytes) : Bytes := s.take (s.length - (lineEnd s).length)

/-- What is in front of the first colon of the line, and behind it. -/
def lineName (s : Bytes) : Bytes := (lineText s).takeWhile (· ≠ 0x3A)
def lineValue (s : Bytes) : Bytes := ((lineText s).dropWhile (· ≠ 0x3A)).drop 1

/-- A text that starts with a line with a colon. -/
structure StartsLine (s : Bytes) : Prop where
  split : s = lineName s ++ 0x3A :: (lineValue s ++ lineEnd s)
  ends : httpLineEnd <+: lineEnd s

theorem blockLinesLoop_succ {rounds : Nat} {str : Bytes} {e : Bytes}
    (hfind : strstr (skipSpace str) httpLineEnd = some e)
    (hlen : (skipSpace str).length - e.length ≠ 0) :
    blockLinesLoop (rounds + 1) str = skipSpace str :: blockLinesLoop rounds (e.drop httpLineEnd.length) := by
  simp only [blockLinesLoop, hfind, if_neg hlen]

/-- Each line starts behind the line in front of it. -/
theorem suffix_of_mem_blockLinesLoop : ∀ {rounds : Nat} {str s : Bytes}, s ∈ blockLinesLoop rounds str → s <:+ str
  | 0, str, s, h => by cases h
  | rounds + 1, str, s, h => by
    have hskip : skipSpace str <:+ str := List.dropWhile_suffix _
    cases hfind : strstr (skipSpace str) httpLineEnd with
    | none => simp [blockLinesLoop, hfind] at h
    | some e =>
      by_cases hlen : (skipSpace str).length - e.length = 0
      · simp [blockLinesLoop, hfind, hlen] at h
      · rw [blockLinesLoop_succ hfind hlen, List.mem_cons] at h
        rcases h with rfl | h
        · exact hskip
        · have hrest := suffix_of_mem_blockLinesLoop h
          exact ((hrest.trans (List.drop_suffix _ _)).trans (Search.find_spec hfind).2).trans hskip

theorem lineEnd_eq {s e : Bytes} (h : strstr s httpLineEnd = some e) : lineEnd s = e := by
  rw [lineEnd, h]
  rfl

theorem pairwise_blockLinesLoop : ∀ (rounds : Nat) (str : Bytes),
    (blockLinesLoop rounds str).Pairwise fun s s' => s'.length < (lineEnd s).length
  | 0, str => List.Pairwise.nil
  | rounds + 1, str => by
    cases hfind : strstr (skipSpace str) httpLineEnd with
    | none => simp [blockLinesLoop, hfind]
    | some e =>
      by_cases hlen : (skipSpace str).length - e.length = 0
      · simp [blockLinesLoop, hfind, hlen]
      · rw [blockLinesLoop_succ hfind hlen, List.pairwise_cons]
        refine ⟨fun s hs => ?_, pairwise_blockLinesLoop rounds _⟩
        have hle := (suffix_of_mem_blockLinesLoop hs).length_le
        have he := (Search.find_spec hfind).1.length_le
        rw [List.length_drop] at hle
        rw [lineEnd_eq hfind]
        simp only [httpLineEnd, List.length_cons, List.length_nil] at hle he
        omega

/-! ## Both readers along the lines -/

/-- The search stops at the first line that starts with the name. -/
theorem httpHeaderFindLoop_eq (name : Bytes) : ∀ (rounds : Nat) (str : Bytes),
    httpHeaderFindLoop name rounds str =
      ((blockLinesLoop rounds str).find? (strncaseeq · name name.length)).bind fun s =>
        (colonValue (skipSpace (s.drop name.length))).map (s, ·)
  | 0, str => rfl
  | rounds + 1, str => by
    rw [httpHeaderFindLoop_succ]
    cases hfind : strstr (skipSpace str) httpLineEnd with
    | none => simp [blockLinesLoop, hfind]
    | some e =>
      by_cases hlen : (skipSpace str).length - e.length = 0
      · simp [blockLinesLoop, hfind, hlen]
      · rw [blockLinesLoop_succ hfind hlen]
        simp only [if_neg hlen]
        rw [List.find?_cons]
        cases strncaseeq (skipSpace str) name name.length with
        | true => rfl
        | false => exact httpHeaderFindLoop_eq name rounds _

/-- A line with a colon is split there. -/
theorem startsLine {s e colon : Bytes} (hfind : strstr s httpLineEnd = some e)
    (hcolon : strchr (s.take (s.length - e.length)) 0x3A = some colon) :
    StartsLine s ∧
      (s.take (s.length - e.length)).take ((s.take (s.length - e.length)).length - colon.length) = lineName s ∧
      colon.drop 1 = lineValue s := by
  obtain ⟨hends, hsuffix⟩ := Search.find_spec hfind
  have htext : s.take (s.length - e.length) = lineText s := by rw [lineText, lineEnd_eq hfind]
  have hs : s = lineText s ++ e := by
    rw [← htext]
    obtain ⟨t, rfl⟩ := hsuffix
    simp
  rw [htext] at hcolon ⊢
  obtain ⟨hdrop, hcons⟩ := strchr_spec hcolon
  have hsplit := List.takeWhile_append_dropWhile (p := fun c : UInt8 => decide (c ≠ 0x3A)) (l := lineText s)
  have hvalue : colon.drop 1 = lineValue s := by rw [lineValue, hdrop]
  rw [hdrop] at hsplit
  refine ⟨⟨?_, by rw [lineEnd_eq hfind]; exact hends⟩, ?_, hvalue⟩
  · calc s = lineName s ++ colon ++ e := by rw [← hsplit] at hs; exact hs
      _ = lineName s ++ 0x3A :: (lineValue s ++ lineEnd s) := by
        rw [hcons, hvalue, lineEnd_eq hfind, List.append_assoc, List.cons_append]
  · have hlen := congrArg List.length hsplit
    rw [List.length_append] at hlen
    calc (lineText s).take ((lineText s).length - colon.length)
        = (lineName s ++ colon).take ((lineText s).length - colon.length) := by rw [← hsplit]; rfl
      _ = lineName s := List.take_left' (by rw [lineName]; omega)

section Parse

variable {stack : Bytes → Bytes}

/-- The header that is parsed of a line. -/
def LineHeader (stack : Bytes → Bytes) (s : Bytes) (h : HttpHeader) : Prop :=
  httpParseLine (stack s) (lineName s) (lineValue s) = some h

/-- An accepted block has a colon in each line, and a header of each; the last is in front. -/
theorem httpMsgParseHeadersLoop_spec : ∀ {rounds : Nat} {self msg : HttpMsg} {str : Bytes},
    httpMsgParseHeadersLoop stack rounds self str = some (1, msg) →
      (∀ s ∈ blockLinesLoop rounds str, StartsLine s) ∧
        ∃ hs, List.Forall₂ (LineHeader stack) (blockLinesLoop rounds str) hs ∧
          msg = { self with headers := hs.reverse ++ self.headers }
  | 0, self, msg, str, h => by cases h
  | rounds + 1, self, msg, str, h => by
    have hspace : str.drop (xstrSpaceLen str httpWhitespaceChars) = skipSpace str := drop_xstrSpaceLen ..
    simp only [httpMsgParseHeadersLoop, hspace] at h
    cases hfind : strstr (skipSpace str) httpLineEnd with
    | none => simp [hfind] at h
    | some e =>
      simp only [hfind] at h
      by_cases hlen : (skipSpace str).length - e.length = 0
      · rw [if_pos hlen] at h
        cases h
        exact ⟨by simp [blockLinesLoop, hfind, hlen], [], by simp [blockLinesLoop, hfind, hlen]⟩
      · rw [if_neg hlen] at h
        rw [blockLinesLoop_succ hfind hlen]
        cases hcolon : strchr ((skipSpace str).take ((skipSpace str).length - e.length)) 0x3A with
        | none => simp [hcolon] at h
        | some colon =>
          obtain ⟨hstarts, hname, hvalue⟩ := startsLine hfind hcolon
          simp only [hcolon, hname, hvalue] at h
          obtain ⟨header, hheader, hrest⟩ := Option.bind_eq_some_iff.1 h
          obtain ⟨hlines, hs, hall, rfl⟩ := httpMsgParseHeadersLoop_spec hrest
          refine ⟨List.forall_mem_cons.2 ⟨hstarts, hlines⟩, header :: hs, List.Forall₂.cons hheader hall, ?_⟩
          simp [httpMsgAddHeader]

theorem httpMsgParseHeadersLoop_ret : ∀ {rounds : Nat} {self : HttpMsg} {str : Bytes} {ret : Int} {msg : HttpMsg},
    httpMsgParseHeadersLoop stack rounds self str = some (ret, msg) → ret = 1 ∨ ret = -1
  | 0, self, str, ret, msg, h => by cases h; exact Or.inr rfl
  | rounds + 1, self, str, ret, msg, h => by
    rw [httpMsgParseHeadersLoop] at h
    split at h
    · cases h
      exact Or.inr rfl
    · simp only at h
      split at h
      · cases h
        exact Or.inl rfl
      · split at h
        · cases h
          exact Or.inr rfl
        · obtain ⟨header, -, hrest⟩ := Option.bind_eq_some_iff.1 h
          exact httpMsgParseHeadersLoop_ret hrest

end Parse

/-! ## The header of a line -/

/-- A string whose last character is printable. -/
def EndsGraph (str : Bytes) : Prop := ∃ front c, str = front ++ [c] ∧ isgraph c = true

/-- What `xstrrtrim` leaves of a string that is not empty. -/
def rtrim : Bytes → Bytes
  | [] => []
  | ch :: str => ch :: str.rdropWhile fun ch => !isgraph ch

/-- The last character that stays is printable, or it is the first. -/
theorem rtrim_append {c : UInt8} {str junk : Bytes} (hstr : str = [] ∨ EndsGraph str)
    (hjunk : ∀ c ∈ junk, isgraph c = false) :
    rtrim (c :: (str ++ junk)) = c :: str := by
  have hself : (str.reverse.dropWhile fun ch => !isgraph ch) = str.reverse := by
    rcases hstr with rfl | ⟨front, d, rfl, hd⟩
    · rfl
    · simp [hd]
  rw [rtrim, List.rdropWhile, List.reverse_append,
    List.dropWhile_append_of_pos fun d hd => by simp [hjunk d (by simpa using hd)],
    hself, List.reverse_reverse]

theorem exists_rtrim (c : UInt8) (cs : Bytes) : ∃ str junk, cs = str ++ junk ∧ (str = [] ∨ EndsGraph str) ∧
    (∀ c ∈ junk, isgraph c = false) ∧ rtrim (c :: cs) = c :: str := by
  have hsplit := List.rdropWhile_append_rtakeWhile (p := fun ch : UInt8 => !isgraph ch) (l := cs)
  refine ⟨_, _, hsplit.symm, ?_, fun d hd => ?_, rfl⟩
  · by_cases hnil : (cs.rdropWhile fun ch => !isgraph ch) = []
    · exact Or.inl hnil
    · have hlast := List.rdropWhile_last_not _ _ hnil
      exact Or.inr ⟨_, _, (List.dropLast_append_getLast hnil).symm, by simpa using hlast⟩
  · simpa using List.mem_rtakeWhile_imp hd

theorem xstrrtrim_cons (front : Bytes) {str : Bytes} (h : str ≠ []) :
    xstrrtrim front str = some (front, rtrim str) := by
  cases str with
  | nil => exact absurd rfl h
  | cons ch str => rfl

/-- What it leaves does not depend on what is in front of the string. -/
theorem xstrrtrim_snd {front str : Bytes} {trimmed : Bytes × Bytes} (h : xstrrtrim front str = some trimmed) :
    trimmed.2 = rtrim str := by
  cases str with
  | nil =>
    obtain ⟨_, -, rfl⟩ := Option.map_eq_some_iff.1 h
    rfl
  | cons c cs =>
    obtain rfl := Option.some.inj h
    rfl

/-- The trimming of an empty string takes away what is not printable in front of it. -/
theorem xstrrtrimFront_append {front : Bytes} (h : ∀ c ∈ front, isgraph c = false) (more : Bytes) :
    xstrrtrimFront (front ++ more) = (xstrrtrimFront more).map (List.replicate front.length 0 ++ ·) := by
  induction front with
  | nil => simp
  | cons c front ih =>
    rw [List.forall_mem_cons] at h
    rw [List.cons_append, xstrrtrimFront, h.1, ih h.2, Option.map_map]
    rfl

theorem xstrrtrimFront_graph {c : UInt8} (h : isgraph c = true) (front : Bytes) :
    xstrrtrimFront (c :: front) = some (c :: front) := by
  rw [xstrrtrimFront, if_pos h]

theorem bytes_xstrdup {str : Bytes} (h : 0 ∉ str) (k : Nat) : (xstrdup (str ++ List.replicate k 0)).bytes = str := by
  have hstr : ∀ c ∈ str, decide (c ≠ 0) = true := fun c hc => decide_eq_true fun h0 => h (h0 ▸ hc)
  have hzeros : (List.replicate k (0 : UInt8)).takeWhile (· ≠ 0) = [] := by
    cases k with
    | zero => rfl
    | succ k => rfl
  rw [xstrdup]
  simp only [List.takeWhile_append_of_pos hstr, hzeros, List.append_nil]

/-- The name stays in its place, as long as the trimming of the value stops behind it. -/
theorem nameOf_region (skipped : Bytes) {trimmed : Bytes} (z : UInt8) (k : Nat) (more : Bytes) (h : 0 ∉ trimmed) :
    (xstrdup (((skipped ++ z :: (List.replicate k 0 ++ (trimmed.reverse ++ more))).drop (skipped.length + 1)).take
      (k + trimmed.length)).reverse).bytes = trimmed := by
  have hregion : ((skipped ++ z :: (List.replicate k 0 ++ (trimmed.reverse ++ more))).drop (skipped.length + 1)).take
      (k + trimmed.length) = List.replicate k 0 ++ trimmed.reverse := by
    rw [← List.drop_drop, List.drop_left' rfl, List.drop_succ_cons, List.drop_zero, ← List.append_assoc]
    exact List.take_left' (by simp)
  rw [hregion, List.reverse_append, List.reverse_reverse, List.reverse_replicate]
  exact bytes_xstrdup h k

/-- A text with a printable character. -/
def HasGraph (str : Bytes) : Prop := ∃ c ∈ str, isgraph c = true

theorem xstrltrim_eq_nil_iff {str : Bytes} : xstrltrim str = [] ↔ ¬ HasGraph str := by
  simp [xstrltrim, HasGraph]

/-- A value that is blank is trimmed down to what is in front of its line's colon. -/
theorem xstrrtrim_blank {skipped : Bytes} (h : ∀ c ∈ skipped, isgraph c = false) (k : Nat) (more : Bytes) :
    xstrrtrim (skipped.reverse ++ 0 :: (List.replicate k 0 ++ more)) [] =
      (xstrrtrimFront more).map fun more =>
        (List.replicate skipped.length 0 ++ 0 :: (List.replicate k 0 ++ more), []) := by
  have hblank : ∀ c ∈ skipped.reverse ++ 0 :: List.replicate k 0, isgraph c = false := by
    intro c hc
    rw [List.mem_append, List.mem_reverse, List.mem_cons, List.mem_replicate] at hc
    rcases hc with hc | rfl | ⟨-, rfl⟩
    · exact h c hc
    · rfl
    · rfl
  have hsplit : skipped.reverse ++ 0 :: (List.replicate k 0 ++ more) =
      (skipped.reverse ++ 0 :: List.replicate k 0) ++ more := by
    simp
  rw [xstrrtrim, hsplit, xstrrtrimFront_append hblank, Option.map_map]
  congr 1
  funext more
  simp [List.replicate_add, List.replicate_succ]

/-- The name that is not empty is trimmed in its place, and the value behind it. -/
theorem httpParseLine_cons (stack : Bytes) {c : UInt8} {str junk : Bytes} (value : Bytes)
    (h : rtrim (c :: (str ++ junk)) = c :: str) :
    httpParseLine stack (c :: (str ++ junk)) value =
      (xstrrtrim ((value.takeWhile fun ch => !isgraph ch).reverse ++
          0 :: (List.replicate junk.length 0 ++ ((c :: str).reverse ++ stack))) (xstrltrim value)).map fun trimmed =>
        ⟨xstrdup ((trimmed.1.drop ((value.takeWhile fun ch => !isgraph ch).length + 1)).take
          (junk.length + (c :: str).length)).reverse, some (xstrdup trimmed.2)⟩ := by
  have hlen : (c :: (str ++ junk)).length = junk.length + (c :: str).length := by
    simp only [List.length_cons, List.length_append]
    omega
  rw [httpParseLine, xstrrtrim_cons _ (List.cons_ne_nil c _), h]
  simp only [Option.bind_eq_bind, Option.bind_some, hlen, Nat.add_sub_cancel]
  exact (Option.map_eq_bind ..).symm

theorem httpParseLine_nil {stack value : Bytes} {h : HttpHeader} (hh : httpParseLine stack [] value = some h) :
    h.name.bytes = [] := by
  obtain ⟨_, _, hh⟩ := Option.bind_eq_some_iff.1 hh
  obtain ⟨_, _, hh⟩ := Option.bind_eq_some_iff.1 hh
  cases hh
  simp [xstrdup]

section Name

variable {stack name value : Bytes} {h : HttpHeader} (hnul : 0 ∉ name) (hh : httpParseLine stack name value = some h)
include hh

/-- The trimming of a value that is blank goes on through a name whose last character it does not stop at. -/
theorem httpParseLine_lost (hkept : ¬ (EndsGraph (rtrim name) ∨ HasGraph value)) : h.name.bytes = [] := by
  rw [not_or] at hkept
  have hskipped : ∀ c ∈ value.takeWhile fun ch => !isgraph ch, isgraph c = false := fun c hc => by
    simpa using List.mem_takeWhile_imp hc
  cases name with
  | nil => exact httpParseLine_nil hh
  | cons c cs =>
    obtain ⟨str, junk, rfl, hstr, hjunk, htrim⟩ := exists_rtrim c cs
    -- the name is a single character, which is not printable
    rw [htrim] at hkept
    obtain rfl : str = [] :=
      hstr.resolve_right fun ⟨front, d, hd, hgraph⟩ => hkept.1 ⟨c :: front, d, by rw [hd]; rfl, hgraph⟩
    have hc : isgraph c = false := by
      rw [← Bool.not_eq_true]
      exact fun hc => hkept.1 ⟨[], c, rfl, hc⟩
    have hfront : xstrrtrimFront ([c].reverse ++ stack) = (xstrrtrimFront stack).map (0 :: ·) := by
      rw [List.reverse_singleton, List.singleton_append, xstrrtrimFront, hc]
      rfl
    rw [httpParseLine_cons stack value htrim, xstrltrim_eq_nil_iff.2 hkept.2, xstrrtrim_blank hskipped, hfront] at hh
    obtain ⟨trimmed, htrimmed, rfl⟩ := Option.map_eq_some_iff.1 hh
    rw [Option.map_map] at htrimmed
    obtain ⟨more, -, rfl⟩ := Option.map_eq_some_iff.1 htrimmed
    have hregion := nameOf_region (List.replicate (value.takeWhile fun ch => !isgraph ch).length 0) 0
      (junk.length + 1) more (List.not_mem_nil (a := (0 : UInt8)))
    rw [List.length_replicate, List.replicate_add, List.append_assoc] at hregion
    exact hregion

include hnul

/-- The name is trimmed, and stays as long as there is something behind its start for the trimming of the value to stop at. -/
theorem httpParseLine_kept (hname : name ≠ []) (hkept : EndsGraph (rtrim name) ∨ HasGraph value) :
    h.name.bytes = rtrim name := by
  obtain ⟨c, cs, rfl⟩ := List.exists_cons_of_ne_nil hname
  obtain ⟨str, junk, rfl, -, hjunk, htrim⟩ := exists_rtrim c cs
  have hnul' : 0 ∉ c :: str := fun hm => hnul (by rw [← List.cons_append]; exact List.mem_append_left _ hm)
  rw [htrim] at hkept ⊢
  rw [httpParseLine_cons stack value htrim] at hh
  by_cases hvalue : HasGraph value
  · rw [xstrrtrim_cons _ (fun he => xstrltrim_eq_nil_iff.1 he hvalue)] at hh
    cases hh
    have hregion := nameOf_region (value.takeWhile fun ch => !isgraph ch).reverse 0 junk.length stack hnul'
    rw [List.length_reverse] at hregion
    exact hregion
  · obtain ⟨front, d, hd, hgraph⟩ := hkept.resolve_right hvalue
    have hskipped : ∀ c ∈ value.takeWhile fun ch => !isgraph ch, isgraph c = false := fun c hc => by
      simpa using List.mem_takeWhile_imp hc
    have hfront : xstrrtrimFront ((c :: str).reverse ++ stack) = some ((c :: str).reverse ++ stack) := by
      rw [hd, List.reverse_append]
      exact xstrrtrimFront_graph hgraph _
    rw [xstrltrim_eq_nil_iff.2 hvalue, xstrrtrim_blank hskipped, hfront] at hh
    cases hh
    have hregion := nameOf_region (List.replicate (value.takeWhile fun ch => !isgraph ch).length 0) 0 junk.length
      stack hnul'
    rw [List.length_replicate] at hregion
    exact hregion

end Name

/-! ## Names in any letter case -/

def HttpHeader.Named (h : HttpHeader) (name : Bytes) : Prop := h.name.bytes.map tolower = name.map tolower

theorem isgraph_tolower (c : UInt8) : isgraph (tolower c) = isgraph c := by
  unfold isgraph tolower
  split
  · rename_i hc
    simp only [UInt8.le_iff_toNat_le, UInt8.toNat_add, UInt8.reduceToNat] at hc ⊢
    rw [Bool.eq_iff_iff]
    simp only [Bool.and_eq_true, decide_eq_true_iff]
    omega
  · rfl

theorem tolower_eq_colon {c : UInt8} : tolower c = 0x3A ↔ c = 0x3A := by
  unfold tolower
  split
  · rename_i hc
    simp only [UInt8.le_iff_toNat_le, ← UInt8.toNat_inj, UInt8.toNat_add, UInt8.reduceToNat] at hc ⊢
    omega
  · exact Iff.rfl

theorem endsGraph_map {str : Bytes} : EndsGraph (str.map tolower) ↔ EndsGraph str := by
  constructor
  · rintro ⟨front, c, hstr, hc⟩
    obtain ⟨front', back, rfl, rfl, hback⟩ := List.map_eq_append_iff.1 hstr
    obtain ⟨d, rest, rfl, rfl, hrest⟩ := List.map_eq_cons_iff.1 hback
    obtain rfl := List.map_eq_nil_iff.1 hrest
    exact ⟨front', d, rfl, by rw [← isgraph_tolower]; exact hc⟩
  · rintro ⟨front, c, rfl, hc⟩
    exact ⟨front.map tolower, tolower c, by simp, by rw [isgraph_tolower]; exact hc⟩

theorem EndsGraph.congr {a b : Bytes} (h : a.map tolower = b.map tolower) (ha : EndsGraph a) : EndsGraph b := by
  rw [← endsGraph_map, ← h]
  exact endsGraph_map.2 ha

/-- The line has a name, in any letter case, with nothing printable behind it; the name is printable
at its end, or it is a single character and the value is not blank. -/
structure HasName (name s : Bytes) : Prop where
  starts : ((lineName s).take name.length).map tolower = name.map tolower
  behind : ∀ c ∈ (lineName s).drop name.length, isgraph c = false
  kept : EndsGraph name ∨ name.length = 1 ∧ HasGraph (lineValue s)

/-- This is the name that is parsed of the line. -/
theorem named_iff {stack : Bytes → Bytes} {name s : Bytes} {h : HttpHeader} (hne : name ≠ []) (hnul : 0 ∉ lineName s)
    (hh : LineHeader stack s h) : h.Named name ↔ HasName name s := by
  have hlen : ∀ {a : Bytes}, a.map tolower = name.map tolower → a.length = name.length := fun ha => by
    simpa using congrArg List.length ha
  constructor
  · intro hnamed
    have hname : h.name.bytes ≠ [] := fun hnil => hne (List.eq_nil_of_length_eq_zero (by rw [← hlen hnamed, hnil]; rfl))
    have hkept : EndsGraph (rtrim (lineName s)) ∨ HasGraph (lineValue s) := by
      by_contra hlost
      exact hname (httpParseLine_lost hh hlost)
    -- a line without a name has a header without one, whatever is on the stack
    have hline : lineName s ≠ [] := fun hnil => by
      rw [LineHeader, hnil] at hh
      exact hname (httpParseLine_nil hh)
    rw [HttpHeader.Named, httpParseLine_kept hnul hh hline hkept] at hnamed
    obtain ⟨c, cs, hcons⟩ := List.exists_cons_of_ne_nil hline
    obtain ⟨str, junk, rfl, hstr, hjunk, htrim⟩ := exists_rtrim c cs
    rw [hcons, htrim] at hnamed hkept
    have hn : name.length = (c :: str).length := (hlen hnamed).symm
    refine ⟨?_, ?_, ?_⟩
    · rw [hcons, hn, ← List.cons_append, List.take_left' rfl]
      exact hnamed
    · rw [hcons, hn, ← List.cons_append, List.drop_left' rfl]
      exact hjunk
    · rcases hkept with hends | hvalue
      · exact Or.inl (hends.congr hnamed)
      · rcases hstr with rfl | ⟨front, d, rfl, hd⟩
        · exact Or.inr ⟨hn, hvalue⟩
        · exact Or.inl (EndsGraph.congr hnamed ⟨c :: front, d, rfl, hd⟩)
  · rintro ⟨hstarts, hbehind, hkept⟩
    -- what the name is compared with, and what is behind it
    have hsplit := List.take_append_drop name.length (lineName s)
    have hn := hlen hstarts
    obtain ⟨c, str, hcons⟩ : ∃ c str, (lineName s).take name.length = c :: str :=
      List.exists_cons_of_ne_nil fun hnil => hne (List.eq_nil_of_length_eq_zero (by rw [← hn, hnil]; rfl))
    rw [hcons] at hsplit hstarts hn
    have hline : lineName s ≠ [] := by rw [← hsplit]; exact List.cons_ne_nil c _
    have hstr : str = [] ∨ EndsGraph str := by
      rcases hkept with hends | ⟨hone, -⟩
      · obtain ⟨front, d, hd, hgraph⟩ := hends.congr hstarts.symm
        cases front with
        | nil => cases hd; exact Or.inl rfl
        | cons _ front => cases hd; exact Or.inr ⟨front, d, rfl, hgraph⟩
      · rw [hone] at hn
        exact Or.inl (List.eq_nil_of_length_eq_zero (by simpa using hn))
    have htrim : rtrim (lineName s) = c :: str := by
      rw [← hsplit]
      exact rtrim_append hstr hbehind
    have hkept' : EndsGraph (rtrim (lineName s)) ∨ HasGraph (lineValue s) := by
      rw [htrim]
      exact hkept.imp (fun hends => hends.congr hstarts.symm) And.right
    rw [HttpHeader.Named, httpParseLine_kept hnul hh hline hkept', htrim]
    exact hstarts

/-! ## The search against the headers that are parsed -/

/-- Where the value of a line starts. -/
def valueStart (s : Bytes) : Bytes := xstrltrim (lineValue s) ++ lineEnd s

/-- The first line of a block whose header has a name. -/
def FirstNamed (stack : Bytes → Bytes) (name str s : Bytes) : Prop :=
  ∃ before after, blockLines str = before ++ s :: after ∧ (∃ h, LineHeader stack s h ∧ h.Named name) ∧
    ∀ s' ∈ before, ∀ h, LineHeader stack s' h → ¬ h.Named name

/-- The search of a block finds a line if and only if the message that was parsed of it has a header with
the name, and then it has found the value of the first such line. -/
structure FindsParsed (stack : Bytes → Bytes) (name str : Bytes) (msg : HttpMsg) : Prop where
  found_iff : (httpHeaderFind str name).isSome = true ↔ ∃ h ∈ msg.headers, h.Named name
  value : ∀ found, httpHeaderFind str name = some found → ∃ s, FirstNamed stack name str s ∧ found.2 = valueStart s

/-- The first line that starts with the name has the name, and only blanks and tabs in front of its
value; or it has something else in front of its colon, and no line of the block has the name. -/
def FindsNamed (name str : Bytes) : Prop :=
  match (blockLines str).find? (strncaseeq · name name.length) with
  | none => True
  | some s =>
    if (skipSpace (s.drop name.length)).head? = some 0x3A then
      HasName name s ∧ skipSpace (lineValue s) = xstrltrim (lineValue s)
    else ∀ s' ∈ blockLines str, ¬ HasName name s'

theorem colonValue_eq_none_iff {str : Bytes} : colonValue str = none ↔ str.head? ≠ some 0x3A := by
  cases str with
  | nil => simp [colonValue]
  | cons ch str => by_cases hch : ch = 0x3A <;> simp [colonValue, hch]

/-- A line that has a name starts with it. -/
theorem HasName.strncaseeq {name s : Bytes} (hs : StartsLine s) (h : HasName name s) :
    strncaseeq s name name.length = true := by
  have hlen : name.length ≤ (lineName s).length := by
    have := congrArg List.length h.starts
    rw [List.length_map, List.length_map, List.length_take] at this
    omega
  have htake : s.take name.length = (lineName s).take name.length := by
    calc s.take name.length = (lineName s ++ 0x3A :: (lineValue s ++ lineEnd s)).take name.length :=
          congrArg (List.take _) hs.split
      _ = (lineName s).take name.length := List.take_append_of_le_length hlen
  simp [CMx.strncaseeq, htake, h.starts]

theorem skipSpace_lineEnd {e : Bytes} (h : httpLineEnd <+: e) (str : Bytes) :
    skipSpace (str ++ e) = skipSpace str ++ e := by
  induction str with
  | nil =>
    obtain ⟨rest, rfl⟩ := h
    rfl
  | cons c str ih =>
    unfold skipSpace at ih ⊢
    rw [List.cons_append, List.dropWhile_cons, List.dropWhile_cons]
    split
    · exact ih
    · rfl

/-- A line with the name in front of its first colon, and only white space between them. -/
theorem line_of_colonValue {name s value : Bytes} (hcolon : 0x3A ∉ name) (hs : StartsLine s)
    (hstarts : strncaseeq s name name.length = true)
    (hvalue : colonValue (skipSpace (s.drop name.length)) = some value) :
    ((lineName s).take name.length).map tolower = name.map tolower ∧
      (∀ c ∈ (lineName s).drop name.length, isgraph c = false) ∧ value = skipSpace (lineValue s) ++ lineEnd s := by
  have htake : (s.take name.length).map tolower = name.map tolower := by simpa [CMx.strncaseeq] using hstarts
  have hlen : (s.take name.length).length = name.length := by simpa using congrArg List.length htake
  obtain ⟨more, hmore, rfl⟩ : ∃ more, skipSpace (s.drop name.length) = 0x3A :: more ∧ value = skipSpace more := by
    unfold colonValue at hvalue
    split at hvalue
    · cases hvalue
    · split at hvalue
      · rename_i heq hch
        cases hvalue
        exact ⟨_, by rw [heq, hch], rfl⟩
      · cases hvalue
  obtain ⟨blanks, hblanks, hsplit⟩ : ∃ blanks, (∀ c ∈ blanks, isgraph c = false ∧ c ≠ 0x3A) ∧
      s = s.take name.length ++ blanks ++ 0x3A :: more := by
    refine ⟨(s.drop name.length).takeWhile (httpWhitespaceChars.contains ·), fun c hc => ?_, ?_⟩
    · have hspace : c = 0x20 ∨ c = 0x09 := by simpa [httpWhitespaceChars] using List.mem_takeWhile_imp hc
      rcases hspace with rfl | rfl <;> decide
    · rw [← hmore, List.append_assoc]
      exact ((congrArg _ List.takeWhile_append_dropWhile).trans (List.take_append_drop _ _)).symm
  -- neither the name nor the blanks hold a colon, so this is the colon at which the parser splits
  have hnot : 0x3A ∉ s.take name.length ++ blanks := by
    rw [List.mem_append, not_or]
    refine ⟨fun hm => hcolon ?_, fun hm => (hblanks _ hm).2 rfl⟩
    have hm' : tolower 0x3A ∈ name.map tolower := htake ▸ List.mem_map_of_mem hm
    obtain ⟨c, hc, hlower⟩ := List.mem_map.1 hm'
    rwa [← tolower_eq_colon.1 hlower]
  have hnot' : 0x3A ∉ lineName s := fun hm => by simpa using List.mem_takeWhile_imp hm
  obtain ⟨hname, hmore⟩ := Search.append_cons_inj hnot hnot' (hsplit.symm.trans hs.split)
  rw [← hname, List.take_left' hlen, List.drop_left' hlen, hmore, skipSpace_lineEnd hs.ends]
  exact ⟨htake, fun c hc => (hblanks c hc).1, rfl⟩

/-! ## The lines of a block and its headers -/

/-- The lines of a block that was parsed, with the headers of them in their order. -/
structure Parsed (stack : Bytes → Bytes) (lines : List Bytes) (hs : List HttpHeader) : Prop where
  starts : ∀ s ∈ lines, StartsLine s
  noNul : ∀ s ∈ lines, 0 ∉ s
  headers : List.Forall₂ (LineHeader stack) lines hs

theorem parsed_blockLines {stack : Bytes → Bytes} {headers : CString} {self msg : HttpMsg}
    (h : httpMsgParseHeaders stack self headers.bytes = some (1, msg)) :
    ∃ hs, Parsed stack (blockLines headers.bytes) hs ∧ msg = { self with headers := hs.reverse ++ self.headers } := by
  obtain ⟨hstarts, hs, hall, hmsg⟩ := httpMsgParseHeadersLoop_spec h
  refine ⟨hs, ⟨hstarts, fun s hs hm => ?_, hall⟩, hmsg⟩
  exact headers.noNul ((suffix_of_mem_blockLinesLoop hs).subset hm)

theorem exists_of_forall₂ {α β : Type} {r : α → β → Prop} {xs : List α} {ys : List β} (h : List.Forall₂ r xs ys) :
    (∀ x ∈ xs, ∃ y ∈ ys, r x y) ∧ ∀ y ∈ ys, ∃ x ∈ xs, r x y := by
  induction h with
  | nil => simp
  | cons hxy _ ih =>
    obtain ⟨ih₁, ih₂⟩ := ih
    constructor
    · refine List.forall_mem_cons.2 ⟨⟨_, List.mem_cons_self .., hxy⟩, fun x hx => ?_⟩
      obtain ⟨y, hy, hr⟩ := ih₁ x hx
      exact ⟨y, List.mem_cons_of_mem _ hy, hr⟩
    · refine List.forall_mem_cons.2 ⟨⟨_, List.mem_cons_self .., hxy⟩, fun y hy => ?_⟩
      obtain ⟨x, hx, hr⟩ := ih₂ y hy
      exact ⟨x, List.mem_cons_of_mem _ hx, hr⟩

namespace Parsed

variable {stack : Bytes → Bytes} {lines : List Bytes} {hs : List HttpHeader} {name s : Bytes} {h : HttpHeader}

theorem named_iff (p : Parsed stack lines hs) (hne : name ≠ []) (hs : s ∈ lines) (hh : LineHeader stack s h) :
    h.Named name ↔ HasName name s := by
  refine CMx.named_iff hne (fun hm => p.noNul s hs ?_) hh
  rw [(p.starts s hs).split]
  exact List.mem_append_left _ hm

/-- A header has the name if and only if a line has it. -/
theorem exists_named_iff (p : Parsed stack lines hs) (hne : name ≠ []) :
    (∃ h ∈ hs, h.Named name) ↔ ∃ s ∈ lines, HasName name s := by
  obtain ⟨hline, hheader⟩ := exists_of_forall₂ p.headers
  constructor
  · rintro ⟨h, hh, hnamed⟩
    obtain ⟨s, hs, hparsed⟩ := hheader h hh
    exact ⟨s, hs, (p.named_iff hne hs hparsed).1 hnamed⟩
  · rintro ⟨s, hs, hname⟩
    obtain ⟨h, hh, hparsed⟩ := hline s hs
    exact ⟨h, hh, (p.named_iff hne hs hparsed).2 hname⟩

end Parsed

/-! ## The search and the parser -/

section Agree

variable {stack : Bytes → Bytes} {name str : Bytes} {hs : List HttpHeader} {msg : HttpMsg}

theorem httpHeaderFind_eq (name str : Bytes) : httpHeaderFind str name =
    ((blockLines str).find? (strncaseeq · name name.length)).bind fun s =>
      (colonValue (skipSpace (s.drop name.length))).map (s, ·) := httpHeaderFindLoop_eq name _ str

theorem length_valueStart {s : Bytes} (h : StartsLine s) : (valueStart s).length ≤ s.length := by
  have hlen := congrArg List.length h.split
  have hle : (xstrltrim (lineValue s)).length ≤ (lineValue s).length := (List.dropWhile_suffix _).length_le
  rw [List.length_append, List.length_cons, List.length_append] at hlen
  rw [valueStart, List.length_append]
  omega

variable (p : Parsed stack (blockLines str) hs) (hmsg : msg.headers = hs.reverse) (hne : name ≠ [])
include p hmsg hne

theorem found_iff_of_eq_none (hfind : httpHeaderFind str name = none) :
    FindsParsed stack name str msg ↔ ∀ s ∈ blockLines str, ¬ HasName name s := by
  have hnamed : (∃ h ∈ msg.headers, h.Named name) ↔ ∃ s ∈ blockLines str, HasName name s := by
    rw [hmsg, ← p.exists_named_iff hne]
    simp
  constructor
  · intro h s hs hname
    have hsome := h.found_iff.2 (hnamed.2 ⟨s, hs, hname⟩)
    rw [hfind] at hsome
    cases hsome
  · intro h
    refine ⟨?_, fun found hfound => ?_⟩
    · rw [hfind, hnamed]
      simpa using h
    · rw [hfind] at hfound
      cases hfound

/-- The value that is found is that of the line at which the search stops. -/
theorem finds_iff_of_eq_some (hcolon : 0x3A ∉ name) {s value : Bytes}
    (hfirst : (blockLines str).find? (strncaseeq · name name.length) = some s)
    (hvalue : colonValue (skipSpace (s.drop name.length)) = some value) :
    FindsParsed stack name str msg ↔ HasName name s ∧ skipSpace (lineValue s) = xstrltrim (lineValue s) := by
  have hfind : httpHeaderFind str name = some (s, value) := by
    rw [httpHeaderFind_eq, hfirst, Option.bind_some, hvalue]
    rfl
  obtain ⟨hs, before, after, hlines, hbefore⟩ := List.find?_eq_some_iff_append.1 hfirst
  have hmem : s ∈ blockLines str := by
    rw [hlines]
    exact List.mem_append_right _ (List.mem_cons_self ..)
  obtain ⟨-, -, rfl⟩ := line_of_colonValue hcolon (p.starts s hmem) hs hvalue
  constructor
  · intro h
    obtain ⟨s', ⟨before', after', hlines', ⟨h', hh', hnamed⟩, -⟩, hsame⟩ := h.value _ hfind
    have hmem' : s' ∈ blockLines str := by
      rw [hlines']
      exact List.mem_append_right _ (List.mem_cons_self ..)
    have hname := (p.named_iff hne hmem' hh').1 hnamed
    have hstarts := hname.strncaseeq (p.starts s' hmem')
    have hsame' : s' = s := by
      rw [hlines, List.mem_append, List.mem_cons] at hmem'
      rcases hmem' with hs' | rfl | hs'
      · exact absurd hstarts (by simpa using hbefore s' hs')
      · rfl
      · -- a value further behind is shorter than what is found
        have hpair := pairwise_blockLinesLoop str.length str
        rw [← blockLines, hlines, List.pairwise_append, List.pairwise_cons] at hpair
        have hshort := hpair.2.1.1 s' hs'
        have hlen := length_valueStart
          (p.starts s' (by rw [hlines]; exact List.mem_append_right _ (List.mem_cons_of_mem _ hs')))
        rw [← hsame, List.length_append] at hlen
        omega
    rw [hsame'] at hname hsame
    exact ⟨hname, List.append_cancel_right hsame⟩
  · rintro ⟨hname, hblank⟩
    obtain ⟨h, hh, hparsed⟩ := (exists_of_forall₂ p.headers).1 s hmem
    have hnamed := (p.named_iff hne hmem hparsed).2 hname
    refine ⟨?_, fun found hfound => ?_⟩
    · rw [hfind]
      exact iff_of_true rfl ⟨h, by rw [hmsg]; exact List.mem_reverse.2 hh, hnamed⟩
    · rw [hfind] at hfound
      cases hfound
      refine ⟨s, ⟨before, after, hlines, ⟨h, hparsed, hnamed⟩, fun s' hs' h' hh' hnamed' => ?_⟩,
        by rw [valueStart, hblank]⟩
      -- a line with the name starts with it, and the search would have stopped there
      have hmem' : s' ∈ blockLines str := by
        rw [hlines]
        exact List.mem_append_left _ hs'
      have hstarts := ((p.named_iff hne hmem' hh').1 hnamed').strncaseeq (p.starts s' hmem')
      simpa [hstarts] using hbefore s' hs'

end Agree

/-- For every accepted block and every name, the search agrees with the parser if and only if the first
line that starts with the name is one with the name, or no line is. -/
theorem httpHeaderFind_iff (stack : Bytes → Bytes) {headers name : CString} {msg : HttpMsg} (hne : name.bytes ≠ [])
    (hcolon : 0x3A ∉ name.bytes) (h : httpMsgParseHeaders stack httpMsgInit headers.bytes = some (1, msg)) :
    FindsParsed stack name.bytes headers.bytes msg ↔ FindsNamed name.bytes headers.bytes := by
  obtain ⟨hs, p, rfl⟩ := parsed_blockLines h
  have hmsg : ({ httpMsgInit with headers := hs.reverse ++ httpMsgInit.headers } : HttpMsg).headers = hs.reverse :=
    List.append_nil _
  have hfind := httpHeaderFind_eq name.bytes headers.bytes
  unfold FindsNamed
  cases hfirst : (blockLines headers.bytes).find? (strncaseeq · name.bytes name.bytes.length) with
  | none =>
    rw [hfirst] at hfind
    rw [found_iff_of_eq_none p hmsg hne hfind]
    refine iff_of_true (fun s hs hname => ?_) trivial
    have hnot := List.find?_eq_none.1 hfirst s hs
    exact hnot (hname.strncaseeq (p.starts s hs))
  | some s =>
    simp only
    cases hvalue : colonValue (skipSpace (s.drop name.bytes.length)) with
    | none =>
      rw [hfirst, Option.bind_some, hvalue] at hfind
      rw [if_neg (colonValue_eq_none_iff.1 hvalue), found_iff_of_eq_none p hmsg hne hfind]
    | some value =>
      have hhead : (skipSpace (s.drop name.bytes.length)).head? = some 0x3A := by
        by_contra hhead
        rw [colonValue_eq_none_iff.2 hhead] at hvalue
        cases hvalue
      rw [if_pos hhead]
      exact finds_iff_of_eq_some p hmsg hne hcolon hfirst hvalue

def hostName : CString := ⟨text "Host", by decide⟩
def hostValue : CString := ⟨text "y", by decide⟩
def hostHeader : HttpHeader := ⟨hostName, some hostValue⟩
def acceptHeader : HttpHeader := ⟨⟨text "Accept", by decide⟩, some ⟨text "a", by decide⟩⟩
def hostBlock : CString := ⟨text "Accept: a\r\nhost: y\r\nHost: z\r\n\r\n", by decide⟩

/-- A block with the header in its second line, in lower case, and another one behind it. -/
theorem httpHeaderFind_host :
    FindsParsed (fun _ => []) hostName.bytes hostBlock.bytes
      { httpMsgInit with headers := [⟨hostName, some ⟨text "z", by decide⟩⟩, ⟨⟨text "host", by decide⟩, some hostValue⟩,
        acceptHeader] } := by
  refine (httpHeaderFind_iff _ (by decide) (by decide) (by decide)).2 ?_
  have hfirst : (blockLines hostBlock.bytes).find? (strncaseeq · hostName.bytes hostName.bytes.length) =
      some (text "host: y\r\nHost: z\r\n\r\n") := by
    decide +kernel
  have hcolon : (skipSpace ((text "host: y\r\nHost: z\r\n\r\n").drop hostName.bytes.length)).head? = some 0x3A := by decide
  rw [FindsNamed, hfirst]
  simp only [if_pos hcolon]
  exact ⟨⟨by decide, by decide, Or.inl ⟨text "Hos", 0x74, by decide, by decide⟩⟩, by decide⟩

def hostnameHeader : HttpHeader := ⟨⟨text "Hostname", by decide⟩, some ⟨text "other", by decide⟩⟩
def hostnameBlock : CString := ⟨text "Hostname: other\r\nHost: y\r\n\r\n", by decide⟩

/-- A header in front of it with a name that starts with its name hides the header. -/
theorem httpHeaderFind_hostname :
    ¬ ∀ (stack : Bytes → Bytes) (headers name : CString) (msg : HttpMsg), name.bytes ≠ [] →
    0x3A ∉ name.bytes → (∀ c ∈ name.bytes, isspace c = false) →
    httpMsgParseHeaders stack httpMsgInit headers.bytes =
        some (1, msg) → FindsParsed stack name.bytes headers.bytes msg := by
  intro h
  have hfinds :=
    h (fun _ => []) hostnameBlock hostName (httpMsgAddHeader (httpMsgAddHeader httpMsgInit hostnameHeader) hostHeader)
    (by decide) (by decide) (by decide) (by decide)
  have hsome := hfinds.found_iff.2 ⟨hostHeader, List.mem_cons_self .., rfl⟩
  exact absurd hsome (by decide)

end CMx
