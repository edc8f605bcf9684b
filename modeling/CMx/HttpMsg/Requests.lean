/-
Any string parsed as a request. The fields of the first line are searched for in the whole string, so
they are not there or come from behind that line; the header lines are read one by one up to a blank
line or to the first without a colon.
-/
import CMx.HttpMsg.Parse

namespace CMx

open Mqtt (Bytes CString)

/-! ## The lines of a message -/

/-- The lines behind the first, up to the blank line. -/
def headLines (str : Bytes) : List Bytes := ((Search.parts httpLineEnd str).drop 1).takeWhile (· ≠ [])

instance (str : Bytes) : Decidable (IsWord str) :=
  decidable_of_iff (str ≠ [] ∧ ∀ c ∈ str, isgraph c = true) ⟨fun h => ⟨h.1, h.2⟩, fun h => ⟨h.nonempty, h.graph⟩⟩

/-- What is between the spaces of a line. -/
def spaceWords (line : Bytes) : List Bytes := (Search.parts [0x20] line).filter (· ≠ [])

def ThreeWords (line : Bytes) : Prop := (spaceWords line).length = 3 ∧ ∀ w ∈ spaceWords line, IsWord w

instance (line : Bytes) : Decidable (ThreeWords line) := inferInstanceAs (Decidable (_ ∧ _))

/-- A line at which the trimming of its name and of its value stops: it has a name, and something
printable apart from its first colon. -/
def TrimsInside (line : Bytes) : Prop :=
  lineName (skipSpace line) ≠ [] ∧ (HasGraph (lineName (skipSpace line)) ∨ HasGraph (lineValue (skipSpace line)))

instance (str : Bytes) : Decidable (HasGraph str) := inferInstanceAs (Decidable (∃ c ∈ str, isgraph c = true))
instance (line : Bytes) : Decidable (TrimsInside line) := inferInstanceAs (Decidable (_ ∧ _))

/-! ## The trimming of a line -/

theorem xstrrtrimFront_eq_none_iff : ∀ {front : Bytes}, xstrrtrimFront front = none ↔ ¬ HasGraph front
  | [] => by simp [xstrrtrimFront, HasGraph]
  | c :: front => by
    have ih := @xstrrtrimFront_eq_none_iff front
    by_cases hc : isgraph c = true
    · simp [xstrrtrimFront, HasGraph, hc]
    · simp only [HasGraph] at ih
      simp [xstrrtrimFront, HasGraph, hc, ih]

/-- A line with a name is trimmed unless there is nothing printable in it, nor in front of it. -/
theorem httpParseLine_eq_none_iff {stack name value : Bytes} (hname : name ≠ []) :
    httpParseLine stack name value = none ↔ ¬ (HasGraph value ∨ HasGraph name ∨ HasGraph stack) := by
  obtain ⟨c, cs, rfl⟩ := List.exists_cons_of_ne_nil hname
  obtain ⟨str, junk, rfl, -, hjunk, htrim⟩ := exists_rtrim c cs
  rw [httpParseLine_cons stack value htrim, Option.map_eq_none_iff]
  by_cases hvalue : HasGraph value
  · rw [xstrrtrim_cons _ fun he => xstrltrim_eq_nil_iff.1 he hvalue]
    simp [hvalue]
  · have hskipped : ∀ c ∈ value.takeWhile fun ch => !isgraph ch, isgraph c = false := fun c hc => by
      simpa using List.mem_takeWhile_imp hc
    have hfront : HasGraph ((c :: str).reverse ++ stack) ↔ HasGraph (c :: (str ++ junk)) ∨ HasGraph stack := by
      constructor
      · rintro ⟨d, hd, hgraph⟩
        rw [List.mem_append, List.mem_reverse] at hd
        rcases hd with hd | hd
        · exact Or.inl ⟨d, by rw [← List.cons_append]; exact List.mem_append_left _ hd, hgraph⟩
        · exact Or.inr ⟨d, hd, hgraph⟩
      · rintro (⟨d, hd, hgraph⟩ | ⟨d, hd, hgraph⟩)
        · rw [← List.cons_append, List.mem_append] at hd
          refine ⟨d, List.mem_append_left _ (List.mem_reverse.2 (hd.resolve_right fun hm => ?_)), hgraph⟩
          rw [hjunk d hm] at hgraph
          cases hgraph
        · exact ⟨d, List.mem_append_right _ hd, hgraph⟩
    rw [xstrltrim_eq_nil_iff.2 hvalue, xstrrtrim_blank hskipped, Option.map_eq_none_iff, xstrrtrimFront_eq_none_iff,
      hfront]
    simp [hvalue]

/-- Such a line is parsed whatever is in front of it. -/
theorem TrimsInside.parses {line : Bytes} (h : TrimsInside line) (stack : Bytes) :
    ∃ header, httpParseLine stack (lineName (skipSpace line)) (lineValue (skipSpace line)) = some header := by
  rw [← Option.ne_none_iff_exists']
  intro hnone
  rw [httpParseLine_eq_none_iff h.1] at hnone
  rcases h.2 with hgraph | hgraph
  · exact hnone (Or.inr (Or.inl hgraph))
  · exact hnone (Or.inl hgraph)

/-- The trimming of any other line goes on in front of it. -/
theorem httpParseLine_outside {line : Bytes} (h : ¬ TrimsInside line) :
    httpParseLine [] (lineName (skipSpace line)) (lineValue (skipSpace line)) = none := by
  by_cases hname : lineName (skipSpace line) = []
  · rw [hname]
    rfl
  · rw [httpParseLine_eq_none_iff hname]
    rintro (hgraph | hgraph | ⟨c, hc, -⟩)
    · exact h ⟨hname, Or.inr hgraph⟩
    · exact h ⟨hname, Or.inl hgraph⟩
    · cases hc

/-! ## The lines of the headers -/

theorem exists_lineEnd {str : Bytes} (h : Ends str) : ∃ e, strstr str httpLineEnd = some e :=
  Option.isSome_iff_exists.1 (Search.find_isSome_iff.2 h.lineEnd)

theorem parts_lineText {str e : Bytes} (h : strstr str httpLineEnd = some e) :
    Search.parts httpLineEnd str = lineText str :: Search.parts httpLineEnd (e.drop httpLineEnd.length) := by
  have hne : httpLineEnd ≠ [] := List.cons_ne_nil _ _
  rw [Search.parts_of_find hne h, lineText, lineEnd_eq h]

theorem lineText_append {str e : Bytes} (h : strstr str httpLineEnd = some e) : lineText str ++ e = str := by
  obtain ⟨front, rfl⟩ := (Search.find_spec h).2
  rw [lineText, lineEnd_eq h, List.length_append, Nat.add_sub_cancel, List.take_left' rfl]

theorem lineText_of_none {str : Bytes} (h : strstr str httpLineEnd = none) : lineText str = str := by
  rw [lineText, lineEnd, h]
  exact List.take_length

/-- There is no line end in a line. -/
theorem strstr_lineText {str e : Bytes} (h : strstr str httpLineEnd = some e) :
    strstr (lineText str) httpLineEnd = none := by
  rw [strstr, ← Option.not_isSome_iff_eq_none, Option.isSome_iff_exists]
  rintro ⟨found, hfound⟩
  have hwhole := Search.find_append e hfound
  rw [lineText_append h] at hwhole
  have hlen := congrArg List.length (Option.some.inj (h.symm.trans hwhole))
  have hle := (Search.find_spec hfound).1.length_le
  simp only [List.length_append, httpLineEnd, List.length_cons, List.length_nil] at hlen hle
  omega

theorem lineText_skipSpace {str e : Bytes} (h : strstr str httpLineEnd = some e) :
    strstr (skipSpace str) httpLineEnd = some e ∧ lineText (skipSpace str) = skipSpace (lineText str) ∧
      lineText (skipSpace (lineText str)) = skipSpace (lineText str) := by
  have hfront : 0x0D ∉ str.takeWhile (httpWhitespaceChars.contains ·) :=
    fun hm => absurd (List.mem_takeWhile_imp hm) (by decide)
  have hsplit := List.takeWhile_append_dropWhile (p := (httpWhitespaceChars.contains ·)) (l := str)
  have hfind : strstr (skipSpace str) httpLineEnd = some e := by
    rw [← h, strstr, strstr]
    conv_rhs => rw [← hsplit, httpLineEnd, Search.find_skip _ hfront]
    rfl
  have hskip : skipSpace str = skipSpace (lineText str) ++ e := by
    obtain ⟨rest, hrest⟩ := (Search.find_spec h).1
    have hblank : skipSpace e = e := by
      rw [← hrest]
      rfl
    conv_lhs => rw [← lineText_append h]
    unfold skipSpace at hblank ⊢
    rw [List.dropWhile_append, hblank]
    split
    · rename_i hnil
      rw [List.isEmpty_iff.1 hnil]
      rfl
    · rfl
  refine ⟨hfind, ?_, ?_⟩
  · have happend := lineText_append hfind
    rw [hskip] at happend
    rw [hskip]
    exact List.append_cancel_right happend
  · refine lineText_of_none ?_
    have hnone := strstr_lineText h
    rw [strstr, Search.find_eq_none_iff] at hnone ⊢
    exact fun hoccurs => hnone (hoccurs.trans (List.dropWhile_suffix _).isInfix)

/-- What the loop does with a line. -/
theorem httpMsgParseHeadersLoop_succ (stack : Bytes → Bytes) (rounds : Nat) (self : HttpMsg) {str e : Bytes}
    (h : strstr str httpLineEnd = some e) :
    httpMsgParseHeadersLoop stack (rounds + 1) self str =
      if skipSpace (lineText str) = [] then some (1, self)
      else if 0x3A ∉ lineText str then some (-1, self)
      else
        (httpParseLine (stack (skipSpace str)) (lineName (skipSpace (lineText str)))
          (lineValue (skipSpace (lineText str)))).bind fun header =>
            httpMsgParseHeadersLoop stack rounds (httpMsgAddHeader self header) (e.drop httpLineEnd.length) := by
  obtain ⟨hfind, htext, hagain⟩ := lineText_skipSpace h
  have hspace : str.drop (xstrSpaceLen str httpWhitespaceChars) = skipSpace str := drop_xstrSpaceLen ..
  have happend := lineText_append hfind
  rw [htext] at happend
  -- the source takes the length of a line by pointers, up to its end
  have hlen : (skipSpace str).length - e.length = (skipSpace (lineText str)).length := by
    rw [← happend, List.length_append, Nat.add_sub_cancel]
  have htake : (skipSpace str).take (skipSpace (lineText str)).length = skipSpace (lineText str) := by
    rw [← happend]
    exact List.take_left' rfl
  have hname : lineName (skipSpace str) = lineName (skipSpace (lineText str)) := by
    rw [lineName, lineName, htext, hagain]
  have hvalue : lineValue (skipSpace str) = lineValue (skipSpace (lineText str)) := by
    rw [lineValue, lineValue, htext, hagain]
  have hcolon : 0x3A ∈ skipSpace (lineText str) ↔ 0x3A ∈ lineText str :=
    ⟨fun hm => (List.dropWhile_suffix _).subset hm, fun hm => Search.mem_dropWhile hm rfl⟩
  rw [httpMsgParseHeadersLoop]
  simp only [hspace, hfind]
  by_cases hnil : skipSpace (lineText str) = []
  · rw [if_pos hnil, if_pos (by rw [hlen, hnil]; rfl)]
  rw [if_neg hnil, if_neg fun h0 => hnil (List.eq_nil_of_length_eq_zero (hlen.symm.trans h0))]
  by_cases hmem : 0x3A ∈ lineText str
  · rw [if_neg (not_not.2 hmem)]
    cases hchr : strchr ((skipSpace str).take ((skipSpace str).length - e.length)) 0x3A with
    | none =>
      rw [hlen, htake, strchr_eq, if_pos (hcolon.2 hmem)] at hchr
      cases hchr
    | some colon =>
      obtain ⟨-, hfront, hback⟩ := startsLine hfind hchr
      simp only [hfront, hback, hname, hvalue]
      rfl
  · rw [if_pos hmem, hlen, htake, strchr_eq, if_neg fun hm => hmem (hcolon.1 hm)]

/-- What the lines of the headers come to: a line of blanks ends them like the blank line. -/
def linesResult : List Bytes → Option Int
  | [] => some 1
  | line :: lines =>
    if skipSpace line = [] then some 1
    else if 0x3A ∉ line then some (-1)
    else if TrimsInside line then linesResult lines
    else none

theorem linesResult_ret : ∀ {lines : List Bytes} {ret : Int}, linesResult lines = some ret → ret = 1 ∨ ret = -1
  | [], ret, h => Or.inl (Option.some.inj h).symm
  | line :: lines, ret, h => by
    rw [linesResult] at h
    split_ifs at h
    · exact Or.inl (Option.some.inj h).symm
    · exact linesResult_ret h
    · exact Or.inr (Option.some.inj h).symm

/-- A run of a parser has a result whatever is in front of the copies of the lines, or it has none
when nothing is there. -/
def Gives (run : (Bytes → Bytes) → Option (Int × HttpMsg)) : Option Int → Prop
  | none => run (fun _ => []) = none
  | some ret => ∀ stack, ∃ msg, run stack = some (ret, msg)

/-- A test at which the parser stops. -/
theorem Gives.test {p q : Prop} [Decidable p] [Decidable q] {self : HttpMsg} {ret : Int}
    {run : (Bytes → Bytes) → Option (Int × HttpMsg)} {result : Option Int} (h : p ↔ q) (hrun : ¬ q → Gives run result) :
    Gives (fun stack => if p then some (ret, self) else run stack) (if q then some ret else result) := by
  by_cases hq : q
  · simp only [if_pos hq, if_pos (h.2 hq)]
    exact fun stack => ⟨self, rfl⟩
  · simp only [if_neg hq, if_neg (mt h.1 hq)]
    exact hrun hq

/-- A pointer that may be null. -/
theorem Gives.pointer {q : Prop} [Decidable q] {found : Option Bytes} {str : Bytes}
    {run : (Bytes → Bytes) → Bytes → Option (Int × HttpMsg)} {result : Option Int}
    (h : found = if q then some str else none) (hrun : q → Gives (fun stack => run stack str) result) :
    Gives (fun stack => found.bind (run stack)) (if ¬ q then none else result) := by
  by_cases hq : q
  · rw [if_neg (not_not.2 hq), h, if_pos hq]
    exact hrun hq
  · rw [if_pos hq, h, if_neg hq]
    rfl

theorem httpMsgParseHeadersLoop_gives : ∀ {rounds : Nat} (self : HttpMsg) {str : Bytes},
    Ends str → str.length ≤ rounds →
      Gives (fun stack => httpMsgParseHeadersLoop stack rounds self str)
        (linesResult ((Search.parts httpLineEnd str).takeWhile (· ≠ [])))
  | 0, self, str, hends, h => by
    obtain rfl := List.eq_nil_of_length_eq_zero (Nat.le_zero.1 h)
    exact absurd hends.mem List.not_mem_nil
  | rounds + 1, self, str, hends, h => by
    obtain ⟨e, hfind⟩ := exists_lineEnd hends
    have hloop := fun stack => httpMsgParseHeadersLoop_succ stack rounds self hfind
    simp only [parts_lineText hfind, hloop]
    by_cases hempty : lineText str = []
    · rw [List.takeWhile_cons_of_neg (by simpa using hempty), hempty]
      exact fun stack => ⟨self, rfl⟩
    rw [List.takeWhile_cons_of_pos (by simpa using hempty), linesResult]
    refine Gives.test Iff.rfl fun _ => ?_
    refine Gives.test Iff.rfl fun _ => ?_
    by_cases htrims : TrimsInside (lineText str)
    · rw [if_pos htrims]
      -- the line is not empty, so the blank line is behind it
      have hheaders : httpHeadersEnd <:+: str := by
        refine hends.resolve_left fun hp => hempty ?_
        rw [strstr, Search.find_here hp] at hfind
        cases hfind
        rw [lineText, lineEnd, strstr, Search.find_here hp]
        simp
      have hle : (e.drop httpLineEnd.length).length ≤ rounds := by
        have hpos := (Search.find_spec hfind).1.length_le
        have hsuffix := (Search.find_spec hfind).2.length_le
        rw [List.length_drop]
        simp only [httpLineEnd, List.length_cons, List.length_nil] at hpos ⊢
        omega
      have ih := fun self => httpMsgParseHeadersLoop_gives self (ends_behind hheaders hfind) hle
      generalize linesResult _ = result at ih ⊢
      cases result with
      | none =>
        obtain ⟨header, hheader⟩ := htrims.parses []
        show Option.bind _ _ = none
        rw [hheader]
        exact ih _
      | some ret =>
        intro stack
        obtain ⟨header, hheader⟩ := htrims.parses (stack (skipSpace str))
        show ∃ msg, Option.bind _ _ = some (ret, msg)
        rw [hheader]
        exact ih _ stack
    · rw [if_neg htrims]
      show Option.bind _ _ = none
      rw [httpParseLine_outside htrims]
      rfl

/-! ## The fields of the first line -/

/-- The text from the first printable character behind the first space on. -/
def behindSpace (str : Bytes) : Bytes := xstrltrim (str.dropWhile (· ≠ 0x20))

/-- Where the fields are looked for; nothing is left of a field that is not there. -/
def firstField (str : Bytes) : Bytes := xstrltrim str
def secondField (str : Bytes) : Bytes := behindSpace (firstField str)
def thirdField (str : Bytes) : Bytes := behindSpace (secondField str)

theorem httpViewParse_eq {str : Bytes} (h : httpHeadersEnd <:+: str) : ∃ body,
    httpViewParse str = some ⟨firstField str, (strchr (firstField str) 0x20).map xstrltrim,
      (((strchr (firstField str) 0x20).map xstrltrim).bind (strchr · 0x20)).map xstrltrim,
      (lineEnd str).drop httpLineEnd.length, body⟩ := by
  obtain ⟨headersEnd, hend⟩ : ∃ headersEnd, strstr str httpHeadersEnd = some headersEnd :=
    Option.isSome_iff_exists.1 (Search.find_isSome_iff.2 h)
  obtain ⟨e, hfind⟩ := exists_lineEnd (Or.inr h)
  refine ⟨headersEnd.drop httpHeadersEnd.length, ?_⟩
  rw [httpViewParse, hend, hfind, lineEnd_eq hfind]
  rfl

theorem map_strchr (str : Bytes) :
    (strchr str 0x20).map xstrltrim = if 0x20 ∈ str then some (behindSpace str) else none := by
  rw [strchr_eq]
  split
  · rfl
  · rfl

/-- A field that is trimmed starts with a word, if anything is left of it. -/
theorem xstrWordLen_xstrltrim (str : Bytes) : xstrWordLen (xstrltrim str) = 0 ↔ xstrltrim str = [] := by
  have hhead := List.head?_dropWhile_not (fun ch : UInt8 => !isgraph ch) str
  rw [xstrWordLen, List.length_eq_zero_iff]
  unfold xstrltrim at hhead ⊢
  cases hdrop : str.dropWhile fun ch => !isgraph ch with
  | nil => simp
  | cons c rest =>
    rw [hdrop] at hhead
    have hc : isgraph c = true := by simpa using hhead
    simp [hc]

/-- What a text with a blank line comes to. -/
def requestResult (str : Bytes) : Option Int :=
  if firstField str = [] then some (-1)
  else if 0x20 ∉ firstField str then none
  else if secondField str = [] then some (-1)
  else if 0x20 ∉ secondField str then none
  else if thirdField str = [] then some (-1)
  else linesResult (headLines str)

theorem httpMsgParseRest_gives {self : HttpMsg} {view : HttpView} {result : Option Int}
    (h : Gives (fun stack => httpMsgParseHeaders stack self view.headers) result) :
    Gives (fun stack => httpMsgParseRest stack self view) result := by
  cases result with
  | none =>
    show Option.bind _ _ = none
    rw [show httpMsgParseHeaders (fun _ => []) self view.headers = none from h]
    rfl
  | some ret =>
    intro stack
    obtain ⟨msg, hmsg⟩ : ∃ msg, httpMsgParseHeaders stack self view.headers = some (ret, msg) := h stack
    show ∃ msg, Option.bind _ _ = some (ret, msg)
    rw [hmsg, Option.bind_some]
    rcases httpMsgParseHeadersLoop_ret hmsg with rfl | rfl
    · simp only [if_neg (show ¬ (1 : Int) < 0 by decide)]
      split
      · exact ⟨_, rfl⟩
      · exact ⟨_, rfl⟩
    · exact ⟨msg, rfl⟩

theorem httpMsgParseRequest_gives {str : Bytes} (h : httpHeadersEnd <:+: str) :
    Gives (fun stack => httpMsgParseRequest stack httpMsgInit str) (requestResult str) := by
  obtain ⟨body, hview⟩ := httpViewParse_eq h
  obtain ⟨e, hfind⟩ := exists_lineEnd (Or.inr h)
  unfold httpMsgParseRequest requestResult
  simp only [hview]
  refine Gives.test (xstrWordLen_xstrltrim _) fun _ => ?_
  refine Gives.pointer (map_strchr _) fun hspace => ?_
  refine Gives.test (xstrWordLen_xstrltrim _) fun _ => ?_
  rw [map_strchr, if_pos hspace, Option.bind_some]
  refine Gives.pointer (map_strchr _) fun _ => ?_
  refine Gives.test (xstrWordLen_xstrltrim _) fun _ => ?_
  refine httpMsgParseRest_gives ?_
  rw [headLines, parts_lineText hfind, lineEnd_eq hfind]
  exact httpMsgParseHeadersLoop_gives _ (ends_behind h hfind) (le_refl _)

/-! ## Requests that are answered -/

/-- What the parser is to answer for a text, whatever is in front of the copies of its lines, so
also when nothing there can be read. -/
structure RequestAnswer (str : Bytes) (ret : Int) : Prop where
  returns : ∀ stack, ∃ msg, httpMsgParseRequest stack httpMsgInit str = some (ret, msg)
  moreNeeded : ret = 0 ↔ ¬ httpHeadersEnd <:+: str
  accepts : ret = 1 → ThreeWords (lineText str) ∧ ∀ line ∈ headLines str, 0x3A ∈ line
  otherwise : ret = 0 ∨ ret = 1 ∨ ret = -1

/-- The texts with a blank line that get such an answer. The first and the second field, where they are
there, have a space behind them. Where the third is there too, the lines in front of the first without a
colon are trimmed inside, that one is not of blanks, and if all have a colon, the first line has three words. -/
structure RequestFits (str : Bytes) : Prop where
  uri : firstField str ≠ [] → 0x20 ∈ firstField str
  version : secondField str ≠ [] → 0x20 ∈ secondField str
  trims : thirdField str ≠ [] → ∀ line ∈ (headLines str).takeWhile (0x3A ∈ ·), TrimsInside line
  stops : thirdField str ≠ [] → ∀ line, (headLines str).find? (0x3A ∉ ·) = some line → skipSpace line ≠ []
  words : thirdField str ≠ [] → (∀ line ∈ headLines str, 0x3A ∈ line) → ThreeWords (lineText str)

/-- The lines come to a result, and to 1 only if all of them have a colon and `p` holds. -/
theorem linesResult_iff {p : Prop} : ∀ {lines : List Bytes},
    (∃ ret, linesResult lines = some ret ∧ (ret = 1 → p ∧ ∀ line ∈ lines, 0x3A ∈ line)) ↔
      (∀ line ∈ lines.takeWhile (0x3A ∈ ·), TrimsInside line) ∧
        (∀ line, lines.find? (0x3A ∉ ·) = some line → skipSpace line ≠ []) ∧
          ((∀ line ∈ lines, 0x3A ∈ line) → p)
  | [] => by simp [linesResult]
  | line :: lines => by
    have ih := @linesResult_iff p lines
    rw [linesResult]
    by_cases hcolon : 0x3A ∈ line
    · have hblank : skipSpace line ≠ [] := List.ne_nil_of_mem (Search.mem_dropWhile hcolon rfl)
      rw [if_neg hblank, if_neg (not_not.2 hcolon)]
      by_cases htrims : TrimsInside line
      · simpa [hcolon, htrims] using ih
      · simp [hcolon, htrims]
    · by_cases hblank : skipSpace line = []
      · simp [hcolon, hblank]
      · simp [hcolon, hblank]

theorem requestResult_ret {str : Bytes} {ret : Int} (h : requestResult str = some ret) : ret = 1 ∨ ret = -1 := by
  unfold requestResult at h
  split at h
  · exact Or.inr (Option.some.inj h).symm
  split at h
  · cases h
  split at h
  · exact Or.inr (Option.some.inj h).symm
  split at h
  · cases h
  split at h
  · exact Or.inr (Option.some.inj h).symm
  · exact linesResult_ret h

theorem exists_requestAnswer_iff {str : Bytes} (h : httpHeadersEnd <:+: str) :
    (∃ ret, RequestAnswer str ret) ↔
      ∃ ret, requestResult str = some ret ∧
        (ret = 1 → ThreeWords (lineText str) ∧ ∀ line ∈ headLines str, 0x3A ∈ line) := by
  have hgives := httpMsgParseRequest_gives h
  constructor
  · rintro ⟨ret, hanswer⟩
    obtain ⟨msg, hmsg⟩ := hanswer.returns fun _ => []
    cases hresult : requestResult str with
    | none =>
      rw [hresult] at hgives
      have hnone : httpMsgParseRequest (fun _ => []) httpMsgInit str = none := hgives
      rw [hnone] at hmsg
      cases hmsg
    | some result =>
      rw [hresult] at hgives
      obtain ⟨msg', hmsg'⟩ : ∃ msg, httpMsgParseRequest (fun _ => []) httpMsgInit str = some (result, msg) := hgives _
      rw [hmsg] at hmsg'
      cases hmsg'
      exact ⟨ret, rfl, hanswer.accepts⟩
  · rintro ⟨ret, hresult, haccepts⟩
    rw [hresult] at hgives
    have hret := requestResult_ret hresult
    refine ⟨ret, hgives, ⟨fun h0 => ?_, fun hno => absurd h hno⟩, haccepts, Or.inr hret⟩
    rcases hret with rfl | rfl
    · cases h0
    · cases h0

section Result

variable {p q : Prop} [Decidable q] {result : Option Int}

theorem exists_test_iff : (∃ ret, (if q then some (-1) else result) = some ret ∧ (ret = 1 → p)) ↔
    (¬ q → ∃ ret, result = some ret ∧ (ret = 1 → p)) := by
  by_cases hq : q
  · rw [if_pos hq]
    refine iff_of_true ⟨-1, rfl, fun h1 => ?_⟩ (absurd hq)
    cases h1
  · rw [if_neg hq]
    exact ⟨fun h _ => h, fun h => h hq⟩

theorem exists_pointer_iff : (∃ ret, (if ¬ q then none else result) = some ret ∧ (ret = 1 → p)) ↔
    q ∧ ∃ ret, result = some ret ∧ (ret = 1 → p) := by
  by_cases hq : q
  · rw [if_neg (not_not.2 hq)]
    exact (and_iff_right hq).symm
  · rw [if_pos hq]
    refine iff_of_false ?_ fun h => hq h.1
    rintro ⟨ret, hnone, -⟩
    cases hnone

end Result

theorem requestResult_iff {str : Bytes} :
    (∃ ret, requestResult str = some ret ∧
      (ret = 1 → ThreeWords (lineText str) ∧ ∀ line ∈ headLines str, 0x3A ∈ line)) ↔ RequestFits str := by
  have hfirst : secondField str ≠ [] → firstField str ≠ [] := fun hne hnil => hne (by rw [secondField, hnil]; rfl)
  have hsecond : thirdField str ≠ [] → secondField str ≠ [] := fun hne hnil => hne (by rw [thirdField, hnil]; rfl)
  rw [requestResult, exists_test_iff, exists_pointer_iff, exists_test_iff, exists_pointer_iff, exists_test_iff,
    linesResult_iff]
  constructor
  · intro h
    have huri := fun hne => (h (hfirst hne)).2 hne
    have hversion := fun hne => (huri (hsecond hne)).2 hne
    exact ⟨fun hne => (h hne).1, fun hne => (huri hne).1, fun hne => (hversion hne).1,
      fun hne => (hversion hne).2.1, fun hne => (hversion hne).2.2⟩
  · intro hfits hne
    refine ⟨hfits.uri hne, fun hne => ⟨hfits.version hne, fun hne => ?_⟩⟩
    exact ⟨hfits.trims hne, hfits.stops hne, hfits.words hne⟩

/-- For every string: the parser answers it as it is to if and only if there is no blank line in it, or
it is one of the texts that fit. -/
theorem requestAnswer_iff (str : CString) :
    (∃ ret, RequestAnswer str.bytes ret) ↔ (httpHeadersEnd <:+: str.bytes → RequestFits str.bytes) := by
  by_cases h : httpHeadersEnd <:+: str.bytes
  · rw [exists_requestAnswer_iff h, requestResult_iff]
    exact ⟨fun hfits _ => hfits, fun hfits => hfits h⟩
  · refine iff_of_true ⟨0, fun stack => ⟨httpMsgInit, ?_⟩, iff_of_true rfl h, fun h1 => ?_, Or.inl rfl⟩
      fun hoccurs => absurd hoccurs h
    · rw [httpMsgParseRequest, httpViewParse_eq_none_iff.2 h]
    · cases h1

/-- A text of a single word, with a null pointer for its URI. -/
theorem requestAnswer_oneWord : ¬ ∀ str : CString, ∃ ret, RequestAnswer str.bytes ret := by
  intro h
  obtain ⟨ret, hanswer⟩ := h ⟨text "GET\r\n\r\n", by decide⟩
  obtain ⟨msg, hmsg⟩ := hanswer.returns fun _ => []
  have hcrash : httpMsgParseRequest (fun _ => []) httpMsgInit (text "GET\r\n\r\n") = none := by decide
  rw [hcrash] at hmsg
  cases hmsg

/-- The version is taken from behind the header's name. -/
example :
    (httpMsgParseRequest (fun _ => []) httpMsgInit (text "GET /\r\nHost: y z\r\n\r\n")).map Prod.fst = some 1 := by
  decide

end CMx
