/-
The views of HTTP messages in `http.c`, each a part of the string that it is a view of.
-/
import CMx.Strings
import CMx.Mqtt.Body

namespace CMx

open Mqtt (Bytes)

/-! ## Messages -/

def httpWhitespaceChars : Bytes := [0x20, 0x09]
def httpLineEnd : Bytes := [0x0D, 0x0A]
def httpHeadersEnd : Bytes := [0x0D, 0x0A, 0x0D, 0x0A]

/-- The parts of a message; a view of a request has its method, URI and version in front of the
headers, a view of a response its version, status and reason. -/
structure HttpView where
  methver : Bytes
  uristatus : Option Bytes
  verreas : Option Bytes
  headers : Bytes
  body : Bytes
  deriving DecidableEq, Repr

def httpViewParse (buffer : Bytes) : Option HttpView := do
  let headersEnd ← strstr buffer httpHeadersEnd
  let lineEnd ← strstr buffer httpLineEnd
  let first := xstrltrim buffer
  let second := (strchr first 0x20).map xstrltrim
  let third := (second.bind (strchr · 0x20)).map xstrltrim
  return ⟨first, second, third, lineEnd.drop httpLineEnd.length, headersEnd.drop httpHeadersEnd.length⟩

/-- The loop of `http_header_find`, at most `rounds` times: the line with the header, and its value. -/
def httpHeaderFindLoop (name : Bytes) : (rounds : Nat) → (lineStart : Bytes) → Option (Bytes × Bytes)
  | 0, _ => none
  | rounds + 1, lineStart =>
    let lineStart := lineStart.drop (xstrSpaceLen lineStart httpWhitespaceChars)
    match strstr lineStart httpLineEnd with
    | none => none
    | some lineEnd =>
      if lineStart.length - lineEnd.length = 0 then none
      else if strncaseeq lineStart name name.length then
        let colon := lineStart.drop name.length
        let colon := colon.drop (xstrSpaceLen colon httpWhitespaceChars)
        if colon.head? ≠ some 0x3A then none
        else
          let value := colon.drop 1
          some (lineStart, value.drop (xstrSpaceLen value httpWhitespaceChars))
      else httpHeaderFindLoop name rounds (lineEnd.drop httpLineEnd.length)

/-- Every round takes a line end off the string, so its length bounds the rounds. -/
def httpHeaderFind (headers name : Bytes) : Option (Bytes × Bytes) := httpHeaderFindLoop name headers.length headers

/-! ## Strings that are long enough -/

theorem drop_xstrSpaceLen (str spaceChars : Bytes) :
    str.drop (xstrSpaceLen str spaceChars) = str.dropWhile (spaceChars.contains ·) := by
  have hsplit := List.takeWhile_append_dropWhile (p := (spaceChars.contains ·)) (l := str)
  calc str.drop (xstrSpaceLen str spaceChars)
      = (str.takeWhile (spaceChars.contains ·) ++ str.dropWhile (spaceChars.contains ·)).drop
          (xstrSpaceLen str spaceChars) := by rw [hsplit]
    _ = str.dropWhile (spaceChars.contains ·) := List.drop_left' rfl

/-- The word at the front of a string. -/
def word (str : Bytes) : Bytes := str.takeWhile isgraph

theorem take_xstrWordLen (str : Bytes) : str.take (xstrWordLen str) = word str := by
  have hsplit := List.takeWhile_append_dropWhile (p := isgraph) (l := str)
  calc str.take (xstrWordLen str) = (str.takeWhile isgraph ++ str.dropWhile isgraph).take (xstrWordLen str) := by rw [hsplit]
    _ = word str := List.take_left' rfl

theorem word_append {str : Bytes} (h : 0x0D ∈ str) (rest : Bytes) : word (str ++ rest) = word str :=
  Search.takeWhile_append_of_stop ⟨0x0D, h, rfl⟩ rest

/-- The text behind the white space at its front. -/
def skipSpace (str : Bytes) : Bytes := str.dropWhile (httpWhitespaceChars.contains ·)

theorem skipSpace_append {str : Bytes} (h : 0x0D ∈ str) (rest : Bytes) : skipSpace (str ++ rest) = skipSpace str ++ rest :=
  Search.dropWhile_append_of_stop ⟨0x0D, h, rfl⟩ rest

theorem mem_skipSpace {str : Bytes} (h : 0x0D ∈ str) : 0x0D ∈ skipSpace str := Search.mem_dropWhile h rfl

/-- A comparison with a name ends at the end of the line. -/
theorem strncaseeq_append {str name : Bytes} (h : 0x0D ∈ str) (hname : 0x0D ∉ name.map tolower) (rest : Bytes) :
    strncaseeq (str ++ rest) name name.length = strncaseeq str name name.length := by
  unfold strncaseeq
  by_cases hlen : name.length ≤ str.length
  · rw [List.take_append_of_le_length hlen]
  · have hne : ∀ more : Bytes, (str ++ more).map tolower ≠ name.map tolower := by
      intro more he
      refine hname (he ▸ List.mem_map.2 ⟨0x0D, List.mem_append_left _ h, rfl⟩)
    rw [List.take_length, List.take_append, List.take_of_length_le (by omega)]
    rw [decide_eq_false (hne _), decide_eq_false]
    intro he
    exact hne [] (by rw [List.append_nil]; exact he)

theorem mem_drop_of_strncaseeq {str name : Bytes} (h : 0x0D ∈ str) (hname : 0x0D ∉ name.map tolower)
    (heq : strncaseeq str name name.length = true) : 0x0D ∈ str.drop name.length ∧ name.length ≤ str.length := by
  have heq' : (str.take name.length).map tolower = name.map tolower := by
    simpa [strncaseeq] using heq
  have htake : 0x0D ∉ str.take name.length := fun hm => hname (heq' ▸ List.mem_map.2 ⟨0x0D, hm, rfl⟩)
  rw [← List.take_append_drop name.length str, List.mem_append] at h
  refine ⟨h.resolve_left htake, ?_⟩
  have hlen := congrArg List.length heq'
  simp only [List.length_map, List.length_take] at hlen
  omega

/-! ## Complete messages -/

/-- A text in which the header lines come to their end. -/
def Ends (str : Bytes) : Prop := httpLineEnd <+: str ∨ httpHeadersEnd <:+: str

theorem Ends.lineEnd {str : Bytes} (h : Ends str) : httpLineEnd <:+: str := by
  rcases h with h | h
  · exact h.isInfix
  · exact List.IsInfix.trans ⟨[], httpLineEnd, rfl⟩ h

theorem Ends.mem {str : Bytes} (h : Ends str) : 0x0D ∈ str := h.lineEnd.subset (List.mem_cons_self ..)

theorem Ends.skipSpace {str : Bytes} (h : Ends str) : Ends (skipSpace str) := by
  have hsplit := List.takeWhile_append_dropWhile (p := (httpWhitespaceChars.contains ·)) (l := str)
  have hfront : 0x0D ∉ str.takeWhile (httpWhitespaceChars.contains ·) :=
    fun hm => absurd (List.mem_takeWhile_imp hm) (by decide)
  rcases h with h | h
  · left
    obtain ⟨rest, rfl⟩ := h
    exact ⟨rest, rfl⟩
  · right
    rw [← Search.find_isSome_iff] at h ⊢
    rw [← hsplit] at h
    rwa [httpHeadersEnd, Search.find_skip _ hfront] at h

/-- Behind its first line, a complete text is still complete. -/
theorem ends_behind : ∀ {str lineEnd : Bytes}, httpHeadersEnd <:+: str → strstr str httpLineEnd = some lineEnd →
    Ends (lineEnd.drop httpLineEnd.length)
  | [], _, h, _ => by simp [httpHeadersEnd] at h
  | x :: xs, lineEnd, h, hfind => by
    rw [List.infix_cons_iff] at h
    by_cases hx : httpLineEnd <+: x :: xs
    · rw [strstr, Search.find_here hx] at hfind
      cases hfind
      obtain ⟨rest, hrest⟩ := hx
      obtain ⟨rfl, rfl⟩ : 0x0D = x ∧ 0x0A :: rest = xs := by simpa [httpLineEnd] using hrest
      rcases h with h | h
      · left
        simpa [httpHeadersEnd, httpLineEnd] using h
      · right
        rw [List.infix_cons_iff] at h
        exact h.resolve_left (by simp [httpHeadersEnd])
    · rw [strstr, Search.find_later hx] at hfind
      have hnot : ¬ httpHeadersEnd <+: x :: xs := fun hp => hx (List.IsPrefix.trans ⟨httpLineEnd, rfl⟩ hp)
      exact ends_behind (h.resolve_left hnot) hfind

/-- The value behind the colon of a header. -/
def colonValue : Bytes → Option Bytes
  | [] => none
  | ch :: value => if ch = 0x3A then some (skipSpace value) else none

theorem httpHeaderFindLoop_succ (name : Bytes) (rounds : Nat) (str : Bytes) :
    httpHeaderFindLoop name (rounds + 1) str =
      match strstr (skipSpace str) httpLineEnd with
      | none => none
      | some lineEnd =>
        if (skipSpace str).length - lineEnd.length = 0 then none
        else if strncaseeq (skipSpace str) name name.length then
          (colonValue (skipSpace ((skipSpace str).drop name.length))).map (skipSpace str, ·)
        else httpHeaderFindLoop name rounds (lineEnd.drop httpLineEnd.length) := by
  have hspace : ∀ t : Bytes, t.dropWhile (httpWhitespaceChars.contains ·) = skipSpace t := fun _ => rfl
  rw [httpHeaderFindLoop]
  simp only [drop_xstrSpaceLen, hspace]
  cases strstr (skipSpace str) httpLineEnd with
  | none => rfl
  | some lineEnd =>
    simp only
    split
    · rfl
    · split
      · cases skipSpace ((skipSpace str).drop name.length) with
        | nil => rfl
        | cons ch value =>
          by_cases hch : ch = 0x3A
          · simp [colonValue, hch]
          · simp [colonValue, hch]
      · rfl

theorem colonValue_append {str : Bytes} (h : 0x0D ∈ str) (rest : Bytes) :
    colonValue (str ++ rest) = (colonValue str).map (· ++ rest) := by
  cases str with
  | nil => cases h
  | cons ch value =>
    by_cases hch : ch = 0x3A
    · rw [List.mem_cons] at h
      have hmem : 0x0D ∈ value := h.resolve_left (by rw [hch]; decide)
      simp [colonValue, hch, skipSpace_append hmem]
    · simp [colonValue, hch]

theorem mem_colonValue {str value : Bytes} (h : 0x0D ∈ str) (hvalue : colonValue str = some value) : 0x0D ∈ value := by
  cases str with
  | nil => cases h
  | cons ch rest =>
    by_cases hch : ch = 0x3A
    · rw [List.mem_cons] at h
      rw [colonValue, if_pos hch] at hvalue
      cases hvalue
      exact mem_skipSpace (h.resolve_left (by rw [hch]; decide))
    · rw [colonValue, if_neg hch] at hvalue
      cases hvalue

/-- The search of a complete text has the same result when more text arrives behind it, and the
value that it finds has a line end behind it. -/
theorem httpHeaderFindLoop_append {name : Bytes} (hname : 0x0D ∉ name.map tolower) (rest : Bytes) :
    ∀ (rounds rounds' : Nat) (str : Bytes), str.length ≤ rounds → str.length ≤ rounds' → Ends str →
      httpHeaderFindLoop name rounds' (str ++ rest) =
          (httpHeaderFindLoop name rounds str).map (fun found => (found.1 ++ rest, found.2 ++ rest)) ∧
        ∀ found, httpHeaderFindLoop name rounds str = some found → 0x0D ∈ found.2
  | 0, _, str, h, _, hends => by
    obtain rfl := List.eq_nil_of_length_eq_zero (Nat.le_zero.1 h)
    simpa using hends.mem
  | rounds + 1, 0, str, _, h, hends => by
    obtain rfl := List.eq_nil_of_length_eq_zero (Nat.le_zero.1 h)
    simpa using hends.mem
  | rounds + 1, rounds' + 1, str, h, h', hends => by
    have hspace := hends.skipSpace
    have hmem := hspace.mem
    have hle : (skipSpace str).length ≤ str.length := (List.dropWhile_suffix _).length_le
    obtain ⟨lineEnd, hfind⟩ := Option.isSome_iff_exists.1 (Search.find_isSome_iff.2 hspace.lineEnd)
    have hfind' := Search.find_append rest hfind
    obtain ⟨hbegin, hsuffix⟩ := Search.find_spec hfind
    have hlen := hbegin.length_le
    have hlen' := hsuffix.length_le
    rw [httpHeaderFindLoop_succ, httpHeaderFindLoop_succ, skipSpace_append hends.mem]
    simp only [strstr, hfind, hfind', List.length_append, Nat.add_sub_add_right, strncaseeq_append hmem hname]
    -- an empty line ends the headers in both
    by_cases hempty : (skipSpace str).length - lineEnd.length = 0
    · rw [if_pos hempty, if_pos hempty]
      exact ⟨rfl, fun found hfound => by cases hfound⟩
    rw [if_neg hempty, if_neg hempty]
    by_cases heq : strncaseeq (skipSpace str) name name.length = true
    · obtain ⟨hcolon, hlong⟩ := mem_drop_of_strncaseeq hmem hname heq
      rw [if_pos heq, if_pos heq, List.drop_append_of_le_length hlong, skipSpace_append hcolon,
        colonValue_append (mem_skipSpace hcolon), Option.map_map, Option.map_map]
      refine ⟨rfl, fun found hfound => ?_⟩
      obtain ⟨value, hvalue, rfl⟩ := Option.map_eq_some_iff.1 hfound
      exact mem_colonValue (mem_skipSpace hcolon) hvalue
    · rw [if_neg heq, if_neg heq, List.drop_append_of_le_length hlen]
      -- another line has the end of the headers still behind it
      have hheaders : httpHeadersEnd <:+: skipSpace str := by
        refine hspace.resolve_left fun hp => hempty ?_
        rw [Search.find_here hp] at hfind
        cases hfind
        omega
      have hdrop : (lineEnd.drop httpLineEnd.length).length ≤ rounds ∧
          (lineEnd.drop httpLineEnd.length).length ≤ rounds' := by
        rw [List.length_drop]
        simp only [httpLineEnd, List.length_cons, List.length_nil] at hlen ⊢
        omega
      exact httpHeaderFindLoop_append hname rest rounds rounds' _ hdrop.1 hdrop.2 (ends_behind hheaders hfind)

theorem httpViewParse_eq_none_iff {buffer : Bytes} : httpViewParse buffer = none ↔ ¬ httpHeadersEnd <:+: buffer := by
  rw [← Search.find_eq_none_iff]
  cases hend : Search.find httpHeadersEnd buffer with
  | none => simp [httpViewParse, strstr, hend]
  | some headersEnd =>
    have hinfix : httpHeadersEnd <:+: buffer := Search.find_isSome_iff.1 (by rw [hend]; rfl)
    have hline : httpLineEnd <:+: buffer := List.IsInfix.trans ⟨[], httpLineEnd, rfl⟩ hinfix
    obtain ⟨lineEnd, hfind⟩ := Option.isSome_iff_exists.1 (Search.find_isSome_iff.2 hline)
    simp [httpViewParse, strstr, hend, hfind]

/-- The value that a message has for a header, with what follows it: nothing while the message is
incomplete, and no value where the header is missing. -/
def headerValue (name str : Bytes) : Option (Option Bytes) :=
  (httpViewParse str).map fun view => (httpHeaderFind view.headers name).map (·.2)

/-- The word at the front of the value. -/
def headerWord (name str : Bytes) : Option (Option Bytes) := (headerValue name str).map (Option.map word)

theorem headerWord_eq_none_iff {name str : Bytes} : headerWord name str = none ↔ ¬ httpHeadersEnd <:+: str := by
  rw [headerWord, Option.map_eq_none_iff, headerValue, Option.map_eq_none_iff, httpViewParse_eq_none_iff]

/-- What a complete message says does not depend on what is behind it. -/
theorem headerWord_append {name str : Bytes} (hname : 0x0D ∉ name.map tolower) (h : httpHeadersEnd <:+: str) (rest : Bytes) :
    headerWord name (str ++ rest) = headerWord name str := by
  obtain ⟨headersEnd, hend⟩ := Option.isSome_iff_exists.1 (Search.find_isSome_iff.2 h)
  have hline : httpLineEnd <:+: str := List.IsInfix.trans ⟨[], httpLineEnd, rfl⟩ h
  obtain ⟨lineEnd, hfind⟩ := Option.isSome_iff_exists.1 (Search.find_isSome_iff.2 hline)
  have hlen := (Search.find_spec hfind).1.length_le
  obtain ⟨happend, hmem⟩ := httpHeaderFindLoop_append hname rest _ (lineEnd.drop httpLineEnd.length ++ rest).length
    (lineEnd.drop httpLineEnd.length) (le_refl _) (by rw [List.length_append]; omega) (ends_behind h hfind)
  simp only [headerWord, headerValue, httpViewParse, strstr, hend, hfind, Search.find_append rest hend,
    Search.find_append rest hfind, Option.bind_eq_bind, Option.bind_some, Option.pure_def, Option.map_some, httpHeaderFind]
  rw [List.drop_append_of_le_length hlen, happend, Option.map_map, Option.map_map, Option.map_map]
  congr 1
  refine Option.map_congr fun found hfound => ?_
  exact word_append (hmem found hfound) rest

/-! ## Header lines -/

/-- A text on one line of a string. -/
def OnLine (str : Bytes) : Prop := ∀ c ∈ str, c ≠ 0 ∧ c ≠ 0x0D ∧ c ≠ 0x0A

instance (str : Bytes) : Decidable (OnLine str) := inferInstanceAs (Decidable (∀ c ∈ str, c ≠ 0 ∧ c ≠ 0x0D ∧ c ≠ 0x0A))

/-- A line of the headers: its name, and what is between the colon and the line end. -/
structure HeaderLine where
  name : Bytes
  value : Bytes
  nonempty : name ≠ []
  graph : ∀ c ∈ name, isgraph c = true ∧ c ≠ 0x3A
  onLine : OnLine value

/-- The line without its end. -/
def HeaderLine.line (l : HeaderLine) : Bytes := l.name ++ 0x3A :: l.value

def headerLines (lines : List HeaderLine) : Bytes := lines.flatMap fun l => l.line ++ httpLineEnd

/-- The name of the line starts with a name, in any letter case. -/
def HeaderLine.NameStarts (l : HeaderLine) (name : Bytes) : Prop := name.map tolower <+: l.name.map tolower

/-- The name of the line is a name, in any letter case. -/
def HeaderLine.Named (l : HeaderLine) (name : Bytes) : Prop := l.name.map tolower = name.map tolower

instance (l : HeaderLine) (name : Bytes) : Decidable (l.NameStarts name) := inferInstanceAs (Decidable (_ <+: _))
instance (l : HeaderLine) (name : Bytes) : Decidable (l.Named name) := inferInstanceAs (Decidable (_ = _))

theorem OnLine.noReturn {str : Bytes} (h : OnLine str) : 0x0D ∉ str := fun hm => (h _ hm).2.1 rfl

theorem HeaderLine.line_onLine (l : HeaderLine) : OnLine l.line := by
  intro c hc
  rw [HeaderLine.line, List.mem_append, List.mem_cons] at hc
  rcases hc with hc | rfl | hc
  · have hgraph := (l.graph c hc).1
    refine ⟨?_, ?_, ?_⟩ <;> rintro rfl <;> revert hgraph <;> decide
  · decide
  · exact l.onLine c hc

/-- The line has a printable character in front. -/
theorem HeaderLine.line_cons (l : HeaderLine) : ∃ c cs, l.line = c :: cs ∧ isgraph c = true := by
  unfold HeaderLine.line
  have hnonempty := l.nonempty
  have hgraph := l.graph
  cases hname : l.name with
  | nil => exact absurd hname hnonempty
  | cons c cs => exact ⟨c, _, rfl, (hgraph c (by rw [hname]; exact List.mem_cons_self ..)).1⟩

theorem skipSpace_graph {c : UInt8} (h : isgraph c = true) (str : Bytes) : skipSpace (c :: str) = c :: str := by
  refine List.dropWhile_cons_of_neg fun hspace => ?_
  have hc : c = 0x20 ∨ c = 0x09 := by simpa [httpWhitespaceChars] using hspace
  rcases hc with rfl | rfl <;> cases h

/-- The first line end of a text is the one behind its first line. -/
theorem strstr_oneLine {str : Bytes} (h : ¬ httpLineEnd <:+: str) (rest : Bytes) :
    strstr (str ++ (httpLineEnd ++ rest)) httpLineEnd = some (httpLineEnd ++ rest) := by
  induction str with
  | nil => exact Search.find_here (List.prefix_append _ _)
  | cons c str ih =>
    have hlater : ¬ httpLineEnd <+: c :: (str ++ (httpLineEnd ++ rest)) := by
      intro hp
      obtain ⟨rfl, hfeed⟩ := List.cons_prefix_cons.1 hp
      cases str with
      | nil =>
        -- a line may end with a return of its own
        obtain ⟨hne, -⟩ := List.cons_prefix_cons.1 hfeed
        cases hne
      | cons d str =>
        obtain ⟨rfl, -⟩ := List.cons_prefix_cons.1 hfeed
        exact h ⟨[], str, rfl⟩
    rw [List.cons_append, strstr, Search.find_later hlater]
    exact ih fun hoccurs => h (hoccurs.trans (List.suffix_cons c str).isInfix)

theorem strstr_line {line : Bytes} (h : 0x0D ∉ line) (rest : Bytes) :
    strstr (line ++ (httpLineEnd ++ rest)) httpLineEnd = some (httpLineEnd ++ rest) :=
  strstr_oneLine (fun hoccurs => h (hoccurs.subset List.mem_cons_self)) rest

/-- The headers do not end with a line that has another one behind it. -/
theorem find_headersEnd_line {line rest : Bytes} (h : 0x0D ∉ line) (hrest : ¬ httpLineEnd <+: rest) :
    Search.find httpHeadersEnd (line ++ (httpLineEnd ++ rest)) = Search.find httpHeadersEnd rest := by
  have hreturn : ¬ httpHeadersEnd <+: 0x0D :: 0x0A :: rest := fun hp =>
    hrest (List.cons_prefix_cons.1 (List.cons_prefix_cons.1 hp).2).2
  have hfeed : ¬ httpHeadersEnd <+: 0x0A :: rest := fun hp => absurd (List.cons_prefix_cons.1 hp).1 (by decide)
  rw [httpHeadersEnd, Search.find_skip _ h, ← httpHeadersEnd]
  show Search.find httpHeadersEnd (0x0D :: 0x0A :: rest) = _
  rw [Search.find_later hreturn, Search.find_later hfeed]

/-- They end with the empty line. -/
theorem find_headersEnd_lines : ∀ (lines : List HeaderLine) {line : Bytes}, 0x0D ∉ line →
    Search.find httpHeadersEnd (line ++ (httpLineEnd ++ (headerLines lines ++ httpLineEnd))) = some httpHeadersEnd
  | [], line, h => by
    rw [httpHeadersEnd, Search.find_skip _ h]
    exact Search.find_here (List.prefix_refl _)
  | l :: lines, line, h => by
    have hline : ¬ httpLineEnd <+: headerLines (l :: lines) ++ httpLineEnd := fun hp => by
      obtain ⟨c, cs, hcons, hgraph⟩ := l.line_cons
      rw [headerLines, List.flatMap_cons, hcons] at hp
      have hc := (List.cons_prefix_cons.1 hp).1
      rw [← hc] at hgraph
      cases hgraph
    have hrest := find_headersEnd_lines lines l.line_onLine.noReturn
    rw [find_headersEnd_line h hline, ← hrest, headerLines, List.flatMap_cons, List.append_assoc, List.append_assoc]
    rfl

/-- A prefix that ends in front of a character does not reach behind it. -/
theorem prefix_before {pattern front : Bytes} {c : UInt8} (h : c ∉ pattern) (rest : Bytes) :
    pattern <+: front ++ c :: rest ↔ pattern <+: front := by
  refine ⟨fun hp => ?_, fun hp => hp.trans (List.prefix_append _ _)⟩
  by_cases hlen : pattern.length ≤ front.length
  · exact List.prefix_of_prefix_length_le hp (List.prefix_append _ _) hlen
  · have hc : front ++ [c] <+: front ++ c :: rest := ⟨rest, by simp⟩
    have hfront := List.prefix_of_prefix_length_le hc hp (by rw [List.length_append, List.length_singleton]; omega)
    exact absurd (hfront.subset (List.mem_append_right _ (List.mem_singleton_self c))) h

section Find

variable {name : Bytes} (hname : 0x3A ∉ name.map tolower)
include hname

theorem strncaseeq_line (l : HeaderLine) (rest : Bytes) :
    strncaseeq (l.line ++ rest) name name.length = true ↔ l.NameStarts name := by
  have hlen : name.length = (name.map tolower).length := List.length_map .. |>.symm
  rw [strncaseeq, decide_eq_true_iff, List.take_length, HeaderLine.NameStarts,
    ← prefix_before hname ((l.value ++ rest).map tolower), List.prefix_iff_eq_take, HeaderLine.line, List.map_take, ← hlen]
  simp [tolower, eq_comm]

/-- A line is passed over, it stops the search, or it has the value. -/
theorem httpHeaderFindLoop_line (l : HeaderLine) (rounds : Nat) (rest : Bytes) :
    httpHeaderFindLoop name (rounds + 1) (l.line ++ (httpLineEnd ++ rest)) =
      if l.NameStarts name then
        (colonValue (skipSpace ((l.line ++ (httpLineEnd ++ rest)).drop name.length))).map (l.line ++ (httpLineEnd ++ rest), ·)
      else httpHeaderFindLoop name rounds rest := by
  obtain ⟨c, cs, hcons, hgraph⟩ := l.line_cons
  have hspace : skipSpace (l.line ++ (httpLineEnd ++ rest)) = l.line ++ (httpLineEnd ++ rest) := by
    rw [hcons]
    exact skipSpace_graph hgraph _
  have hlen : (l.line ++ (httpLineEnd ++ rest)).length - (httpLineEnd ++ rest).length ≠ 0 := by
    rw [List.length_append, hcons, List.length_cons]
    omega
  rw [httpHeaderFindLoop_succ, hspace, strstr_line l.line_onLine.noReturn]
  simp only [if_neg hlen, strncaseeq_line hname]
  rfl

/-- Lines with other names are passed over. -/
theorem httpHeaderFindLoop_lines : ∀ (lines : List HeaderLine) (rounds : Nat) (rest : Bytes),
    (∀ l ∈ lines, ¬ l.NameStarts name) →
      httpHeaderFindLoop name (lines.length + rounds) (headerLines lines ++ rest) = httpHeaderFindLoop name rounds rest
  | [], rounds, rest, _ => by
    rw [List.length_nil, Nat.zero_add]
    rfl
  | l :: lines, rounds, rest, h => by
    have hsucc : (l :: lines).length + rounds = lines.length + rounds + 1 := by rw [List.length_cons]; omega
    have hlines : headerLines (l :: lines) ++ rest = l.line ++ (httpLineEnd ++ (headerLines lines ++ rest)) := by
      simp [headerLines]
    rw [hsucc, hlines, httpHeaderFindLoop_line hname, if_neg (h l (List.mem_cons_self ..))]
    exact httpHeaderFindLoop_lines lines rounds rest fun l' hl' => h l' (List.mem_cons_of_mem _ hl')

/-- The line with the name has the value. -/
theorem httpHeaderFindLoop_named {l : HeaderLine} (h : l.Named name) (rounds : Nat) (rest : Bytes) :
    httpHeaderFindLoop name (rounds + 1) (l.line ++ (httpLineEnd ++ rest)) =
      some (l.line ++ (httpLineEnd ++ rest), skipSpace (l.value ++ (httpLineEnd ++ rest))) := by
  have hlen : l.name.length = name.length := by simpa using congrArg List.length h
  have hdrop : (l.line ++ (httpLineEnd ++ rest)).drop name.length = 0x3A :: (l.value ++ (httpLineEnd ++ rest)) := by
    rw [HeaderLine.line, List.append_assoc, List.drop_left' hlen]
    rfl
  have hspace : skipSpace (0x3A :: (l.value ++ (httpLineEnd ++ rest))) = 0x3A :: (l.value ++ (httpLineEnd ++ rest)) := rfl
  have hstarts : l.NameStarts name := by
    rw [HeaderLine.NameStarts, show l.name.map tolower = name.map tolower from h]
  rw [httpHeaderFindLoop_line hname, if_pos hstarts, hdrop, hspace, colonValue, if_pos rfl]
  rfl

/-- A line whose name goes on behind the name stops the search. -/
theorem httpHeaderFindLoop_longer {l : HeaderLine} (h : l.NameStarts name) (hne : ¬ l.Named name)
    (rounds : Nat) (rest : Bytes) :
    httpHeaderFindLoop name (rounds + 1) (l.line ++ (httpLineEnd ++ rest)) = none := by
  have hlen : name.length < l.name.length := by
    have hle := h.length_le
    rw [List.length_map, List.length_map] at hle
    refine lt_of_le_of_ne hle fun he => hne ?_
    exact (h.eq_of_length (by rw [List.length_map, List.length_map]; exact he)).symm
  obtain ⟨c, cs, hcons⟩ : ∃ c cs, l.name.drop name.length = c :: cs := by
    cases hdrop : l.name.drop name.length with
    | nil => exact absurd (List.drop_eq_nil_iff.1 hdrop) (by omega)
    | cons c cs => exact ⟨c, cs, rfl⟩
  obtain ⟨hgraph, hcolon⟩ := l.graph c (List.mem_of_mem_drop (hcons ▸ List.mem_cons_self ..))
  have hdrop : (l.line ++ (httpLineEnd ++ rest)).drop name.length =
      c :: (cs ++ 0x3A :: l.value ++ (httpLineEnd ++ rest)) := by
    rw [HeaderLine.line, List.append_assoc, List.drop_append_of_le_length hlen.le, hcons]
    simp
  rw [httpHeaderFindLoop_line hname, if_pos h, hdrop, skipSpace_graph hgraph, colonValue, if_neg hcolon]
  rfl

end Find

/-- A text of white space. -/
def IsSpace (str : Bytes) : Prop := ∀ c ∈ str, httpWhitespaceChars.contains c = true

instance (str : Bytes) : Decidable (IsSpace str) := inferInstanceAs (Decidable (∀ c ∈ str, _ = true))

/-- The word between white space at the front of a line. -/
theorem word_skipSpace {front w back : Bytes} (hfront : IsSpace front) (hword : ∀ c ∈ w, isgraph c = true)
    (hback : IsSpace back) (rest : Bytes) :
    word (skipSpace (front ++ (w ++ (back ++ (httpLineEnd ++ rest))))) = w := by
  have hstop : ∀ {str : Bytes}, IsSpace str → ∀ more, word (str ++ (httpLineEnd ++ more)) = [] := by
    rintro (_ | ⟨c, str⟩) h more
    · rfl
    · refine List.takeWhile_cons_of_neg fun hc => ?_
      have hspace : c = 0x20 ∨ c = 0x09 := by simpa [httpWhitespaceChars] using h c (List.mem_cons_self ..)
      rcases hspace with rfl | rfl <;> cases hc
  have hskip : skipSpace (front ++ (w ++ (back ++ (httpLineEnd ++ rest)))) =
      skipSpace (w ++ (back ++ (httpLineEnd ++ rest))) := List.dropWhile_append_of_pos fun c hc => hfront c hc
  rw [hskip]
  cases w with
  | nil =>
    have hback' : skipSpace ([] ++ (back ++ (httpLineEnd ++ rest))) = httpLineEnd ++ rest := by
      rw [List.nil_append, skipSpace, List.dropWhile_append_of_pos fun c hc => hback c hc]
      rfl
    rw [hback']
    exact @hstop [] (fun c hc => by cases hc) rest
  | cons c cs =>
    rw [List.cons_append, skipSpace_graph (hword c (List.mem_cons_self ..)), ← List.cons_append, word,
      List.takeWhile_append_of_pos fun c hc => hword c hc]
    have hrest := hstop hback rest
    rw [word] at hrest
    rw [hrest, List.append_nil]

/-- The headers of a message are behind its first line. -/
theorem headerValue_lines (name : Bytes) {line : Bytes} (h : 0x0D ∉ line) (lines : List HeaderLine) :
    headerValue name (line ++ (httpLineEnd ++ (headerLines lines ++ httpLineEnd))) =
      some ((httpHeaderFind (headerLines lines ++ httpLineEnd) name).map (·.2)) := by
  have hline := strstr_line h (headerLines lines ++ httpLineEnd)
  rw [strstr] at hline
  simp only [headerValue, httpViewParse, strstr, find_headersEnd_lines lines h, hline]
  rfl

theorem headerLines_noNul {line : Bytes} (h : 0 ∉ line) (lines : List HeaderLine) :
    0 ∉ line ++ (httpLineEnd ++ (headerLines lines ++ httpLineEnd)) := by
  have hend : 0 ∉ httpLineEnd := by decide
  simp only [List.mem_append, headerLines, List.mem_flatMap, not_or, not_exists, not_and]
  exact ⟨h, hend, fun l _ => ⟨fun hm => (l.line_onLine _ hm).1 rfl, hend⟩, hend⟩

theorem length_headerLines : ∀ lines : List HeaderLine, lines.length ≤ (headerLines lines).length
  | [] => Nat.zero_le _
  | l :: lines => by
    have hrest := length_headerLines lines
    rw [headerLines] at hrest ⊢
    rw [List.flatMap_cons, List.length_append, List.length_append, List.length_cons, show httpLineEnd.length = 2 from rfl]
    omega

section Word

variable {name line : Bytes} {before after : List HeaderLine} {key : HeaderLine} (hname : 0x3A ∉ name.map tolower)
include hname

/-- The search comes to the first line whose name starts with the name. -/
theorem httpHeaderFind_lines {passed : List HeaderLine} (l : HeaderLine) (behind : List HeaderLine)
    (h : ∀ l' ∈ passed, ¬ l'.NameStarts name) :
    ∃ rounds, httpHeaderFind (headerLines (passed ++ l :: behind) ++ httpLineEnd) name =
      httpHeaderFindLoop name (rounds + 1) (l.line ++ (httpLineEnd ++ (headerLines behind ++ httpLineEnd))) := by
  have hlen := length_headerLines (passed ++ l :: behind)
  obtain ⟨rounds, hrounds⟩ : ∃ rounds, (headerLines (passed ++ l :: behind) ++ httpLineEnd).length =
      passed.length + (rounds + 1) := by
    refine ⟨(headerLines (passed ++ l :: behind) ++ httpLineEnd).length - (passed.length + 1), ?_⟩
    rw [List.length_append, List.length_cons] at hlen
    rw [List.length_append]
    omega
  have hlines : headerLines (passed ++ l :: behind) ++ httpLineEnd =
      headerLines passed ++ (l.line ++ (httpLineEnd ++ (headerLines behind ++ httpLineEnd))) := by
    simp [headerLines]
  exact ⟨rounds, by rw [httpHeaderFind, hrounds, hlines, httpHeaderFindLoop_lines hname _ _ _ h]⟩

variable (hline : 0x0D ∉ line)
include hline

/-- The word of the first line with the name, if no line in front of it has a name that starts so. -/
theorem headerWord_named (hbefore : ∀ l ∈ before, ¬ l.NameStarts name) (hkey : key.Named name) {front w back : Bytes}
    (hvalue : key.value = front ++ (w ++ back)) (hfront : IsSpace front) (hword : ∀ c ∈ w, isgraph c = true)
    (hback : IsSpace back) :
    headerWord name (line ++ (httpLineEnd ++ (headerLines (before ++ key :: after) ++ httpLineEnd))) = some (some w) := by
  obtain ⟨rounds, hfind⟩ := httpHeaderFind_lines hname key after hbefore
  rw [headerWord, headerValue_lines name hline, hfind, httpHeaderFindLoop_named hname hkey, hvalue]
  simp only [Option.map_some, List.append_assoc]
  rw [word_skipSpace hfront hword hback]

/-- A longer name in front of it hides the line. -/
theorem headerWord_hidden (hbefore : ∀ l ∈ before, ¬ l.Named name) (hlonger : ∃ l ∈ before, l.NameStarts name) :
    headerWord name (line ++ (httpLineEnd ++ (headerLines (before ++ key :: after) ++ httpLineEnd))) = some none := by
  obtain ⟨l, hfirst⟩ : ∃ l, before.find? (·.NameStarts name) = some l := by
    rw [← Option.isSome_iff_exists, List.find?_isSome]
    simpa using hlonger
  obtain ⟨hl, passed, behind, rfl, hpassed⟩ := List.find?_eq_some_iff_append.1 hfirst
  have hnamed := hbefore l (List.mem_append_right _ (List.mem_cons_self ..))
  obtain ⟨rounds, hfind⟩ := httpHeaderFind_lines hname l (behind ++ key :: after) fun l' hl' => by
    simpa using hpassed l' hl'
  rw [List.append_assoc, List.cons_append, headerWord, headerValue_lines name hline, hfind,
    httpHeaderFindLoop_longer hname (by simpa using hl) hnamed]
  rfl

end Word

end CMx
