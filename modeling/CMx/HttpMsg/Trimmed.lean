/-
The trimming of a string from the right, and of the header lines that `http_msg_parse_headers` hands to
it. It counts an unsigned index down from the last character and never looks at the first, so a string
without a printable character is where it goes wrong.
-/
import CMx.HttpMsg.Requests

namespace CMx

open Mqtt (Bytes CString)

/-! ## The string that is left -/

/-- The longest front of a string that is empty or has a printable character at its end. -/
structure IsTrimmed (str left : Bytes) : Prop where
  front : left <+: str
  ends : left = [] ∨ EndsGraph left
  longest : ∀ p, p <+: str → p = [] ∨ EndsGraph p → p.length ≤ left.length

/-- `xstrrtrim` leaves that front, and what is in front of the string is neither needed nor changed. -/
def TrimsRight (str : Bytes) : Prop :=
  ∃ left, (∀ front, xstrrtrim front str = some (front, left)) ∧ IsTrimmed str left

theorem HasGraph.ne_nil {str : Bytes} (h : HasGraph str) : str ≠ [] := by
  rintro rfl
  obtain ⟨c, hc, -⟩ := h
  cases hc

theorem not_hasGraph_of_junk {c : UInt8} {junk : Bytes} (hc : isgraph c = false)
    (hjunk : ∀ c ∈ junk, isgraph c = false) : ¬ HasGraph (c :: junk) := by
  rintro ⟨d, hd, hgraph⟩
  rcases List.mem_cons.1 hd with rfl | hd
  · rw [hc] at hgraph
    cases hgraph
  · rw [hjunk d hd] at hgraph
    cases hgraph

theorem endsGraph_rtrim {str : Bytes} (h : HasGraph str) : EndsGraph (rtrim str) := by
  cases str with
  | nil => exact absurd rfl h.ne_nil
  | cons c cs =>
    obtain ⟨str, junk, rfl, hstr, hjunk, htrim⟩ := exists_rtrim c cs
    rw [htrim]
    rcases hstr with rfl | ⟨front, d, rfl, hd⟩
    · -- the first character is the only one that can be printable
      refine ⟨[], c, rfl, ?_⟩
      by_contra hc
      exact not_hasGraph_of_junk (Bool.not_eq_true _ ▸ hc) hjunk h
    · exact ⟨c :: front, d, rfl, hd⟩

/-- Of a string without a printable character the first character stays. -/
theorem rtrim_of_blank {c : UInt8} {cs : Bytes} (h : ¬ HasGraph (c :: cs)) : rtrim (c :: cs) = [c] := by
  have hjunk : ∀ d ∈ cs, isgraph d = false := fun d hd =>
    Bool.not_eq_true _ ▸ fun hgraph => h ⟨d, List.mem_cons_of_mem c hd, hgraph⟩
  exact @rtrim_append c [] cs (.inl rfl) hjunk

theorem isTrimmed_rtrim {str : Bytes} (h : HasGraph str) : IsTrimmed str (rtrim str) := by
  have hends := endsGraph_rtrim h
  cases str with
  | nil => exact absurd rfl h.ne_nil
  | cons c cs =>
    obtain ⟨str, junk, rfl, -, hjunk, htrim⟩ := exists_rtrim c cs
    rw [htrim] at hends ⊢
    refine ⟨?_, .inr hends, fun p hp hpends => ?_⟩
    · rw [← List.cons_append]
      exact List.prefix_append _ _
    · by_contra hlong
      rw [← List.cons_append] at hp
      obtain ⟨more, rfl⟩ := List.prefix_of_prefix_length_le (List.prefix_append (c :: str) junk) hp (by omega)
      have hmore : more <+: junk := (List.prefix_append_right_inj _).1 hp
      rcases hpends with hnil | ⟨front, d, hd, hgraph⟩
      · cases hnil
      · have hne : more ≠ [] := by
          rintro rfl
          rw [List.append_nil] at hlong
          exact hlong (le_refl _)
        -- the last character of a longer front is one of those that were cut off
        have hlast : d = more.getLast hne := by
          have := congrArg List.getLast? hd
          rw [List.getLast?_append_of_ne_nil _ hne, List.getLast?_concat,
            List.getLast?_eq_getLast_of_ne_nil hne] at this
          exact (Option.some.inj this).symm
        have hmem : d ∈ junk := by
          rw [hlast]
          exact hmore.subset (List.getLast_mem hne)
        rw [hjunk d hmem] at hgraph
        cases hgraph

theorem trimsRight_iff (str : Bytes) : TrimsRight str ↔ HasGraph str := by
  constructor
  · rintro ⟨left, hleft, htrimmed⟩
    cases str with
    | nil => cases hleft []
    | cons c cs =>
      by_contra hgraph
      have hsome := hleft []
      rw [xstrrtrim_cons _ (List.cons_ne_nil c cs), rtrim_of_blank hgraph] at hsome
      obtain rfl : [c] = left := congrArg Prod.snd (Option.some.inj hsome)
      rcases htrimmed.ends with hnil | ⟨front, d, hd, hprint⟩
      · cases hnil
      · have hmem : d ∈ [c] := by
          rw [hd]
          exact List.mem_append_right _ (List.mem_singleton.2 rfl)
        obtain rfl := List.mem_singleton.1 hmem
        exact hgraph ⟨d, List.mem_cons_self, hprint⟩
  · intro h
    exact ⟨rtrim str, fun front => xstrrtrim_cons front h.ne_nil, isTrimmed_rtrim h⟩

/-! ## A header line -/

/-- A line with a colon, as it stands in a string in front of a line end. -/
structure ColonLine where
  bytes : Bytes
  noNul : 0 ∉ bytes
  oneLine : ¬ httpLineEnd <:+: bytes
  colon : 0x3A ∈ bytes

/-- What the parser splits the line into, without the white space in front of it. -/
def ColonLine.name (line : ColonLine) : Bytes := lineName (skipSpace line.bytes)
def ColonLine.value (line : ColonLine) : Bytes := lineValue (skipSpace line.bytes)

/-- What is to be stored of a text: nothing printable is missing behind it, and it has no white space at its end. -/
structure StoredOf (str stored : Bytes) : Prop where
  cut : ∃ junk, str = stored ++ junk ∧ ∀ c ∈ junk, isgraph c = false
  stops : ∀ c, stored.getLast? = some c → isspace c = false

/-- The parser makes a header of the line and goes on behind it, whatever is in front of the copy of the
line, so also when nothing there can be read. -/
structure KeepsToLine (line : ColonLine) (header : HttpHeader) : Prop where
  goesOn : ∀ (stack : Bytes → Bytes) (self : HttpMsg) (rest : Bytes),
    httpMsgParseHeaders stack self (line.bytes ++ (httpLineEnd ++ rest)) =
      httpMsgParseHeaders stack (httpMsgAddHeader self header) rest
  name : StoredOf line.name header.name.bytes
  value : ∃ value, header.value = some value ∧ StoredOf (xstrltrim line.value) value.bytes

/-- A line with something printable in front of its colon; or with a name that starts with another character
than white space, and something printable behind the colon. -/
def ColonLine.Fits (line : ColonLine) : Prop :=
  HasGraph line.name ∨ HasGraph line.value ∧ ∃ c, line.name.head? = some c ∧ isspace c = false

/-- Without a line end there is no line. -/
theorem httpMsgParseHeadersLoop_none (stack : Bytes → Bytes) (self : HttpMsg) {str : Bytes}
    (h : strstr str httpLineEnd = none) : ∀ rounds, httpMsgParseHeadersLoop stack rounds self str = some (-1, self)
  | 0 => rfl
  | rounds + 1 => by
    have hspace : str.drop (xstrSpaceLen str httpWhitespaceChars) = skipSpace str := drop_xstrSpaceLen ..
    have hnone : strstr (skipSpace str) httpLineEnd = none := by
      rw [strstr, Search.find_eq_none_iff] at h ⊢
      exact fun hoccurs => h (hoccurs.trans (List.dropWhile_suffix _).isInfix)
    simp only [httpMsgParseHeadersLoop, hspace, hnone]

/-- More rounds than there are bytes make no difference. -/
theorem httpMsgParseHeadersLoop_rounds (stack : Bytes → Bytes) : ∀ {rounds rounds' : Nat} (self : HttpMsg)
    {str : Bytes}, str.length ≤ rounds → str.length ≤ rounds' →
      httpMsgParseHeadersLoop stack rounds self str = httpMsgParseHeadersLoop stack rounds' self str
  | 0, 0, _, _, _, _ => rfl
  | 0, rounds' + 1, self, str, h, _ => by
    obtain rfl := List.eq_nil_of_length_eq_zero (Nat.le_zero.1 h)
    rfl
  | rounds + 1, 0, self, str, _, h => by
    obtain rfl := List.eq_nil_of_length_eq_zero (Nat.le_zero.1 h)
    rfl
  | rounds + 1, rounds' + 1, self, str, h, h' => by
    cases hfind : strstr str httpLineEnd with
    | none => rw [httpMsgParseHeadersLoop_none stack self hfind, httpMsgParseHeadersLoop_none stack self hfind]
    | some e =>
      rw [httpMsgParseHeadersLoop_succ stack rounds self hfind, httpMsgParseHeadersLoop_succ stack rounds' self hfind]
      have hlen := (Search.find_spec hfind).1.length_le
      have hsuffix := (Search.find_spec hfind).2.length_le
      have hpos : httpLineEnd.length = 2 := rfl
      have hdrop : (e.drop httpLineEnd.length).length ≤ rounds ∧ (e.drop httpLineEnd.length).length ≤ rounds' := by
        rw [List.length_drop]
        omega
      have ih := fun self => httpMsgParseHeadersLoop_rounds stack self hdrop.1 hdrop.2
      simp only [ih]

theorem httpMsgParseHeaders_line (stack : Bytes → Bytes) (self : HttpMsg) (line : ColonLine) (rest : Bytes) :
    httpMsgParseHeaders stack self (line.bytes ++ (httpLineEnd ++ rest)) =
      (httpParseLine (stack (skipSpace (line.bytes ++ (httpLineEnd ++ rest)))) line.name line.value).bind fun header =>
        httpMsgParseHeaders stack (httpMsgAddHeader self header) rest := by
  have hfind := strstr_oneLine line.oneLine rest
  have htext : lineText (line.bytes ++ (httpLineEnd ++ rest)) = line.bytes := by
    have happend := lineText_append hfind
    exact List.append_cancel_right happend
  have hblank : skipSpace line.bytes ≠ [] := List.ne_nil_of_mem (Search.mem_dropWhile line.colon rfl)
  obtain ⟨rounds, hrounds⟩ : ∃ rounds, (line.bytes ++ (httpLineEnd ++ rest)).length = rounds + 1 :=
    Nat.exists_eq_succ_of_ne_zero (by simp [httpLineEnd])
  have hrest : rest.length ≤ rounds := by
    simp only [List.length_append, httpLineEnd, List.length_cons, List.length_nil] at hrounds
    omega
  rw [httpMsgParseHeaders, hrounds, httpMsgParseHeadersLoop_succ stack rounds self hfind, htext, if_neg hblank,
    if_neg (not_not.2 line.colon), List.drop_left' rfl]
  have hsame := fun self => httpMsgParseHeadersLoop_rounds stack self hrest (le_refl rest.length)
  simp only [hsame]
  rfl

/-! ## What is stored -/

theorem isspace_of_isgraph {c : UInt8} (h : isgraph c = true) : isspace c = false := by
  rw [isgraph, Bool.and_eq_true, decide_eq_true_iff, decide_eq_true_iff] at h
  rw [isspace, Bool.or_eq_false_iff, Bool.and_eq_false_iff, decide_eq_false_iff_not, decide_eq_false_iff_not,
    decide_eq_false_iff_not]
  simp only [UInt8.le_iff_toNat_le, ← UInt8.toNat_inj, UInt8.reduceToNat] at h ⊢
  omega

theorem EndsGraph.stops {str : Bytes} (h : EndsGraph str) {c : UInt8} (hc : str.getLast? = some c) :
    isspace c = false := by
  obtain ⟨front, d, rfl, hd⟩ := h
  rw [List.getLast?_concat] at hc
  obtain rfl := Option.some.inj hc
  exact isspace_of_isgraph hd

theorem storedOf_nil : StoredOf [] [] := ⟨⟨[], rfl, fun c hc => by cases hc⟩, fun c hc => by cases hc⟩

theorem storedOf_rtrim {str : Bytes} (h : HasGraph str ∨ ∃ c, str.head? = some c ∧ isspace c = false) :
    StoredOf str (rtrim str) := by
  cases str with
  | nil => exact storedOf_nil
  | cons c cs =>
    obtain ⟨str, junk, rfl, hstr, hjunk, htrim⟩ := exists_rtrim c cs
    refine ⟨⟨junk, by rw [htrim]; rfl, hjunk⟩, fun d hd => ?_⟩
    rcases h with hgraph | ⟨first, hfirst, hspace⟩
    · exact (endsGraph_rtrim hgraph).stops hd
    · obtain rfl := Option.some.inj hfirst
      rw [htrim] at hd
      rcases hstr with rfl | ⟨front, last, rfl, hlast⟩
      · obtain rfl := Option.some.inj hd
        exact hspace
      · exact EndsGraph.stops ⟨c :: front, last, rfl, hlast⟩ hd

theorem httpParseLine_value {stack name value : Bytes} {h : HttpHeader} (hh : httpParseLine stack name value = some h) :
    h.value = some (xstrdup (rtrim (xstrltrim value))) := by
  obtain ⟨_, _, hh⟩ := Option.bind_eq_some_iff.1 hh
  obtain ⟨_, hvalue, hh⟩ := Option.bind_eq_some_iff.1 hh
  cases hh
  rw [← xstrrtrim_snd hvalue]

theorem storedOf_value {str : Bytes} (h : 0 ∉ str) :
    StoredOf (xstrltrim str) (xstrdup (rtrim (xstrltrim str))).bytes := by
  by_cases hgraph : HasGraph str
  · obtain ⟨c, hc, hprint⟩ := hgraph
    have hleft : HasGraph (xstrltrim str) := ⟨c, Search.mem_dropWhile hc (by simp [hprint]), hprint⟩
    have hstored := storedOf_rtrim (.inl hleft)
    have hnul : 0 ∉ rtrim (xstrltrim str) := fun hm =>
      h ((List.dropWhile_suffix _).subset ((isTrimmed_rtrim hleft).front.subset hm))
    have hbytes := bytes_xstrdup hnul 0
    rw [List.replicate_zero, List.append_nil] at hbytes
    rw [hbytes]
    exact hstored
  · rw [xstrltrim_eq_nil_iff.2 hgraph]
    exact storedOf_nil

theorem lineText_subset (s : Bytes) : lineText s ⊆ s := List.take_subset _ s

theorem ColonLine.name_noNul (line : ColonLine) : 0 ∉ line.name := fun hm =>
  line.noNul ((List.dropWhile_suffix _).subset (lineText_subset _ ((List.takeWhile_prefix _).subset hm)))

theorem ColonLine.value_noNul (line : ColonLine) : 0 ∉ line.value := fun hm =>
  line.noNul ((List.dropWhile_suffix _).subset
    (lineText_subset _ ((List.dropWhile_suffix _).subset ((List.drop_suffix _ _).subset hm))))

theorem httpHeader_eq {h h' : HttpHeader} (hname : h.name.bytes = h'.name.bytes) (hvalue : h.value = h'.value) :
    h = h' := by
  obtain ⟨⟨name, hnul⟩, value⟩ := h
  obtain ⟨⟨name', hnul'⟩, value'⟩ := h'
  cases hname
  cases hvalue
  rfl

/-- A line that fits has the same header whatever is in front of it. -/
theorem ColonLine.Fits.parses {line : ColonLine} (h : line.Fits) :
    ∃ header, (∀ stack, httpParseLine stack line.name line.value = some header) ∧
      header.name.bytes = rtrim line.name ∧ header.value = some (xstrdup (rtrim (xstrltrim line.value))) := by
  have hne : line.name ≠ [] := by
    intro hnil
    rw [ColonLine.Fits, hnil] at h
    rcases h with ⟨c, hc, -⟩ | ⟨-, c, hc, -⟩ <;> cases hc
  have hinside : TrimsInside line.bytes := ⟨hne, h.imp id And.left⟩
  have hname : ∀ {stack header}, httpParseLine stack line.name line.value = some header →
      header.name.bytes = rtrim line.name := fun hheader =>
    httpParseLine_kept line.name_noNul hheader hne (h.imp endsGraph_rtrim And.left)
  obtain ⟨header, hheader⟩ := hinside.parses []
  refine ⟨header, fun stack => ?_, hname hheader, httpParseLine_value hheader⟩
  obtain ⟨other, hother⟩ := hinside.parses stack
  have hsame : other = header :=
    httpHeader_eq ((hname hother).trans (hname hheader).symm)
      ((httpParseLine_value hother).trans (httpParseLine_value hheader).symm)
  rw [← hsame]
  exact hother

theorem keepsToLine_iff (line : ColonLine) : (∃ header, KeepsToLine line header) ↔ line.Fits := by
  constructor
  · rintro ⟨header, hgoes, hname, -⟩
    have hend : ∀ self : HttpMsg, httpMsgParseHeaders (fun _ => []) self httpLineEnd = some (1, self) := fun _ => rfl
    have hrun := hgoes (fun _ => []) httpMsgInit httpLineEnd
    rw [httpMsgParseHeaders_line, hend] at hrun
    obtain ⟨parsed, hparsed, hrest⟩ := Option.bind_eq_some_iff.1 hrun
    rw [hend] at hrest
    obtain rfl : parsed = header := by
      have hheaders := congrArg (fun out : Int × HttpMsg => out.2.headers) (Option.some.inj hrest)
      exact (List.cons.inj hheaders).1
    have hinside : TrimsInside line.bytes := by
      by_contra houtside
      have hnone : httpParseLine [] line.name line.value = none := httpParseLine_outside houtside
      rw [hnone] at hparsed
      cases hparsed
    by_cases hgraph : HasGraph line.name
    · exact .inl hgraph
    · -- the first character of the name stays, whatever it is
      have hvalue : HasGraph line.value := hinside.2.resolve_left hgraph
      have hkept := httpParseLine_kept line.name_noNul hparsed hinside.1 (.inr hvalue)
      obtain ⟨c, cs, hcons⟩ := List.exists_cons_of_ne_nil (show line.name ≠ [] from hinside.1)
      rw [hcons] at hkept hgraph
      rw [rtrim_of_blank hgraph] at hkept
      exact .inr ⟨hvalue, c, by rw [hcons]; rfl, hname.stops c (by rw [hkept]; rfl)⟩
  · intro hfits
    obtain ⟨header, hparses, hname, hvalue⟩ := hfits.parses
    refine ⟨header, ⟨fun stack self rest => ?_, ?_, _, hvalue, storedOf_value line.value_noNul⟩⟩
    · rw [httpMsgParseHeaders_line, hparses]
      rfl
    · rw [hname]
      exact storedOf_rtrim (hfits.imp id And.right)

/-- The trimming of a string keeps to it and leaves what it is to leave if and only if it has a printable
character; and the parser keeps to the copy of a header line and stores what it is to store if and only if the
line fits. -/
theorem trims_iff (str : CString) (line : ColonLine) :
    (TrimsRight str.bytes ↔ HasGraph str.bytes) ∧ ((∃ header, KeepsToLine line header) ↔ line.Fits) :=
  ⟨trimsRight_iff str.bytes, keepsToLine_iff line⟩

/-- The empty string, a blank one, and a line with nothing in front of its colon, whose name is an empty string. -/
theorem trims_empty :
    ¬ TrimsRight [] ∧ ¬ TrimsRight (text " ") ∧
      httpMsgParseHeaders (fun _ => []) httpMsgInit (text ":x\r\n\r\n") = none ∧
      ¬ ∀ line : ColonLine, ∃ header, KeepsToLine line header := by
  refine ⟨?_, ?_, by decide, fun h => ?_⟩
  · rw [trimsRight_iff]
    decide
  · rw [trimsRight_iff]
    decide
  · obtain ⟨header, hkeeps⟩ := h ⟨text ":x", by decide, by decide, by decide⟩
    have hrun : httpMsgParseHeaders (fun _ => []) httpMsgInit (text ":x\r\n\r\n") = some (1, _) :=
      hkeeps.goesOn (fun _ => []) httpMsgInit httpLineEnd
    have hcrash : httpMsgParseHeaders (fun _ => []) httpMsgInit (text ":x\r\n\r\n") = none := by decide
    rw [hcrash] at hrun
    cases hrun

end CMx
