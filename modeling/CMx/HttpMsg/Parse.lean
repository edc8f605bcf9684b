/-
The parsers of messages on a text that has the form of a message: a first line of words, header lines
and the empty line, and whatever body is behind it.
-/
import CMx.HttpMsg.Headers

namespace CMx

open Mqtt (Bytes CString)

/-! ## Words and phrases -/

/-- A word of printable characters. -/
structure IsWord (str : Bytes) : Prop where
  nonempty : str ≠ []
  graph : ∀ c ∈ str, isgraph c = true

/-- A text on one line that has a printable character at either end. -/
structure IsPhrase (str : Bytes) : Prop where
  onLine : OnLine str
  starts : ∃ c back, str = c :: back ∧ isgraph c = true
  ends : EndsGraph str

/-- A header with a word without a colon as its name and a phrase as its value. -/
structure HttpHeader.WellFormed (h : HttpHeader) : Prop where
  word : IsWord h.name.bytes
  noColon : 0x3A ∉ h.name.bytes
  value : ∃ v, h.value = some v ∧ IsPhrase v.bytes

theorem IsWord.onLine {str : Bytes} (h : IsWord str) : OnLine str := by
  intro c hc
  have hgraph := h.graph c hc
  refine ⟨?_, ?_, ?_⟩ <;> rintro rfl <;> revert hgraph <;> decide

theorem IsWord.isPhrase {str : Bytes} (h : IsWord str) : IsPhrase str := by
  obtain ⟨c, back, rfl⟩ := List.exists_cons_of_ne_nil h.nonempty
  refine ⟨h.onLine, ⟨c, back, rfl, h.graph c (List.mem_cons_self ..)⟩, ?_⟩
  have hlast := List.dropLast_append_getLast (List.cons_ne_nil c back)
  exact ⟨_, _, hlast.symm, h.graph _ (List.getLast_mem _)⟩

theorem IsPhrase.rtrim_eq {str : Bytes} (h : IsPhrase str) : rtrim str = str := by
  obtain ⟨c, back, rfl, -⟩ := h.starts
  have hback : back = [] ∨ EndsGraph back := by
    obtain ⟨front, d, hd, hgraph⟩ := h.ends
    cases front with
    | nil => cases hd; exact Or.inl rfl
    | cons _ front => cases hd; exact Or.inr ⟨front, d, rfl, hgraph⟩
  have htrim : rtrim (c :: (back ++ [])) = c :: back := rtrim_append hback fun d hd => by cases hd
  rwa [List.append_nil] at htrim

theorem IsPhrase.xstrltrim_eq {str : Bytes} (h : IsPhrase str) (rest : Bytes) :
    xstrltrim (str ++ rest) = str ++ rest := by
  obtain ⟨c, back, rfl, hc⟩ := h.starts
  exact List.dropWhile_cons_of_neg (by simp [hc])

theorem IsPhrase.noNul {str : Bytes} (h : IsPhrase str) : 0 ∉ str := fun hm => (h.onLine _ hm).1 rfl

theorem xstrdup_eq (str : CString) : xstrdup str.bytes = str := by
  obtain ⟨bytes, hnul⟩ := str
  have h := bytes_xstrdup hnul 0
  rw [List.replicate_zero, List.append_nil] at h
  simp only [xstrdup, Mqtt.CString.mk.injEq]
  exact h

/-- The word at the front of a string ends where a character is not printable. -/
theorem word_append_cons {d : UInt8} (hd : isgraph d = false) (str rest : Bytes) :
    word (str ++ d :: rest) = word str := by
  induction str with
  | nil => exact List.takeWhile_cons_of_neg (by simp [hd])
  | cons c str ih =>
    unfold word at ih ⊢
    rw [List.cons_append, List.takeWhile_cons, List.takeWhile_cons, ih]

theorem IsWord.word_eq {str : Bytes} (h : IsWord str) : word str = str := List.takeWhile_eq_self_iff.2 h.graph

theorem xstrWordLen_eq (str : Bytes) : xstrWordLen str = (word str).length := rfl

/-- The word in front of a character that is not printable is copied. -/
theorem xstrndup_word {d : UInt8} (hd : isgraph d = false) {w : CString} (hw : IsWord w.bytes) (rest : Bytes) :
    xstrndup (w.bytes ++ d :: rest) (xstrWordLen (w.bytes ++ d :: rest)) = w := by
  rw [xstrndup, take_xstrWordLen, word_append_cons hd, hw.word_eq, xstrdup_eq]

theorem xstrWordLen_ne_zero {d : UInt8} (hd : isgraph d = false) {str : Bytes} (h : IsPhrase str) (rest : Bytes) :
    xstrWordLen (str ++ d :: rest) ≠ 0 := by
  obtain ⟨c, back, rfl, hc⟩ := h.starts
  rw [xstrWordLen_eq, word_append_cons hd, word, List.takeWhile_cons_of_pos hc, List.length_cons]
  omega

/-! ## The headers -/

theorem httpParseLine_wellFormed (stack : Bytes) {h : HttpHeader} (w : h.WellFormed) :
    httpParseLine stack h.name.bytes (0x20 :: h.valueText) = some h := by
  obtain ⟨v, hv, hphrase⟩ := w.value
  have htext : h.valueText = v.bytes := by rw [HttpHeader.valueText, hv]; rfl
  have htrim : xstrltrim (0x20 :: v.bytes) = v.bytes := by
    have := hphrase.xstrltrim_eq []
    rw [List.append_nil] at this
    exact this
  obtain ⟨c, back, hcons, hc⟩ := hphrase.starts
  have hvalue : v.bytes ≠ [] := by rw [hcons]; exact List.cons_ne_nil c back
  obtain ⟨parsed, hparsed, hval⟩ : ∃ parsed, httpParseLine stack h.name.bytes (0x20 :: h.valueText) = some parsed ∧
      parsed.value = h.value := by
    rw [httpParseLine, xstrrtrim_cons _ w.word.nonempty, htext, htrim]
    simp only [Option.bind_eq_bind, Option.bind_some]
    rw [xstrrtrim_cons _ hvalue, hphrase.rtrim_eq]
    refine ⟨_, rfl, ?_⟩
    rw [hv]
    exact congrArg some (xstrdup_eq v)
  have hgraph : HasGraph (0x20 :: h.valueText) := ⟨c, by rw [htext, hcons]; simp, hc⟩
  have hname := httpParseLine_kept h.name.noNul hparsed w.word.nonempty (Or.inr hgraph)
  rw [w.word.isPhrase.rtrim_eq] at hname
  rw [hparsed]
  obtain ⟨⟨n, hn⟩, val⟩ := parsed
  obtain ⟨⟨n', hn'⟩, val'⟩ := h
  cases hname
  cases hval
  rfl

/-- The text of the header lines, as lines. -/
def HttpHeader.headerLine {h : HttpHeader} (w : h.WellFormed) : HeaderLine where
  name := h.name.bytes
  value := 0x20 :: h.valueText
  nonempty := w.word.nonempty
  graph := fun c hc => ⟨w.word.graph c hc, fun he => w.noColon (he ▸ hc)⟩
  onLine := by
    obtain ⟨v, hv, hphrase⟩ := w.value
    rw [HttpHeader.valueText, hv]
    intro c hc
    rcases List.mem_cons.1 hc with rfl | hc
    · decide
    · exact hphrase.onLine c hc

theorem HttpHeader.line_eq {h : HttpHeader} (w : h.WellFormed) :
    h.line = (HttpHeader.headerLine w).line ++ httpLineEnd := by
  simp [HttpHeader.line, HeaderLine.line, HttpHeader.headerLine]

theorem exists_headerLines : ∀ {hs : List HttpHeader}, (∀ h ∈ hs, h.WellFormed) →
    ∃ lines : List HeaderLine, hs.flatMap HttpHeader.line = headerLines lines
  | [], _ => ⟨[], rfl⟩
  | h :: hs, w => by
    rw [List.forall_mem_cons] at w
    obtain ⟨lines, hlines⟩ := exists_headerLines w.2
    refine ⟨HttpHeader.headerLine w.1 :: lines, ?_⟩
    rw [List.flatMap_cons, hlines, HttpHeader.line_eq w.1]
    rfl

/-- A line with a name in front of its first colon. -/
theorem httpMsgParseHeadersLoop_line (stack : Bytes → Bytes) (rounds : Nat) (self : HttpMsg) (l : HeaderLine)
    (rest : Bytes) :
    httpMsgParseHeadersLoop stack (rounds + 1) self (l.line ++ (httpLineEnd ++ rest)) =
      (httpParseLine (stack (l.line ++ (httpLineEnd ++ rest))) l.name l.value).bind fun header =>
        httpMsgParseHeadersLoop stack rounds (httpMsgAddHeader self header) rest := by
  obtain ⟨c, cs, hcons, hgraph⟩ := l.line_cons
  have hskip :
      (l.line ++ (httpLineEnd ++ rest)).drop (xstrSpaceLen (l.line ++ (httpLineEnd ++ rest)) httpWhitespaceChars) =
      l.line ++ (httpLineEnd ++ rest) := by
    rw [drop_xstrSpaceLen, hcons]
    exact skipSpace_graph hgraph _
  have hlen : (l.line ++ (httpLineEnd ++ rest)).length - (httpLineEnd ++ rest).length = l.line.length := by
    rw [List.length_append, Nat.add_sub_cancel]
  have hne : l.line.length ≠ 0 := by
    rw [hcons, List.length_cons]
    omega
  have hchr : strchr l.line 0x3A = some (0x3A :: l.value) := strchr_append (fun hm => (l.graph _ hm).2 rfl) _
  have hname : l.line.take (l.line.length - (0x3A :: l.value).length) = l.name := by
    rw [HeaderLine.line, List.length_append, Nat.add_sub_cancel]
    exact List.take_left' rfl
  rw [httpMsgParseHeadersLoop]
  simp only [hskip, strstr_line l.line_onLine.noReturn, hlen, if_neg hne, List.take_left' rfl, hchr, hname]
  rfl

/-- The headers are parsed up to the empty line, and each goes in front of the others. -/
theorem httpMsgParseHeadersLoop_lines (stack : Bytes → Bytes) (rest : Bytes) :
    ∀ {hs : List HttpHeader}, (∀ h ∈ hs, h.WellFormed) → ∀ (self : HttpMsg) (rounds : Nat), hs.length < rounds →
      httpMsgParseHeadersLoop stack rounds self (hs.flatMap HttpHeader.line ++ (httpLineEnd ++ rest)) =
        some (1, { self with headers := hs.reverse ++ self.headers })
  | [], _, self, rounds + 1, _ => by
    have hfind : strstr (httpLineEnd ++ rest) httpLineEnd = some (httpLineEnd ++ rest) :=
      @strstr_line [] List.not_mem_nil rest
    have hskip : (httpLineEnd ++ rest).drop (xstrSpaceLen (httpLineEnd ++ rest) httpWhitespaceChars) =
        httpLineEnd ++ rest := by
      rw [drop_xstrSpaceLen]
      rfl
    simp only [List.flatMap_nil, List.nil_append, httpMsgParseHeadersLoop, hskip, hfind, Nat.sub_self, if_true]
    rfl
  | h :: hs, w, self, rounds + 1, hrounds => by
    rw [List.forall_mem_cons] at w
    rw [List.length_cons] at hrounds
    have hlines : (h :: hs).flatMap HttpHeader.line ++ (httpLineEnd ++ rest) =
        (HttpHeader.headerLine w.1).line ++ (httpLineEnd ++ (hs.flatMap HttpHeader.line ++ (httpLineEnd ++ rest))) := by
      rw [List.flatMap_cons, HttpHeader.line_eq w.1]
      simp only [List.append_assoc]
    have hparse : ∀ stack,
        httpParseLine stack (HttpHeader.headerLine w.1).name (HttpHeader.headerLine w.1).value = some h :=
      fun stack => httpParseLine_wellFormed stack w.1
    rw [hlines, httpMsgParseHeadersLoop_line, hparse, Option.bind_some,
      httpMsgParseHeadersLoop_lines stack rest w.2 _ _ (by omega)]
    simp [httpMsgAddHeader]

/-! ## Numbers -/

theorem digit_spec {d : Nat} (h : d < 10) :
    isdigit (UInt8.ofNat (48 + d)) = true ∧ (UInt8.ofNat (48 + d)).toNat - 48 = d := by
  have hnat : (UInt8.ofNat (48 + d)).toNat = 48 + d := UInt8.toNat_ofNat_of_lt' (show 48 + d < 256 by omega)
  constructor
  · simp only [isdigit, Bool.and_eq_true, decide_eq_true_iff, UInt8.le_iff_toNat_le, hnat, UInt8.reduceToNat]
    omega
  · rw [hnat]
    omega

theorem isdigit_formatUnsigned (n : Nat) : ∀ c ∈ formatUnsigned n, isdigit c = true := by
  unfold formatUnsigned
  split
  · simp [isdigit]
  · intro c hc
    obtain ⟨d, hd, rfl⟩ := List.mem_map.1 hc
    exact (digit_spec (Nat.digits_lt_base (by norm_num) (List.mem_reverse.1 hd))).1

theorem formatUnsigned_ne_nil (n : Nat) : formatUnsigned n ≠ [] := by
  unfold formatUnsigned
  split
  · exact List.cons_ne_nil _ _
  · rename_i hn
    simp [Nat.digits_eq_nil_iff_eq_zero, hn]

/-- The printed digits are those of the number. -/
theorem decimal_formatUnsigned (n : Nat) : decimal (formatUnsigned n) = n := by
  unfold formatUnsigned decimal
  split
  · rename_i hn
    rw [hn]
    rfl
  · have hdigits : ∀ d ∈ Nat.digits 10 n, (UInt8.ofNat (48 + d)).toNat - 48 = d := fun d hd =>
      (digit_spec (Nat.digits_lt_base (by norm_num) hd)).2
    rw [← List.map_reverse, List.reverse_reverse, List.map_map]
    calc Nat.ofDigits 10 ((Nat.digits 10 n).map _) = Nat.ofDigits 10 ((Nat.digits 10 n).map id) :=
          congrArg _ (List.map_congr_left hdigits)
      _ = n := by rw [List.map_id, Nat.ofDigits_digits]

theorem isgraph_of_isdigit {c : UInt8} (h : isdigit c = true) : isgraph c = true := by
  simp only [isdigit, isgraph, Bool.and_eq_true, decide_eq_true_iff, UInt8.le_iff_toNat_le, UInt8.reduceToNat] at h ⊢
  omega

theorem isWord_formatUnsigned (n : Nat) : IsWord (formatUnsigned n) :=
  ⟨formatUnsigned_ne_nil n, fun c hc => isgraph_of_isdigit (isdigit_formatUnsigned n c hc)⟩

/-- What is printed is read back, as long as it is a `long`. -/
theorem xstrtol_formatUnsigned {n : Nat} (h : (n : Int) ≤ longMax) : xstrtol (formatUnsigned n) = some (n : Int) := by
  obtain ⟨c, cs, hcons⟩ := List.exists_cons_of_ne_nil (formatUnsigned_ne_nil n)
  have hdigits := isdigit_formatUnsigned n
  have hc : isdigit c = true := hdigits c (by rw [hcons]; exact List.mem_cons_self ..)
  have hstart : (formatUnsigned n).dropWhile isspace = formatUnsigned n := by
    rw [hcons]
    refine List.dropWhile_cons_of_neg fun hspace => ?_
    simp only [isspace, isdigit, Bool.and_eq_true, Bool.or_eq_true, decide_eq_true_iff, UInt8.le_iff_toNat_le,
      ← UInt8.toNat_inj, UInt8.reduceToNat] at hc hspace
    omega
  have hsign : ∀ d : UInt8, isdigit d = false → (formatUnsigned n).head? ≠ some d := by
    rintro d hd hhead
    rw [hcons] at hhead
    cases hhead
    rw [hd] at hc
    cases hc
  have htake : (formatUnsigned n).takeWhile isdigit = formatUnsigned n := List.takeWhile_eq_self_iff.2 hdigits
  have hdrop : (formatUnsigned n).dropWhile isdigit = [] := List.dropWhile_eq_nil_iff.2 hdigits
  have hempty : (formatUnsigned n).isEmpty = false := by rw [hcons]; rfl
  have hmin : longMin ≤ (n : Int) := by
    unfold longMin
    omega
  have hvalue : strtol (formatUnsigned n) = ((n : Int), []) := by
    simp only [strtol, hstart, if_neg (not_or.2 ⟨hsign 0x2D rfl, hsign 0x2B rfl⟩), htake, hdrop, hempty,
      if_neg (hsign 0x2D rfl), decimal_formatUnsigned, Bool.false_eq_true, if_false, min_eq_right h]
    rw [max_eq_right hmin]
  rw [xstrtol, hvalue]
  rfl

theorem ofInt_toNat (status : UInt32) : UInt32.ofInt status.toNat = status := by
  have hlt := status.toNat_lt
  rw [UInt32.ofInt, ← UInt32.toNat_inj, Int.emod_eq_of_lt (by omega) (by omega), Int.toNat_natCast]
  simp

/-! ## Whole messages -/

/-- The text of a message: its first line, its headers and its body. -/
def messageText (line : Bytes) (headers : List HttpHeader) (body : Bytes) : Bytes :=
  line ++ (httpLineEnd ++ (headers.flatMap HttpHeader.line ++ (httpLineEnd ++ body)))

theorem messageText_eq (line : Bytes) (headers : List HttpHeader) (body : Bytes) :
    messageText line headers body = messageText line headers [] ++ body := by
  simp [messageText]

theorem length_line_le {h : HttpHeader} {headers : List HttpHeader} (hmem : h ∈ headers) (line body : Bytes) :
    h.line.length ≤ (messageText line headers body).length := by
  have hle : h.line.length ≤ (headers.flatMap HttpHeader.line).length := by
    rw [List.length_flatMap]
    exact List.single_le_sum (fun _ _ => Nat.zero_le _) _ (List.mem_map_of_mem hmem)
  simp only [messageText, List.length_append]
  omega

/-- A body that is not there is not parsed. -/
def bodyOf (body : Bytes) : Option Bytes := if body = [] then none else some body

theorem length_le_lines : ∀ headers : List HttpHeader, headers.length ≤ (headers.flatMap HttpHeader.line).length
  | [] => Nat.zero_le _
  | h :: headers => by
    have hrest := length_le_lines headers
    rw [List.flatMap_cons, List.length_append, List.length_cons, HttpHeader.line, List.length_append, List.length_cons]
    omega

section Message

variable {headers : List HttpHeader} (w : ∀ h ∈ headers, h.WellFormed) (body : Bytes)
include w

theorem find_headersEnd_message {line : Bytes} (h : 0x0D ∉ line) :
    Search.find httpHeadersEnd (messageText line headers body) = some (httpHeadersEnd ++ body) := by
  obtain ⟨lines, hlines⟩ := exists_headerLines w
  have hfind := Search.find_append body (find_headersEnd_lines lines h)
  rw [messageText, hlines]
  simpa only [List.append_assoc] using hfind

/-- Three texts on the first line, the first two of them words. -/
theorem httpViewParse_message {first second third : Bytes} (hfirst : IsWord first) (hsecond : IsWord second)
    (hthird : IsPhrase third) :
    httpViewParse (messageText (first ++ 0x20 :: (second ++ 0x20 :: third)) headers body) =
      some ⟨first ++ 0x20 :: (second ++ 0x20 :: messageText third headers body),
          some (second ++ 0x20 :: messageText third headers body),
        some (messageText third headers body), headers.flatMap HttpHeader.line ++ (httpLineEnd ++ body), body⟩ := by
  have hspace : ∀ {str : Bytes}, IsWord str → 0x20 ∉ str := fun hword hm => absurd (hword.graph _ hm) (by decide)
  have hline : 0x0D ∉ first ++ 0x20 :: (second ++ 0x20 :: third) := by
    simp only [List.mem_append, List.mem_cons, not_or]
    exact ⟨hfirst.onLine.noReturn, by decide, hsecond.onLine.noReturn, by decide, hthird.onLine.noReturn⟩
  have hend := find_headersEnd_message w body hline
  have hlineEnd := strstr_line hline (headers.flatMap HttpHeader.line ++ (httpLineEnd ++ body))
  rw [← messageText] at hlineEnd
  have hbuffer : messageText (first ++ 0x20 :: (second ++ 0x20 :: third)) headers body =
      first ++ 0x20 :: (second ++ 0x20 :: messageText third headers body) := by
    simp [messageText]
  have hblank : ∀ str : Bytes, xstrltrim (0x20 :: str) = xstrltrim str := fun str => rfl
  rw [httpViewParse, strstr, hend, hlineEnd, hbuffer, hfirst.isPhrase.xstrltrim_eq]
  simp only [Option.bind_eq_bind, Option.bind_some, Option.map_some, strchr_append (hspace hfirst), hblank,
    hsecond.isPhrase.xstrltrim_eq, strchr_append (hspace hsecond)]
  rw [show xstrltrim (messageText third headers body) = messageText third headers body from hthird.xstrltrim_eq _]
  rfl

/-- What follows the start line is parsed as the headers, and as the body if there is one. -/
theorem httpMsgParseRest_message (stack : Bytes → Bytes) {self : HttpMsg} (hself : self.headers = [] ∧ self.body = none)
    (methver : Bytes) (uristatus verreas : Option Bytes) :
    httpMsgParseRest stack self
        ⟨methver, uristatus, verreas, headers.flatMap HttpHeader.line ++ (httpLineEnd ++ body), body⟩ =
      some (1, { self with headers := headers.reverse, body := bodyOf body }) := by
  have hrounds : headers.length < (headers.flatMap HttpHeader.line ++ (httpLineEnd ++ body)).length := by
    have hlines := length_le_lines headers
    rw [List.length_append, List.length_append, show httpLineEnd.length = 2 from rfl]
    omega
  rw [httpMsgParseRest, httpMsgParseHeaders, httpMsgParseHeadersLoop_lines stack body w self _ hrounds]
  cases body with
  | nil => simp [bodyOf, hself]
  | cons c body => simp [bodyOf, hself, httpMsgAppendBody]

/-- What is parsed of the text of a request. -/
theorem httpMsgParseRequest_message (stack : Bytes → Bytes) {method uri version : CString}
    (hmethod : IsWord method.bytes)
    (huri : IsWord uri.bytes) (hversion : IsWord version.bytes) :
    httpMsgParseRequest stack httpMsgInit
        (messageText (method.bytes ++ 0x20 :: (uri.bytes ++ 0x20 :: version.bytes)) headers body) =
      some (1, { httpMsgNewRequest method uri version with headers := headers.reverse, body := bodyOf body }) := by
  have hspace : isgraph 0x20 = false := rfl
  have hreturn : isgraph 0x0D = false := rfl
  have hend : messageText version.bytes headers body =
      version.bytes ++ 0x0D :: 0x0A :: (headers.flatMap HttpHeader.line ++ (httpLineEnd ++ body)) := rfl
  rw [httpMsgParseRequest, httpViewParse_message w body hmethod huri hversion.isPhrase, hend]
  simp only [if_neg (xstrWordLen_ne_zero hspace hmethod.isPhrase _),
    if_neg (xstrWordLen_ne_zero hspace huri.isPhrase _),
    if_neg (xstrWordLen_ne_zero hreturn hversion.isPhrase _), xstrndup_word hspace hmethod, xstrndup_word hspace huri,
    xstrndup_word hreturn hversion, Option.bind_eq_bind, Option.bind_some]
  exact httpMsgParseRest_message w body stack ⟨rfl, rfl⟩ ..

/-- What is parsed of the text of a response: the reason ends with its first word. -/
theorem httpMsgParseResponse_message (stack : Bytes → Bytes) {version reason : CString} (status : UInt32)
    (hversion : IsWord version.bytes) (hreason : IsPhrase reason.bytes) :
    httpMsgParseResponse stack httpMsgInit
        (messageText (version.bytes ++ 0x20 :: (formatUnsigned status.toNat ++ 0x20 :: reason.bytes)) headers body) =
      some (1, { httpMsgNewResponse version status (xstrdup (word reason.bytes)) with
        headers := headers.reverse, body := bodyOf body }) := by
  have hspace : isgraph 0x20 = false := rfl
  have hreturn : isgraph 0x0D = false := rfl
  have hstatus := isWord_formatUnsigned status.toNat
  have hend : messageText reason.bytes headers body =
      reason.bytes ++ 0x0D :: 0x0A :: (headers.flatMap HttpHeader.line ++ (httpLineEnd ++ body)) := rfl
  have hlong : (status.toNat : Int) ≤ longMax := by
    have hlt := status.toNat_lt
    unfold longMax
    omega
  have hcode : xstrtol ((formatUnsigned status.toNat ++ 0x20 :: messageText reason.bytes headers body).take
      (xstrWordLen (formatUnsigned status.toNat ++ 0x20 :: messageText reason.bytes headers body))) =
        some (status.toNat : Int) := by
    rw [take_xstrWordLen, word_append_cons hspace, hstatus.word_eq, xstrtol_formatUnsigned hlong]
  rw [httpMsgParseResponse, httpViewParse_message w body hversion hstatus hreason]
  simp only [if_neg (xstrWordLen_ne_zero hspace hversion.isPhrase _),
    if_neg (xstrWordLen_ne_zero hspace hstatus.isPhrase _),
    hcode, xstrndup_word hspace hversion, Option.bind_eq_bind, Option.bind_some, ofInt_toNat]
  rw [hend]
  simp only [if_neg (xstrWordLen_ne_zero hreturn hreason _), xstrndup, take_xstrWordLen, word_append_cons hreturn]
  exact httpMsgParseRest_message w body stack ⟨rfl, rfl⟩ ..

end Message

/-! ## Nothing is parsed that is not there -/

theorem length_xstrdup (str : Bytes) : (xstrdup str).bytes.length ≤ str.length := (List.takeWhile_prefix _).length_le

theorem length_xstrrtrim {front str : Bytes} {trimmed : Bytes × Bytes} (h : xstrrtrim front str = some trimmed) :
    trimmed.2.length ≤ str.length := by
  rw [xstrrtrim_snd h]
  cases str with
  | nil => exact le_refl _
  | cons c str =>
    rw [rtrim, List.length_cons, List.length_cons]
    exact Nat.succ_le_succ (List.rdropWhile_prefix _ _).length_le

theorem length_httpParseLine {stack name value : Bytes} {h : HttpHeader}
    (hh : httpParseLine stack name value = some h) :
    h.name.bytes.length ≤ name.length ∧ h.valueText.length ≤ value.length := by
  obtain ⟨front, -, hh⟩ := Option.bind_eq_some_iff.1 hh
  obtain ⟨trimmed, htrimmed, hh⟩ := Option.bind_eq_some_iff.1 hh
  cases hh
  constructor
  · refine (length_xstrdup _).trans ?_
    rw [List.length_reverse]
    exact List.length_take_le ..
  · have hltrim : (xstrltrim value).length ≤ value.length := (List.dropWhile_suffix _).length_le
    exact ((length_xstrdup _).trans (length_xstrrtrim htrimmed)).trans hltrim

/-- What a message has of headers and of a body is no longer than a text. -/
structure NoLonger (msg : HttpMsg) (str : Bytes) : Prop where
  headers : ∀ h ∈ msg.headers, h.line.length ≤ str.length
  body : (msg.body.getD []).length ≤ str.length

theorem length_line (h : HttpHeader) : h.line.length = h.name.bytes.length + h.valueText.length + 4 := by
  simp [HttpHeader.line, httpLineEnd]
  omega

theorem length_httpMsgParseHeaders {stack : Bytes → Bytes} {self msg : HttpMsg} {str : Bytes}
    (hself : self.headers = [])
    (h : httpMsgParseHeaders stack self str = some (1, msg)) : ∀ hd ∈ msg.headers, hd.line.length ≤ str.length + 1 := by
  obtain ⟨hstarts, hs, hall, rfl⟩ := httpMsgParseHeadersLoop_spec h
  intro hd hmem
  rw [hself, List.append_nil, List.mem_reverse] at hmem
  obtain ⟨s, hs, hparsed⟩ := (exists_of_forall₂ hall).2 hd hmem
  obtain ⟨hname, hvalue⟩ := length_httpParseLine hparsed
  have hsplit := congrArg List.length (hstarts s hs).split
  have hends := (hstarts s hs).ends.length_le
  have hle := (suffix_of_mem_blockLinesLoop hs).length_le
  rw [List.length_append, List.length_cons, List.length_append] at hsplit
  rw [show httpLineEnd.length = 2 from rfl] at hends
  rw [length_line]
  omega

theorem length_httpViewParse {buffer : Bytes} {view : HttpView} (h : httpViewParse buffer = some view) :
    view.headers.length + 2 ≤ buffer.length ∧ view.body.length ≤ buffer.length := by
  obtain ⟨headersEnd, hend, h⟩ := Option.bind_eq_some_iff.1 h
  obtain ⟨lineEnd, hline, h⟩ := Option.bind_eq_some_iff.1 h
  cases h
  have hend' := (Search.find_spec hend).2.length_le
  have hline' := (Search.find_spec hline).2.length_le
  have hprefix := (Search.find_spec hline).1.length_le
  simp only [List.length_drop, show httpLineEnd.length = 2 from rfl] at hprefix ⊢
  omega

theorem noLonger_httpMsgParseRest {stack : Bytes → Bytes} {self msg : HttpMsg} {view : HttpView} {buffer : Bytes}
    (hself : self.headers = [] ∧ self.body = none) (hview : httpViewParse buffer = some view)
    (h : httpMsgParseRest stack self view = some (1, msg)) : NoLonger msg buffer := by
  obtain ⟨⟨ret, parsed⟩, hparsed, h⟩ := Option.bind_eq_some_iff.1 h
  obtain ⟨hheaders, hbody⟩ := length_httpViewParse hview
  simp only at h
  split at h
  · simp at h
  · rename_i hret
    obtain rfl : ret = 1 := (httpMsgParseHeadersLoop_ret hparsed).resolve_right fun he => hret (by rw [he]; decide)
    have hlines := length_httpMsgParseHeaders hself.1 hparsed
    obtain ⟨-, hs, -, rfl⟩ := httpMsgParseHeadersLoop_spec hparsed
    split at h
    · cases h
      refine ⟨fun hd hmem => ?_, ?_⟩
      · have hle := hlines hd hmem
        omega
      · simpa [httpMsgAppendBody, hself.2] using hbody
    · cases h
      refine ⟨fun hd hmem => ?_, ?_⟩
      · have hle := hlines hd hmem
        omega
      · simp [hself.2]

/-- A parser that has returned 1 has not stopped with an error. -/
theorem goesOn_of_parsed {error : Prop} [Decidable error] {self msg : HttpMsg} {result : Option (Int × HttpMsg)}
    (h : (if error then some (-1, self) else result) = some (1, msg)) : result = some (1, msg) := by
  split at h
  · simp at h
  · exact h

theorem noLonger_httpMsgParseRequest {stack : Bytes → Bytes} {buffer : Bytes} {msg : HttpMsg}
    (h : httpMsgParseRequest stack httpMsgInit buffer = some (1, msg)) : NoLonger msg buffer := by
  unfold httpMsgParseRequest at h
  split at h
  · simp at h
  · rename_i view hview
    obtain ⟨uri, -, h⟩ := Option.bind_eq_some_iff.1 (goesOn_of_parsed h)
    obtain ⟨version, -, h⟩ := Option.bind_eq_some_iff.1 (goesOn_of_parsed h)
    exact noLonger_httpMsgParseRest ⟨rfl, rfl⟩ hview (goesOn_of_parsed h)

theorem noLonger_httpMsgParseResponse {stack : Bytes → Bytes} {buffer : Bytes} {msg : HttpMsg}
    (h : httpMsgParseResponse stack httpMsgInit buffer = some (1, msg)) : NoLonger msg buffer := by
  unfold httpMsgParseResponse at h
  split at h
  · simp at h
  · rename_i view hview
    obtain ⟨status, -, h⟩ := Option.bind_eq_some_iff.1 (goesOn_of_parsed h)
    have h := goesOn_of_parsed h
    split at h
    · simp at h
    · obtain ⟨reason, -, h⟩ := Option.bind_eq_some_iff.1 h
      exact noLonger_httpMsgParseRest ⟨rfl, rfl⟩ hview (goesOn_of_parsed h)

/-- A text without the end of the headers is not a message. -/
theorem httpViewParse_cut {headers : List HttpHeader} (w : ∀ h ∈ headers, h.WellFormed) {line : Bytes}
    (hline : 0x0D ∉ line)
    {n : Nat} (hn : n < (messageText line headers []).length) (body : Bytes) :
    httpViewParse ((messageText line headers body).take n) = none := by
  have hhead : messageText line headers body = messageText line headers [] ++ body := by simp [messageText]
  rw [hhead, List.take_append_of_le_length hn.le, httpViewParse_eq_none_iff, ← Search.find_isSome_iff,
    Option.isSome_iff_exists]
  rintro ⟨found, hfound⟩
  -- what is found would still be found in the whole text, where only the end of it is
  have hwhole := Search.find_append ((messageText line headers []).drop n) hfound
  rw [List.take_append_drop, find_headersEnd_message w [] hline, List.append_nil, Option.some_inj] at hwhole
  have hlen := congrArg List.length hwhole
  have hle := (Search.find_spec hfound).1.length_le
  rw [List.length_append, List.length_drop] at hlen
  omega

end CMx
