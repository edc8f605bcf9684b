/-
Messages that are serialized and parsed again. What comes back is the message, with its headers the
other way round, if and only if its text has a length of the type `int`; and the reason of a response
comes back only if it is a single word.
-/
import CMx.HttpMsg.Serialize

namespace CMx

open Mqtt (Bytes CString strlen)

/-! ## Texts that are too long -/

/-- What both parsers have in common on the texts with a first line and headers. -/
structure ParsesText (parse : Bytes → Option (Int × HttpMsg)) (line : Bytes) (headers : List HttpHeader) : Prop where
  incomplete : ∀ str, httpViewParse str = none → parse str = some (0, httpMsgInit)
  noLonger : ∀ str parsed, parse str = some (1, parsed) → NoLonger parsed str
  complete : ∀ body, ∃ parsed, parse (messageText line headers body) = some (1, parsed) ∧ parsed.body = bodyOf body

theorem getD_bodyOf (body : Bytes) : (bodyOf body).getD [] = body := by
  unfold bodyOf
  split
  · rename_i hbody
    exact hbody.symm
  · rfl

theorem bodyOf_inj {body body' : Bytes} (h : bodyOf body = bodyOf body') : body = body' := by
  rw [← getD_bodyOf body, h, getD_bodyOf]

/-- A text of which the headers and the body are parsed again has a length of the type `int`. -/
theorem length_text_le {msg parsed : HttpMsg} {line str : Bytes} {buffer : CharBuffer}
    {parse : Bytes → Option (Int × HttpMsg)}
    (hfirst : FirstLine msg line) (hnul : 0 ∉ msg.textWith line) (w : ∀ h ∈ msg.headers, h.WellFormed)
    (hparse : ParsesText parse line msg.headers) (h : httpMsgOutput msg buffer = some str)
    (hread : parse str = some (1, parsed))
    (hheaders : ∀ hd ∈ msg.headers, hd ∈ parsed.headers) (hbody : parsed.body = bodyOf (msg.body.getD [])) :
    (msg.textWith line).length ≤ intMax := by
  by_contra hlong
  have hlen := length_output h
  have hshort := hparse.noLonger str parsed hread
  have hint : ∀ hd ∈ msg.headers, hd.line.length ≤ intMax :=
    fun hd hmem => (hshort.headers hd (hheaders hd hmem)).trans hlen
  have hbody' : (msg.body.getD []).length ≤ intMax := by
    have hle := hshort.body
    rw [hbody, getD_bodyOf] at hle
    exact hle.trans hlen
  -- the length has wrapped around, so the output is not all of the text
  obtain ⟨hret, hstr⟩ := output_take h hfirst hnul hint hbody'
  have hwraps := cInt_wraps (not_le.1 hlong) hret
  generalize (cInt (msg.textWith line).length).toNat = n at hstr hwraps
  rcases Nat.lt_or_ge n (messageText line msg.headers []).length with hcut | hbehind
  · have hnone := httpViewParse_cut w hfirst.noReturn hcut (msg.body.getD [])
    rw [hstr, HttpMsg.textWith, hparse.incomplete _ hnone] at hread
    cases hread
  · have htext :
        str = messageText line msg.headers ((msg.body.getD []).take (n - (messageText line msg.headers []).length)) := by
      rw [hstr, textWith_eq, List.take_append, List.take_of_length_le hbehind]
      simp [messageText]
    obtain ⟨parsed', hparsed', hbody''⟩ :=
      hparse.complete ((msg.body.getD []).take (n - (messageText line msg.headers []).length))
    rw [← htext, hread] at hparsed'
    cases hparsed'
    have hsame := congrArg List.length (bodyOf_inj (hbody''.symm.trans hbody))
    have hsum := congrArg List.length (textWith_eq msg line)
    rw [List.length_take] at hsame
    rw [List.length_append] at hsum
    omega

/-- Only the test of the whole text is left of the tests in front of its parts. -/
theorem output_eq {msg : HttpMsg} {line str : Bytes} {buffer : CharBuffer} (hfirst : FirstLine msg line)
    (hnul : 0 ∉ msg.textWith line) (h : httpMsgOutput msg buffer = some str)
    (hlen : (msg.textWith line).length ≤ intMax) :
    str = msg.textWith line := by
  have hsum := congrArg List.length (textWith_eq msg line)
  rw [List.length_append] at hsum
  have hint : ∀ hd ∈ msg.headers, hd.line.length ≤ intMax :=
    fun hd hmem => (length_line_le hmem line (msg.body.getD [])).trans hlen
  obtain ⟨-, hstr⟩ := output_take h hfirst hnul hint (by omega)
  rw [cInt_of_le hlen, Int.toNat_natCast, List.take_length] at hstr
  exact hstr

/-! ## The text of a message -/

/-- The first line of a message; one with a method and a URI is a request. -/
def HttpMsg.firstLine (msg : HttpMsg) : Bytes :=
  let bytes (s : Option CString) := (s.map CString.bytes).getD []
  if msg.method.isSome && msg.uri.isSome then bytes msg.method ++ 0x20 :: (bytes msg.uri ++ 0x20 :: bytes msg.version)
  else bytes msg.version ++ 0x20 :: (formatUnsigned msg.status.toNat ++ 0x20 :: bytes msg.reason)

/-- The text that a message is to be serialized to. -/
def HttpMsg.text (msg : HttpMsg) : Bytes := msg.textWith msg.firstLine

/-- What requests and responses have in common. -/
structure HttpMsg.WellFormed (msg : HttpMsg) : Prop where
  version : ∃ version, msg.version = some version ∧ IsWord version.bytes
  headers : ∀ h ∈ msg.headers, h.WellFormed
  body : 0 ∉ msg.body.getD []

theorem HttpMsg.WellFormed.noNul {msg : HttpMsg} (w : msg.WellFormed) {line : Bytes} (h : 0 ∉ line) :
    0 ∉ msg.textWith line := by
  obtain ⟨lines, hlines⟩ := exists_headerLines w.headers
  have hhead := headerLines_noNul h lines
  have htext : msg.textWith line = line ++ (httpLineEnd ++ (headerLines lines ++ httpLineEnd)) ++ msg.body.getD [] := by
    simp [HttpMsg.textWith, messageText, hlines]
  rw [htext, List.mem_append, not_or]
  exact ⟨hhead, w.body⟩

/-! ## Requests -/

structure HttpMsg.IsRequest (msg : HttpMsg) : Prop extends msg.WellFormed where
  method : ∃ method, msg.method = some method ∧ IsWord method.bytes
  uri : ∃ uri, msg.uri = some uri ∧ IsWord uri.bytes

/-- A request is parsed again from a text. -/
def RequestReadsBack (stack : Bytes → Bytes) (msg : HttpMsg) (str : Bytes) : Prop :=
  ∃ parsed, httpMsgParseRequest stack httpMsgInit str = some (1, parsed) ∧ parsed.method = msg.method ∧
    parsed.uri = msg.uri ∧ parsed.version = msg.version ∧ parsed.headers = msg.headers.reverse ∧
    parsed.body = bodyOf (msg.body.getD [])

/-- For every request that is serialized into some buffer: it is parsed again from the output if and only if
its text has a length of the type `int`. -/
theorem requestReadsBack_iff (stack : Bytes → Bytes) {msg : HttpMsg} (w : msg.IsRequest) {buffer : CharBuffer}
    {str : Bytes} (h : httpMsgOutput msg buffer = some str) : RequestReadsBack stack msg str ↔ msg.text.length ≤ intMax := by
  obtain ⟨version, hversion, hversionWord⟩ := w.version
  obtain ⟨method, hmethod, hmethodWord⟩ := w.method
  obtain ⟨uri, huri, huriWord⟩ := w.uri
  have hline : msg.firstLine = method.bytes ++ 0x20 :: (uri.bytes ++ 0x20 :: version.bytes) := by
    simp [HttpMsg.firstLine, hversion, hmethod, huri]
  have hfirst : FirstLine msg msg.firstLine := by
    constructor
    · refine ⟨httpReqLineFmt.length + strlen method + strlen uri + strlen version, fun out => ?_⟩
      rw [putFirstLine, hmethod, huri, hversion, hline]
      simp only [requestLine, List.append_assoc, List.cons_append]
    · simp only [hline, List.mem_append, List.mem_cons, not_or]
      exact ⟨hmethodWord.onLine.noReturn, by decide, huriWord.onLine.noReturn, by decide, hversionWord.onLine.noReturn⟩
  have hnul : 0 ∉ msg.text := w.noNul (by
    simp only [hline, List.mem_append, List.mem_cons, not_or]
    exact ⟨method.noNul, by decide, uri.noNul, by decide, version.noNul⟩)
  have hparse : ParsesText (httpMsgParseRequest stack httpMsgInit) msg.firstLine msg.headers := by
    refine ⟨fun str hnone => by rw [httpMsgParseRequest, hnone], fun str parsed => noLonger_httpMsgParseRequest,
      fun body => ?_⟩
    rw [hline]
    exact ⟨_, httpMsgParseRequest_message w.headers body stack hmethodWord huriWord hversionWord, rfl⟩
  constructor
  · rintro ⟨parsed, hread, -, -, -, hheaders, hbody⟩
    exact length_text_le hfirst hnul w.headers hparse h hread
      (fun hd hmem => by rw [hheaders]; exact List.mem_reverse.2 hmem) hbody
  · intro hlen
    have hread := httpMsgParseRequest_message w.headers (msg.body.getD []) stack hmethodWord huriWord hversionWord
    rw [← hline, ← HttpMsg.textWith, ← output_eq hfirst hnul h hlen] at hread
    exact ⟨_, hread, hmethod.symm, huri.symm, hversion.symm, rfl, rfl⟩

/-- A buffer for a short message. -/
def zeroBuffer : CharBuffer := ⟨List.replicate 64 0, by rw [List.length_replicate]; norm_num⟩

def httpVersion : CString := ⟨text "HTTP/1.1", by decide⟩

theorem isWord_httpVersion : IsWord httpVersion.bytes := ⟨by decide, by decide⟩

/-- A request of the root, with a header and a body. -/
def getRequest (headers : List HttpHeader) (body : Option Bytes) : HttpMsg :=
  { httpMsgNewRequest ⟨text "GET", by decide⟩ ⟨text "/", by decide⟩ httpVersion with headers, body }

theorem isRequest_getRequest {headers : List HttpHeader} {body : Option Bytes} (hheaders : ∀ h ∈ headers, h.WellFormed)
    (hbody : 0 ∉ body.getD []) : (getRequest headers body).IsRequest where
  version := ⟨_, rfl, isWord_httpVersion⟩
  headers := hheaders
  body := hbody
  method := ⟨_, rfl, by decide, by decide⟩
  uri := ⟨_, rfl, by decide, by decide⟩

theorem wellFormed_hostHeader : hostHeader.WellFormed where
  word := ⟨by decide, by decide⟩
  noColon := by decide
  value := ⟨_, rfl, by decide, ⟨_, _, rfl, by decide⟩, [], 0x79, rfl, by decide⟩

/-- A short request. -/
theorem requestReadsBack_short :
    RequestReadsBack (fun _ => []) (getRequest [hostHeader] (some (text "a: b")))
        (text "GET / HTTP/1.1\r\nHost: y\r\n\r\na: b") := by
  have w : (getRequest [hostHeader] (some (text "a: b"))).IsRequest :=
    isRequest_getRequest (List.forall_mem_cons.2 ⟨wellFormed_hostHeader, fun h hh => by cases hh⟩) (by decide)
  have houtput : httpMsgOutput (getRequest [hostHeader] (some (text "a: b"))) zeroBuffer =
      some (text "GET / HTTP/1.1\r\nHost: y\r\n\r\na: b") := by decide +kernel
  exact (requestReadsBack_iff _ w houtput).2 (by decide +kernel)

/-- The buffer behind the headers of the request. -/
def requestHead : Output := ⟨text "GET / HTTP/1.1\r\n\r\n" ++ List.replicate 46 0, 18, 46⟩

/-- A body of 2^31 bytes goes through the test with a negative size, and the end of the headers gets lost. -/
theorem httpMsgOutput_longBody {body : Bytes} (h : body.length = 2 ^ 31) (hnul : 0 ∉ body) :
    httpMsgOutput (getRequest [] (some body)) zeroBuffer = some (text "GET / HTTP/1.1\r\n\r") := by
  have hhead : putHead (getRequest [] (some body)) ⟨zeroBuffer.bytes, 0, zeroBuffer.bytes.length⟩ =
      .ok requestHead := by
    have hempty : putHead (getRequest [] none) ⟨zeroBuffer.bytes, 0, zeroBuffer.bytes.length⟩ = .ok requestHead := by
      decide +kernel
    exact hempty
  -- the estimate wraps around, so the test finds room for the body
  have hsize : cInt (httpBodyFmt.length + (body ++ [0]).length : Nat) = -2147483645 := by
    rw [List.length_append, h]
    decide +kernel
  have hprint : (snprintf 46 body).length = 46 := by
    rw [snprintf, if_neg (by decide), List.length_append, List.length_take, h]
    rfl
  have hwrite : requestHead.offset + (snprintf 46 body).length ≤ requestHead.memory.length := by
    rw [hprint]
    decide +kernel
  -- and the error of `snprintf` is added to the offset
  have hlen : snprintfLen body = -1 := by
    rw [snprintfLen, h, if_neg (by decide +kernel)]
  have hput : putBody (body ++ [0]) requestHead =
      .ok (requestHead.advance (overwrite requestHead.memory 18 (snprintf 46 body)) (-1)) := by
    have hroom : ¬ (-2147483645 : Int) ≥ cInt requestHead.left := by decide +kernel
    rw [putBody, show (xstrdup (body ++ [0])).bytes = body from bytes_xstrdup hnul 1, putText, hsize, if_neg hroom,
      hlen, show requestHead.left = 46 from rfl, Output.write, if_pos hwrite]
    rfl
  have hout : httpMsgOutput (getRequest [] (some body)) zeroBuffer =
      output (serialized (httpMsgAppendBody (getRequest [] (some body)) [0]) (putBody (body ++ [0]) requestHead)) := by
    rw [httpMsgOutput, httpMsgSerialize, hhead]
    rfl
  have hfront : (overwrite requestHead.memory 18 (snprintf 46 body)).take 17 = text "GET / HTTP/1.1\r\n\r" := by
    have hwrite' : 18 + (snprintf 46 body).length ≤ requestHead.memory.length := hwrite
    rw [overwrite_eq hwrite', List.append_assoc, List.take_append_of_le_length (by decide +kernel)]
    decide +kernel
  have hoffset : ∀ memory, (requestHead.advance memory (-1)).offset = 17 := by
    intro memory
    have hmod : ((requestHead.offset : Int) + -1) % 2 ^ 64 = 17 := by decide +kernel
    rw [Output.advance]
    simp only [hmod]
    rfl
  have hmemory : ∀ memory, (requestHead.advance memory (-1)).memory = memory := fun memory => rfl
  rw [hout, hput, output_of_offset _ (hoffset _) (by decide +kernel), hmemory, hfront]
  decide +kernel

/-- Such a body makes an incomplete message of the request. -/
theorem requestReadsBack_longBody : ¬ ∀ (stack : Bytes → Bytes) (msg : HttpMsg), msg.IsRequest →
    ∀ (buffer : CharBuffer) (str : Bytes), httpMsgOutput msg buffer = some str → RequestReadsBack stack msg str := by
  intro h
  obtain ⟨body, hlen, hnul⟩ : ∃ body : Bytes, body.length = 2 ^ 31 ∧ 0 ∉ body :=
    ⟨List.replicate (2 ^ 31) 0x41, List.length_replicate, fun hm => absurd (List.eq_of_mem_replicate hm) (by decide)⟩
  have w : (getRequest [] (some body)).IsRequest := isRequest_getRequest (fun hd hh => by cases hh) hnul
  obtain ⟨parsed, hparsed, -⟩ := h (fun _ => []) _ w zeroBuffer _ (httpMsgOutput_longBody hlen hnul)
  have hincomplete : httpViewParse (text "GET / HTTP/1.1\r\n\r") = none := by decide +kernel
  rw [httpMsgParseRequest, hincomplete] at hparsed
  cases hparsed

/-! ## Responses -/

structure HttpMsg.IsResponse (msg : HttpMsg) : Prop extends msg.WellFormed where
  noRequest : msg.method = none ∨ msg.uri = none
  status : msg.status < 1000
  reason : ∃ reason, msg.reason = some reason ∧ IsPhrase reason.bytes

/-- A response is parsed again from a text. -/
def ResponseReadsBack (stack : Bytes → Bytes) (msg : HttpMsg) (str : Bytes) : Prop :=
  ∃ parsed, httpMsgParseResponse stack httpMsgInit str = some (1, parsed) ∧ parsed.version = msg.version ∧
    parsed.status = msg.status ∧ parsed.reason = msg.reason ∧ parsed.headers.Perm msg.headers ∧
    parsed.body = bodyOf (msg.body.getD [])

/-- For every response that is serialized into some buffer: it is parsed again from the output if and only if
its reason is a single word and its text has a length of the type `int`. -/
theorem responseReadsBack_iff (stack : Bytes → Bytes) {msg : HttpMsg} (w : msg.IsResponse) {buffer : CharBuffer}
    {str : Bytes} (h : httpMsgOutput msg buffer = some str) :
    ResponseReadsBack stack msg str ↔
      (∀ reason, msg.reason = some reason → IsWord reason.bytes) ∧ msg.text.length ≤ intMax := by
  obtain ⟨version, hversion, hversionWord⟩ := w.version
  obtain ⟨reason, hreason, hreasonPhrase⟩ := w.reason
  have hstatusWord := isWord_formatUnsigned msg.status.toNat
  have hline : msg.firstLine =
      version.bytes ++ 0x20 :: (formatUnsigned msg.status.toNat ++ 0x20 :: reason.bytes) := by
    rcases w.noRequest with hnone | hnone <;> simp [HttpMsg.firstLine, hversion, hreason, hnone]
  have hfirst : FirstLine msg msg.firstLine := by
    constructor
    · refine ⟨httpRespLineFmt.length + strlen version + 3 + strlen reason, fun out => ?_⟩
      have hput : putFirstLine msg out = putText (httpRespLineFmt.length + strlen version + 3 + strlen reason)
          (responseLine version msg.status reason) out := by
        rw [putFirstLine, hversion, hreason]
        rcases w.noRequest with hnone | hnone
        · rw [hnone]
        · rw [hnone]
          cases msg.method <;> rfl
      rw [hput, hline]
      simp only [responseLine, List.append_assoc, List.cons_append]
    · simp only [hline, List.mem_append, List.mem_cons, not_or]
      exact ⟨hversionWord.onLine.noReturn, by decide, hstatusWord.onLine.noReturn, by decide,
        hreasonPhrase.onLine.noReturn⟩
  have hnul : 0 ∉ msg.text := w.noNul (by
    simp only [hline, List.mem_append, List.mem_cons, not_or]
    exact ⟨version.noNul, by decide, hstatusWord.isPhrase.noNul, by decide, reason.noNul⟩)
  have hmessage := fun body => httpMsgParseResponse_message w.headers body stack msg.status hversionWord hreasonPhrase
  rw [← hline] at hmessage
  have hparse : ParsesText (httpMsgParseResponse stack httpMsgInit) msg.firstLine msg.headers :=
    ⟨fun str hnone => by rw [httpMsgParseResponse, hnone], fun str parsed => noLonger_httpMsgParseResponse,
      fun body => ⟨_, hmessage body, rfl⟩⟩
  constructor
  · rintro ⟨parsed, hread, -, -, hsame, hheaders, hbody⟩
    have hlen := length_text_le hfirst hnul w.headers hparse h hread (fun hd hmem => hheaders.mem_iff.2 hmem) hbody
    refine ⟨fun r hr => ?_, hlen⟩
    -- only the first word of the reason comes back, so it is the whole reason
    have hall := hmessage (msg.body.getD [])
    rw [← HttpMsg.textWith, ← output_eq hfirst hnul h hlen, hread] at hall
    have hparsed : parsed.reason = some (xstrdup (word reason.bytes)) := by
      cases hall
      rfl
    rw [hsame, hr] at hparsed
    rw [hreason] at hr
    cases hr
    have hbytes : reason.bytes = (xstrdup (word reason.bytes)).bytes := congrArg CString.bytes (Option.some.inj hparsed)
    obtain ⟨c, back, hcons, -⟩ := hreasonPhrase.starts
    refine ⟨by rw [hcons]; exact List.cons_ne_nil c back, fun c hc => ?_⟩
    rw [hbytes] at hc
    exact List.mem_takeWhile_imp ((List.takeWhile_prefix _).subset hc)
  · rintro ⟨hword, hlen⟩
    have hread := hmessage (msg.body.getD [])
    rw [← HttpMsg.textWith, ← output_eq hfirst hnul h hlen, (hword reason hreason).word_eq, xstrdup_eq] at hread
    exact ⟨_, hread, hversion.symm, rfl, hreason.symm, List.reverse_perm _, rfl⟩

def okReason : CString := ⟨text "OK", by decide⟩
def notFoundReason : CString := ⟨text "Not Found", by decide⟩

theorem isResponse_reason {status : UInt32} {reason : CString} (hstatus : status < 1000)
    (hreason : IsPhrase reason.bytes) :
    (httpMsgNewResponse httpVersion status reason).IsResponse where
  version := ⟨_, rfl, isWord_httpVersion⟩
  headers := fun h hh => by cases hh
  body := List.not_mem_nil
  noRequest := Or.inl rfl
  status := hstatus
  reason := ⟨_, rfl, hreason⟩

/-- A reason of one word. -/
theorem responseReadsBack_short :
    ResponseReadsBack (fun _ => []) (httpMsgNewResponse httpVersion 200 okReason) (text "HTTP/1.1 200 OK\r\n\r\n") := by
  have hword : IsWord okReason.bytes := ⟨by decide, by decide⟩
  have houtput : httpMsgOutput (httpMsgNewResponse httpVersion 200 okReason) zeroBuffer =
      some (text "HTTP/1.1 200 OK\r\n\r\n") := by
    decide +kernel
  refine (responseReadsBack_iff _ (isResponse_reason (by decide) hword.isPhrase) houtput).2
    ⟨fun reason hreason => ?_, by decide +kernel⟩
  cases hreason
  exact hword

/-- A reason of two words. -/
theorem responseReadsBack_notFound : ¬ ∀ (stack : Bytes → Bytes) (msg : HttpMsg), msg.IsResponse →
    ∀ (buffer : CharBuffer) (str : Bytes), httpMsgOutput msg buffer = some str → ResponseReadsBack stack msg str := by
  intro h
  have hphrase : IsPhrase notFoundReason.bytes :=
    ⟨by decide, ⟨_, _, rfl, by decide⟩, text "Not Foun", 0x64, by decide, by decide⟩
  have houtput : httpMsgOutput (httpMsgNewResponse httpVersion 404 notFoundReason) zeroBuffer =
      some (text "HTTP/1.1 404 Not Found\r\n\r\n") := by decide +kernel
  obtain ⟨parsed, hparsed, -, -, hreason, -⟩ :=
    h (fun _ => []) _ (isResponse_reason (by decide) hphrase) zeroBuffer _ houtput
  have hread : httpMsgParseResponse (fun _ => []) httpMsgInit (text "HTTP/1.1 404 Not Found\r\n\r\n") =
      some (1, httpMsgNewResponse httpVersion 404 ⟨text "Not", by decide⟩) := by decide +kernel
  rw [hread] at hparsed
  cases hparsed
  exact absurd hreason (by decide +kernel)

end CMx
