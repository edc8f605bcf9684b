/-
The messages of `http.c`: parsing them from a string and serializing them into the buffer of a
caller, with what these use of `string.c` and of the C library. Where they go through a null pointer
or out of all memory there is no result.
-/
import Mathlib.Data.List.DropRight
import Mathlib.Data.Nat.Digits.Defs
import CMx.Buffer
import CMx.Http
import CMx.Stream.Conserved

namespace CMx

open Mqtt (Bytes CString strlen)

/-! ## Strings -/

/-- `xstrdup` of the string at the start of some memory. -/
def xstrdup (str : Bytes) : CString where
  bytes := str.takeWhile (· ≠ 0)
  noNul := fun h => absurd (List.mem_takeWhile_imp h) (by decide)

def xstrndup (str : Bytes) (len : Nat) : CString := xstrdup (str.take len)

/-- The loop of `xstrrtrim` on an empty string: it counts from the largest `size_t` down, so it takes
away what is in front of the string, which is given nearest first. -/
def xstrrtrimFront : (front : Bytes) → Option Bytes
  | [] => none
  | ch :: front => if isgraph ch then some (ch :: front) else (xstrrtrimFront front).map (0 :: ·)

/-- `xstrrtrim`, with what is in front of the string; the first character of a string stays. -/
def xstrrtrim (front str : Bytes) : Option (Bytes × Bytes) :=
  match str with
  | [] => (xstrrtrimFront front).map (·, [])
  | ch :: str => some (front, ch :: str.rdropWhile fun ch => !isgraph ch)

/-- `isspace` in the C locale. -/
def isspace (ch : UInt8) : Bool := ch = 32 || (9 ≤ ch && ch ≤ 13)

def isdigit (ch : UInt8) : Bool := 48 ≤ ch && ch ≤ 57

/-- The number with some decimal digits. -/
def decimal (digits : Bytes) : Nat := Nat.ofDigits 10 (digits.reverse.map fun ch => ch.toNat - 48)

/-- What `%u` prints. -/
def formatUnsigned (n : Nat) : Bytes :=
  if n = 0 then [48] else (Nat.digits 10 n).reverse.map fun d => UInt8.ofNat (48 + d)

def longMin : Int := -2 ^ 63
def longMax : Int := 2 ^ 63 - 1

/-- `strtol` to the base 10: the number, or the end of the range of a `long` that is nearest to it,
and the string behind it. -/
def strtol (str : Bytes) : Int × Bytes :=
  let start := str.dropWhile isspace
  let digits := if start.head? = some 0x2D ∨ start.head? = some 0x2B then start.drop 1 else start
  let number := decimal (digits.takeWhile isdigit)
  if (digits.takeWhile isdigit).isEmpty then (0, str)
  else
    (max longMin (min longMax (if start.head? = some 0x2D then -number else number)), digits.dropWhile isdigit)

/-- `xstrtol` to the base 10. -/
def xstrtol (str : Bytes) : Option Int := if (strtol str).2.isEmpty then some (strtol str).1 else none

/-! ## Messages -/

structure HttpHeader where
  name : CString
  value : Option CString
  deriving DecidableEq

/-- A message; its body is what the buffer of the body holds. -/
structure HttpMsg where
  method : Option CString
  uri : Option CString
  version : Option CString
  status : UInt32
  reason : Option CString
  headers : List HttpHeader
  body : Option Bytes
  deriving DecidableEq

def httpMsgInit : HttpMsg := ⟨none, none, none, 0, none, [], none⟩

def httpMsgNewRequest (method uri version : CString) : HttpMsg :=
  { httpMsgInit with method := some method, uri := some uri, version := some version }

def httpMsgNewResponse (version : CString) (status : UInt32) (reason : CString) : HttpMsg :=
  { httpMsgInit with version := some version, status, reason := some reason }

def httpMsgAddHeader (self : HttpMsg) (header : HttpHeader) : HttpMsg := { self with headers := header :: self.headers }

def httpMsgAppendBody (self : HttpMsg) (buffer : Bytes) : HttpMsg :=
  { self with body := some (self.body.getD [] ++ buffer) }

/-! ## Parsing -/

/-- The header of a line whose first colon is between the two parts. The line has been copied behind
`stack`; the colon becomes the NUL behind the name, and the value is trimmed after the name. -/
def httpParseLine (stack name value : Bytes) : Option HttpHeader := do
  let (stack, trimmed) ← xstrrtrim stack name
  let skipped := value.takeWhile fun ch => !isgraph ch
  let front := skipped.reverse ++ 0 :: (List.replicate (name.length - trimmed.length) 0 ++ (trimmed.reverse ++ stack))
  let (front, value) ← xstrrtrim front (xstrltrim value)
  return ⟨xstrdup ((front.drop (skipped.length + 1)).take name.length).reverse, some (xstrdup value)⟩

section Parse

-- what is on the stack in front of the copy of a line, nearest first
variable (stack : Bytes → Bytes)

/-- The loop of `http_msg_parse_headers`, at most `rounds` times. -/
def httpMsgParseHeadersLoop : (rounds : Nat) → (self : HttpMsg) → (lineStart : Bytes) → Option (Int × HttpMsg)
  | 0, self, _ => some (-1, self)
  | rounds + 1, self, lineStart =>
    let lineStart := lineStart.drop (xstrSpaceLen lineStart httpWhitespaceChars)
    match strstr lineStart httpLineEnd with
    | none => some (-1, self)
    | some lineEnd =>
      let lineLen := lineStart.length - lineEnd.length
      if lineLen = 0 then some (1, self)
      else
        let buffer := lineStart.take lineLen
        match strchr buffer 0x3A with
        | none => some (-1, self)
        | some colon => do
          let header ← httpParseLine (stack lineStart) (buffer.take (buffer.length - colon.length)) (colon.drop 1)
          httpMsgParseHeadersLoop rounds (httpMsgAddHeader self header) (lineEnd.drop httpLineEnd.length)

/-- Every round takes a line end off the string, so its length bounds the rounds. -/
def httpMsgParseHeaders (self : HttpMsg) (headers : Bytes) : Option (Int × HttpMsg) :=
  httpMsgParseHeadersLoop stack headers.length self headers

/-- The end of both parsers: the headers and the body. -/
def httpMsgParseRest (self : HttpMsg) (view : HttpView) : Option (Int × HttpMsg) := do
  let (ret, self) ← httpMsgParseHeaders stack self view.headers
  if ret < 0 then return (-1, self)
  if view.body.length > 0 then return (1, httpMsgAppendBody self view.body)
  return (1, self)

def httpMsgParseRequest (self : HttpMsg) (buffer : Bytes) : Option (Int × HttpMsg) :=
  match httpViewParse buffer with
  | none => some (0, self)
  | some view => do
    let len := xstrWordLen view.methver
    if len = 0 then return (-1, self)
    let self := { self with method := some (xstrndup view.methver len) }
    let uri ← view.uristatus
    let len := xstrWordLen uri
    if len = 0 then return (-1, self)
    let self := { self with uri := some (xstrndup uri len) }
    let version ← view.verreas
    let len := xstrWordLen version
    if len = 0 then return (-1, self)
    let self := { self with version := some (xstrndup version len) }
    httpMsgParseRest stack self view

def httpMsgParseResponse (self : HttpMsg) (buffer : Bytes) : Option (Int × HttpMsg) :=
  match httpViewParse buffer with
  | none => some (0, self)
  | some view => do
    let len := xstrWordLen view.methver
    if len = 0 then return (-1, self)
    let self := { self with version := some (xstrndup view.methver len) }
    let status ← view.uristatus
    let len := xstrWordLen status
    if len = 0 then return (-1, self)
    match xstrtol (status.take len) with
    | none => return (-1, self)
    | some statusCode =>
      let self := { self with status := UInt32.ofInt statusCode }
      let reason ← view.verreas
      let len := xstrWordLen reason
      if len = 0 then return (-1, self)
      let self := { self with reason := some (xstrndup reason len) }
      httpMsgParseRest stack self view

end Parse

/-! ## Serializing -/

def httpReqLineFmt : Bytes := text "%s %s %s\r\n"
def httpRespLineFmt : Bytes := text "%s %u %s\r\n"
def httpHeaderLineFmt : Bytes := text "%s: %s\r\n"
def httpBodyFmt : Bytes := text "%s"

/-- The buffer of a caller; no object has more bytes. -/
structure CharBuffer where
  bytes : Bytes
  small : bytes.length < 2 ^ 63

/-- Behind `offset` in the memory of the buffer is room for `left` bytes, as long as none of the two,
each a `size_t`, has wrapped around. -/
structure Output where
  memory : Bytes
  offset : Nat
  left : Nat
  deriving DecidableEq, Repr

/-- Why the serialization goes no further: a text does not fit, or it goes through a null pointer or
writes outside of the memory. -/
inductive Stop where
  | noRoom (memory : Bytes)
  | crash
  deriving DecidableEq, Repr

/-- Writes to `buffer + offset`. -/
def Output.write (out : Output) (bytes : Bytes) : Except Stop Bytes :=
  if out.offset + bytes.length ≤ out.memory.length then .ok (overwrite out.memory out.offset bytes)
  else .error .crash

/-- `offset += len` and `buffer_len -= len`. -/
def Output.advance (out : Output) (memory : Bytes) (len : Int) : Output where
  memory
  offset := ((out.offset + len) % 2 ^ 64).toNat
  left := ((out.left - len) % 2 ^ 64).toNat

def intMax : Nat := 2 ^ 31 - 1

/-- What `snprintf` writes of a text when it has room for `left` bytes. -/
def snprintf (left : Nat) (str : Bytes) : Bytes := if left = 0 then [] else str.take (left - 1) ++ [0]

/-- What it returns: a length that is not an `int` is an error. -/
def snprintfLen (str : Bytes) : Int := if str.length ≤ intMax then str.length else -1

/-- One text of the message; `size` is what is taken for its length first. -/
def putText (size : Nat) (str : Bytes) (out : Output) : Except Stop Output := do
  if cInt size ≥ cInt out.left then throw (.noRoom out.memory)
  let memory ← out.write (snprintf out.left str)
  return out.advance memory (snprintfLen str)

def requestLine (method uri version : CString) : Bytes :=
  method.bytes ++ 0x20 :: (uri.bytes ++ 0x20 :: (version.bytes ++ httpLineEnd))

def responseLine (version : CString) (status : UInt32) (reason : CString) : Bytes :=
  version.bytes ++ 0x20 :: (formatUnsigned status.toNat ++ 0x20 :: (reason.bytes ++ httpLineEnd))

/-- The text of a header; a missing value is printed as an empty one. -/
def HttpHeader.valueText (h : HttpHeader) : Bytes := (h.value.map CString.bytes).getD []

def HttpHeader.line (h : HttpHeader) : Bytes := h.name.bytes ++ 0x3A :: 0x20 :: (h.valueText ++ httpLineEnd)

/-- The first line: a message with a method and a URI is a request. -/
def putFirstLine (self : HttpMsg) (out : Output) : Except Stop Output :=
  match self.method, self.uri with
  | some method, some uri =>
    match self.version with
    | none => .error .crash
    | some version =>
      putText (httpReqLineFmt.length + strlen method + strlen uri + strlen version) (requestLine method uri version) out
  | _, _ =>
    match self.version, self.reason with
    | some version, some reason =>
      putText (httpRespLineFmt.length + strlen version + 3 + strlen reason)
        (responseLine version self.status reason) out
    | _, _ => .error .crash

def putHeaders : (headers : List HttpHeader) → (out : Output) → Except Stop Output
  | [], out => .ok out
  | h :: headers, out => do
    let out ← putText (httpHeaderLineFmt.length + strlen h.name + h.valueText.length) h.line out
    putHeaders headers out

/-- The end of the headers is copied. -/
def putHeadersEnd (out : Output) : Except Stop Output := do
  if cInt httpLineEnd.length ≥ cInt out.left then throw (.noRoom out.memory)
  let memory ← out.write httpLineEnd
  return out.advance memory httpLineEnd.length

/-- The message up to its body. -/
def putHead (self : HttpMsg) (out : Output) : Except Stop Output := do
  let out ← putFirstLine self out
  let out ← putHeaders self.headers out
  putHeadersEnd out

/-- The body is the string in its buffer, which has got a NUL behind it. -/
def putBody (body : Bytes) (out : Output) : Except Stop Output :=
  putText (httpBodyFmt.length + body.length) (xstrdup body).bytes out

/-- What the caller gets: the result, what is left of the message, and the memory of the buffer. -/
def serialized (self : HttpMsg) : Except Stop Output → Option (Int × HttpMsg × Bytes)
  | .ok out => some (cInt out.offset, self, out.memory)
  | .error (.noRoom memory) => some (-1, self, memory)
  | .error .crash => none

def httpMsgSerialize (self : HttpMsg) (buffer : CharBuffer) : Option (Int × HttpMsg × Bytes) :=
  match putHead self ⟨buffer.bytes, 0, buffer.bytes.length⟩ with
  | .error stop => serialized self (.error stop)
  | .ok out =>
    match self.body with
    | none => serialized self (.ok out)
    | some body => serialized (httpMsgAppendBody self [0]) (putBody (body ++ [0]) out)

end CMx
