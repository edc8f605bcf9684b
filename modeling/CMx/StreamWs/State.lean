/-
The stream of `stream_ws.c`: its state, the opening handshake, received frames and the operations
of the application. As for `stream_mqtt.c`, the transport below is seen from outside, and `trace`
is the history of the stream, which no function of the source reads.
-/
import CMx.Timer
import CMx.Buffer
import CMx.Websocket
import CMx.StreamMqtt.Receive

namespace CMx.Ws

open Mqtt (Bytes CString StreamStatus ReadEnd Errno)

def wsKeyBufferSize : Nat := 128
def wsMessageBufferSize : Nat := 4096
def wsKeepAliveServerTimeout : Nat := 100
def wsKeepAliveClientTimeout : Nat := 90

/-! ## The state -/

/-- A message of the cache: the payloads received of it, whether they are all, and its opcode. -/
structure WsFrameSlice where
  buffer : Bytes
  fin : Bool
  opcode : UInt8
  deriving DecidableEq, Repr

/-- What happens to a stream. -/
inductive Event where
  | write (data : Bytes)
  /-- A complete handshake message is accepted, or answered with "disconnect". -/
  | handshake (accepted : Bool)
  /-- A frame has come to the switch of `stream_ws_handle_received_frame`. -/
  | receive (frame : WsFrame) (payload : Bytes)
  deriving DecidableEq, Repr

def Event.written : Event → Option Bytes
  | .write data => some data
  | _ => none

structure StreamWs where
  status : StreamStatus
  buffer : Buffer
  clientRole : Bool
  cache : List WsFrameSlice
  dataType : UInt8
  key : Option CString
  mask : Option Mask
  keepAlive : Nat
  keepAliveResponded : Bool
  keepAliveTimer : Timer
  trace : List Event

/-- What a call finds outside of the stream: the clock, the answers of the transport, random masks
(indexed by the length of the history) and a random key, the memory behind the allocation of the
receive buffer up to its first NUL, and `errno`: what it is when the call is made, and what each
write of the call sets it to, if it does. -/
structure Env where
  clock : Clock
  writeResult : Int
  timeResult : Int
  randomMask : Nat → Mask
  randomKey : Vector UInt8 16
  behind : CString
  errno : Errno
  writeErrno : Nat → Option Errno

/-- The clock at a second, with nothing else to find. -/
def Env.at (seconds : Int) : Env where
  clock := ⟨seconds * 1000, seconds, 0, ⟨seconds, 0, seconds⟩⟩
  writeResult := 1
  timeResult := 1
  randomMask := fun _ => Vector.replicate 4 0
  randomKey := Vector.replicate 16 0
  behind := ⟨[], by simp⟩
  errno := .again
  writeErrno := fun _ => none

/-- `errno` behind the first writes of a call. -/
def Env.errnoBehind (env : Env) : (writes : Nat) → Errno
  | 0 => env.errno
  | writes + 1 => (env.writeErrno writes).getD (env.errnoBehind writes)

/-- What is outside for the rest of a call. -/
def Env.continued (env : Env) (writes : Nat) : Env :=
  { env with errno := env.errnoBehind writes, writeErrno := fun write => env.writeErrno (writes + write) }

/-- `stream_ws_new` with the memory that it gets for the receive buffer. -/
def streamWsInit (fresh : Vector UInt8 4096) : StreamWs where
  status := .init
  buffer := bufferInit fresh.toList
  clientRole := false
  cache := []
  dataType := wsOpcodeBinary
  key := none
  mask := none
  keepAlive := 0
  keepAliveResponded := true
  keepAliveTimer := timerStop
  trace := []

namespace StreamWs

def log (s : StreamWs) (e : Event) : StreamWs := { s with trace := s.trace ++ [e] }

/-- `timer_start(&self->keep_alive_timer, TIMER_SEC, self->keep_alive)`. -/
def startKeepAliveTimer (s : StreamWs) (env : Env) : StreamWs :=
  { s with keepAliveTimer := timerStart env.clock timerSec s.keepAlive }

/-- The string at `self->buffer.data`: it goes on behind the live range, up to the first NUL. -/
def string (s : StreamWs) (env : Env) : Bytes :=
  (s.buffer.alloc.drop s.buffer.data ++ env.behind.bytes).takeWhile (· ≠ 0)

/-- How many writes there have been. -/
def writeCount (s : StreamWs) : Nat := s.trace.countP (·.written.isSome)

/-- The first message of the cache is complete. -/
def waiting (s : StreamWs) : Bool := s.cache.head?.any (·.fin)

end StreamWs

def streamWsSetStatus (s : StreamWs) (status : StreamStatus) : StreamWs := { s with status }

/-! ## Writing frames -/

/-- `stream_do_write`. -/
def streamDoWrite (env : Env) (s : StreamWs) (data : Bytes) : Int × StreamWs :=
  (env.writeResult, s.log (.write data))

def streamWsGenerateMask (env : Env) (s : StreamWs) : StreamWs :=
  { s with mask := if s.clientRole then some (env.randomMask s.trace.length) else none }

def streamWsWriteFrame (env : Env) (s : StreamWs) (fin : Bool) (opcode : UInt8) (mask : Option Mask) (buffer : Bytes) :
    Int × StreamWs :=
  streamDoWrite env s (wsFormatFrame ((if fin then wsFinFlag else 0) ||| opcode) mask buffer)

/-- The two bytes of the code are sent as two little-endian `unsigned short`s. -/
def streamWsDisconnect (env : Env) (s : StreamWs) (code : UInt16) : StreamWs :=
  let payload := [(code >>> 8).toUInt8, 0, code.toUInt8, 0]
  let s := streamWsGenerateMask env s
  let (_, s) := streamWsWriteFrame env s true wsOpcodeClose s.mask payload
  streamWsSetStatus s .closing

/-- `snprintf` of a text into a buffer of `size` bytes. -/
def snprintf (size : Nat) (formatted : Bytes) : Bytes := formatted.take (size - 1)

/-! ## The opening handshake -/

def handshakeRequest (uri header key : Bytes) : Bytes :=
  text "GET " ++ uri ++ text " HTTP/1.1\r\n" ++ header ++
    text "Upgrade: websocket\r\nConnection: Upgrade\r\nSec-WebSocket-Version: 13\r\nSec-WebSocket-Key: " ++ key ++
    text "\r\n\r\n"

def handshakeResponse (acceptKey : Bytes) : Bytes :=
  text "HTTP/1.1 101 Switching Protocols\r\nUpgrade: websocket\r\nConnection: Upgrade\r\nSec-WebSocket-Accept: " ++
    acceptKey ++ text "\r\n\r\n"

def secWebSocketKey : Bytes := text "Sec-WebSocket-Key"
def secWebSocketAccept : Bytes := text "Sec-WebSocket-Accept"

theorem noNul_of_graph {str : Bytes} (h : ∀ c ∈ str, isgraph c = true) : 0 ∉ str := fun h0 => absurd (h 0 h0) (by decide)

/-- A key of 16 random bytes. -/
def randomKey (env : Env) : CString where
  bytes := base64EncodeLoop env.randomKey.toList
  noNul := noNul_of_graph (base64EncodeLoop_graph _)

/-- The buffer for the random key suffices, so there is always a key. -/
def streamWsConnect (env : Env) (s : StreamWs) (uri key header : Option CString) : StreamWs :=
  let s := { s with clientRole := true }
  let key := key.getD (randomKey env)
  let s := { s with key := some key }
  let request := handshakeRequest (uri.elim (text "/") (·.bytes)) (header.elim [] (·.bytes)) key.bytes
  (streamDoWrite env s (snprintf wsMessageBufferSize request)).2

section Handshake

variable (sha1 : Sha1) (env : Env) (s : StreamWs)

/-- "Disconnect": the message is thrown away. -/
def streamWsRefuse : Except Errno Nat × StreamWs :=
  (.ok 0, { s.log (.handshake false) with buffer := bufferReset s.buffer })

/-- The message is accepted: the stream is ready, and the buffer is empty for its frames. -/
def streamWsAccept (keepAlive : Nat) : StreamWs :=
  { s.log (.handshake true) with status := .ready, buffer := bufferReset s.buffer, keepAlive }.startKeepAliveTimer env

/-- The word at the front of a header value in the string of the buffer ends with a NUL. -/
def streamWsEndWord (value : Bytes) : StreamWs :=
  let offset := (s.string env).length - value.length + xstrWordLen value
  { s with buffer := bufferOverwrite s.buffer offset [0] }

def streamWsHandleHandshakeRequest : Except Errno Nat × StreamWs :=
  match httpViewParse (s.string env) with
  | none => (.error .again, s)
  | some httpView =>
    match httpHeaderFind httpView.headers secWebSocketKey with
    | none => streamWsRefuse s
    | some (_, key) =>
      let keyLen := xstrWordLen key
      let s := streamWsEndWord env s key
      match wsCalculateAcceptKey sha1 (key.take keyLen) wsKeyBufferSize with
      | none => streamWsRefuse s
      | some acceptKey =>
        let (_, s) := streamDoWrite env s (snprintf wsMessageBufferSize (handshakeResponse acceptKey))
        (.error .again, streamWsAccept env s wsKeepAliveServerTimeout)

def streamWsHandleHandshakeAccept : Except Errno Nat × StreamWs :=
  match httpViewParse (s.string env) with
  | none => (.error .again, s)
  | some httpView =>
    match s.key with
    | none => streamWsRefuse s
    | some ownKey =>
      match httpHeaderFind httpView.headers secWebSocketAccept with
      | none => streamWsRefuse s
      | some (_, key) =>
        let keyLen := xstrWordLen key
        let s := streamWsEndWord env s key
        match wsCalculateAcceptKey sha1 ownKey.bytes wsKeyBufferSize with
        | none => streamWsRefuse s
        | some acceptKey =>
          -- the comparison is as long as the received word, which may be shorter than the key
          if strneq acceptKey (key.take keyLen) keyLen then
            (.error .again, { streamWsAccept env s wsKeepAliveClientTimeout with key := none })
          else streamWsRefuse s

/-- The handler for the role of the stream. -/
def streamWsHandleHandshake : Except Errno Nat × StreamWs :=
  if s.clientRole then streamWsHandleHandshakeAccept sha1 env s else streamWsHandleHandshakeRequest sha1 env s

end Handshake

/-! ## Received frames -/

def wsFrameSliceNew (payload : Bytes) (frame : WsFrame) : WsFrameSlice := ⟨payload, frame.finFlag, frame.opcode⟩

/-- The last message of the cache goes on. -/
def appendToLast (cache : List WsFrameSlice) (payload : Bytes) (fin : Bool) : List WsFrameSlice :=
  match cache with
  | [] => []
  | [slice] => [{ slice with buffer := slice.buffer ++ payload, fin }]
  | slice :: next :: rest => slice :: appendToLast (next :: rest) payload fin

section Frames

variable (env : Env) (s : StreamWs) (frame : WsFrame)

/-- The switch of `stream_ws_handle_received_frame`. -/
def streamWsHandlePayload (payload : Bytes) : StreamWs :=
  if frame.opcode = wsOpcodeText ∨ frame.opcode = wsOpcodeBinary then
    { s with dataType := frame.opcode, cache := s.cache ++ [wsFrameSliceNew payload frame] }
  else if frame.opcode = wsOpcodeContinue then { s with cache := appendToLast s.cache payload frame.finFlag }
  else if frame.opcode = wsOpcodePing then
    let s := streamWsGenerateMask env s
    let (_, s) := streamWsWriteFrame env s true wsOpcodePong s.mask payload
    s.startKeepAliveTimer env
  else if frame.opcode = wsOpcodePong then { s with keepAliveResponded := true }
  else s

/-- Whether the payload is read: it is unmasked, or the switch copies it. -/
def streamWsReadsPayload : Bool :=
  (frame.maskFlag && !s.clientRole) || frame.opcode = wsOpcodeText || frame.opcode = wsOpcodeBinary ||
    (frame.opcode = wsOpcodeContinue && !s.cache.isEmpty) || frame.opcode = wsOpcodePing

/-- What is done to a masked frame: a client closes, a server unmasks the payload in its buffer. -/
def streamWsUnmask : StreamWs :=
  if frame.maskFlag then
    if s.clientRole then streamWsDisconnect env s wsCloseProtocolError
    else
      let payload := wsApplyMask (payloadAt s.buffer.live frame) (maskAt s.buffer.live frame.maskOffset)
      { s with buffer := bufferOverwrite s.buffer frame.payloadOffset payload }
  else s

/-- `none` where a payload is read that is as large as the address space. -/
def streamWsHandleReceivedFrame : Option StreamWs :=
  if frame.Wraps ∧ streamWsReadsPayload s frame = true then none
  else
    let s := streamWsUnmask env s frame
    let payload := payloadAt s.buffer.live frame
    some (streamWsHandlePayload env (s.log (.receive frame payload)) frame payload)

end Frames

/-- The inner loop of `stream_ws_peek_frame`, at most `rounds` times; `none` where it crashes or, at
a frame whose size has wrapped around to zero, never ends. -/
def streamWsParseLoop (env : Env) : (rounds : Nat) → StreamWs → Option StreamWs
  | 0, s => if bufferIsEmpty s.buffer then some s else none
  | rounds + 1, s =>
    if bufferIsEmpty s.buffer then some s
    else
      match wsParseFrame s.buffer.live with
      | .more _ => some s
      | .frame frame frameLength =>
        match streamWsHandleReceivedFrame env s frame with
        | none => none
        | some s => streamWsParseLoop env rounds { s with buffer := bufferCut s.buffer frameLength }

/-! ## Reading -/

/-- What one read of the decorated stream returns: 1 to 4096 bytes. -/
structure Chunk where
  data : Bytes
  nonempty : data ≠ []
  fits : data.length ≤ wsMessageBufferSize

section Reading

variable (sha1 : Sha1) (env : Env)

/-- How the loop of `stream_ws_peek_frame` is left: a message is waiting, the reads have ended, or a
handshake handler has returned. -/
inductive PeekEnd where
  | waiting
  | ended
  | handled (result : Except Errno Nat)

/-- A chunk is put behind the buffer and handled. A parsed frame takes at least one byte off the
buffer or the loop does not end, so the length of the buffer bounds the rounds. -/
def streamWsReceiveChunk (s : StreamWs) (data : Bytes) : Option (Option (Except Errno Nat) × StreamWs) :=
  let s := { s with buffer := bufferAppend s.buffer data }
  if s.status ≠ .ready then
    let (result, s) := streamWsHandleHandshake sha1 env s
    some (some result, s)
  else (streamWsParseLoop env s.buffer.length s).map (none, ·)

/-- The reads of a call that are left, how its loop ended, and the stream. -/
def streamWsPeekLoop : List Chunk → StreamWs → Option (List Chunk × PeekEnd × StreamWs)
  | reads, s =>
    if s.waiting then some (reads, .waiting, s)
    else
      match reads with
      | [] => some ([], .ended, s)
      | chunk :: reads =>
        match streamWsReceiveChunk sha1 env s chunk.data with
        | none => none
        | some (some result, s) => some (reads, .handled result, s)
        | some (none, s) => streamWsPeekLoop reads s

/-- The length of the first message, if it is complete. -/
def streamWsPeeked (s : StreamWs) : Except Errno Nat :=
  match s.cache with
  | [] => .error .again
  | slice :: _ => if slice.fin then .ok slice.buffer.length else .error .again

/-- The result, the reads the call did not make, and the stream; `none` where the call crashes or
does not come back. -/
def streamWsPeekFrame (s : StreamWs) (reads : List Chunk) (last : ReadEnd) :
    Option (Except Errno Nat × List Chunk × StreamWs) :=
  (streamWsPeekLoop sha1 env reads s).map fun (left, loopEnd, s) =>
    let result :=
      match loopEnd with
      | .waiting => streamWsPeeked s
      | .handled result => result
      | .ended =>
        match last with
        | .again => streamWsPeeked s
        | .closed => .ok 0
        | .error => .error .other
    (result, left, s)

structure WsReadFrame where
  fin : Bool
  opcode : UInt8
  data : Bytes
  deriving DecidableEq, Repr

/-- `stream_ws_read_frame` with a buffer of `length` bytes. -/
def streamWsReadFrame (s : StreamWs) (length : Nat) : Except Errno WsReadFrame × StreamWs :=
  match s.cache with
  | [] => (.error .again, s)
  | slice :: cache =>
    if slice.fin = false then (.error .again, s)
    else if slice.buffer.length > length then (.error .noMem, s)
    else (.ok ⟨slice.fin, slice.opcode, slice.buffer⟩, { s with cache })

/-- What `stream_ws_do_read` takes from the first message, which need not be complete; a message
without data left is removed. -/
def streamWsTake (s : StreamWs) (length : Nat) : Except Errno Bytes × StreamWs :=
  match s.cache with
  | [] => (.error .again, s)
  | slice :: cache =>
    let rest := slice.buffer.drop length
    let cache := if rest = [] then cache else { slice with buffer := rest } :: cache
    (.ok (slice.buffer.take length), { s with cache })

/-- `stream_ws_do_read` with a buffer of `length` bytes. -/
def streamWsDoRead (s : StreamWs) (reads : List Chunk) (last : ReadEnd) (length : Nat) :
    Option (Except Errno Bytes × List Chunk × StreamWs) :=
  (streamWsPeekFrame sha1 env s reads last).map fun (ret, left, t) =>
    match ret with
    | .error errno =>
      if errno ≠ .again then (.error errno, left, t)
      else ((streamWsTake t length).1, left, (streamWsTake t length).2)
    | .ok 0 =>
      -- `errno` is what an earlier call has left, or a PONG of this one that could not be written at once
      if env.errnoBehind (t.writeCount - s.writeCount) ≠ .again then (.ok [], left, t)
      else ((streamWsTake t length).1, left, (streamWsTake t length).2)
    | .ok _ => ((streamWsTake t length).1, left, (streamWsTake t length).2)

end Reading

/-! ## Writing and time -/

def streamWsDoWrite (env : Env) (s : StreamWs) (buffer : Bytes) : Int × StreamWs :=
  let s := streamWsGenerateMask env s
  streamWsWriteFrame env s true s.dataType s.mask buffer

def streamWsDoTime (env : Env) (s : StreamWs) : Int × StreamWs :=
  let s :=
    if timerExpired env.clock s.keepAliveTimer then
      if s.clientRole then
        if s.keepAliveResponded then
          let s := streamWsGenerateMask env s
          let (_, s) := streamWsWriteFrame env s true wsOpcodePing s.mask []
          { s with keepAliveResponded := false, keepAliveTimer := timerRestart env.clock s.keepAliveTimer }
        else streamWsSetStatus s .closing
      else streamWsSetStatus s .closing
    else s
  (env.timeResult, s)

end CMx.Ws
