/-
The frames that a stream emits: what is written, what answers a PING, what keeps the connection alive
and what closes it. Each is parsed back as one frame with what it was meant to carry, but for the
close code, whose two bytes are sent as four, and for a masked PING to a client, which closes and then
answers it with the payload still masked.
-/
import CMx.StreamWs.Reassembly

namespace CMx.Ws

open Mqtt (Bytes CString StreamStatus ReadEnd Errno)

/-! ## Reachable streams -/

/-- What an application does with a stream. -/
inductive Operation where
  | connect (env : Env) (uri key header : Option CString)
  | disconnect (env : Env) (code : UInt16)
  | setStatus (status : StreamStatus)
  | write (env : Env) (data : Bytes)
  | writeFrame (env : Env) (fin : Bool) (opcode : UInt8) (mask : Option Mask) (data : Bytes)
  | time (env : Env)
  | peek (env : Env) (reads : List Chunk) (last : ReadEnd)
  | doRead (env : Env) (reads : List Chunk) (last : ReadEnd) (length : Nat)
  | readFrame (length : Nat)

/-- The stream behind an operation; `none` where it crashes or does not come back. -/
def StreamWs.perform (sha1 : Sha1) (s : StreamWs) : Operation → Option StreamWs
  | .connect env uri key header => some (streamWsConnect env s uri key header)
  | .disconnect env code => some (streamWsDisconnect env s code)
  | .setStatus status => some (streamWsSetStatus s status)
  | .write env data => some (streamWsDoWrite env s data).2
  | .writeFrame env fin opcode mask data => some (streamWsWriteFrame env s fin opcode mask data).2
  | .time env => some (streamWsDoTime env s).2
  | .peek env reads last => (streamWsPeekFrame sha1 env s reads last).map (·.2.2)
  | .doRead env reads last length => (streamWsDoRead sha1 env s reads last length).map (·.2.2)
  | .readFrame length => some (streamWsReadFrame s length).2

/-- The streams of all runs of operations, from a fresh one on. -/
inductive Reachable (sha1 : Sha1) : StreamWs → Prop where
  | init (fresh : Vector UInt8 4096) : Reachable sha1 (streamWsInit fresh)
  | step {s s' : StreamWs} (op : Operation) (h : Reachable sha1 s) (hop : s.perform sha1 op = some s') :
      Reachable sha1 s'

/-- Data is sent as text or as binary. -/
def StreamWs.Typed (s : StreamWs) : Prop := s.dataType = wsOpcodeText ∨ s.dataType = wsOpcodeBinary

section Typed

variable {sha1 : Sha1} {env : Env} {s s' : StreamWs}

theorem typed_handleReceivedFrame {frame : WsFrame} (hs : s.Typed)
    (h : streamWsHandleReceivedFrame env s frame = some s') :
    s'.Typed := by
  have hunmask : (streamWsUnmask env s frame).dataType = s.dataType := by
    unfold streamWsUnmask
    split
    · split <;> rfl
    · rfl
  unfold streamWsHandleReceivedFrame at h
  split at h
  · cases h
  · cases h
    unfold streamWsHandlePayload
    split
    · rename_i hdata
      exact hdata
    · rw [StreamWs.Typed, ← hunmask] at hs
      split
      · exact hs
      · split
        · exact hs
        · split <;> exact hs

theorem typed_parseLoop : ∀ (rounds : Nat) {s : StreamWs}, s.Typed → streamWsParseLoop env rounds s = some s' → s'.Typed
  | 0, s, hs, h => by
    unfold streamWsParseLoop at h
    split at h
    · cases h
      exact hs
    · cases h
  | rounds + 1, s, hs, h => by
    unfold streamWsParseLoop at h
    split at h
    · cases h
      exact hs
    · split at h
      · cases h
        exact hs
      · split at h
        · cases h
        · rename_i t hframe
          have ht := typed_handleReceivedFrame hs hframe
          refine typed_parseLoop rounds ?_ h
          exact ht

theorem dataType_handleHandshake (sha1 : Sha1) (env : Env) (s : StreamWs) :
    (streamWsHandleHandshake sha1 env s).2.dataType = s.dataType := by
  unfold streamWsHandleHandshake streamWsHandleHandshakeAccept streamWsHandleHandshakeRequest
  split
  · split
    · rfl
    · split
      · rfl
      · split
        · rfl
        · simp only
          split
          · rfl
          · split <;> rfl
  · split
    · rfl
    · split
      · rfl
      · simp only
        split <;> rfl

theorem typed_receiveChunk {data : Bytes} {result : Option (Except Errno Nat)} (hs : s.Typed)
    (h : streamWsReceiveChunk sha1 env s data = some (result, s')) : s'.Typed := by
  unfold streamWsReceiveChunk at h
  simp only at h
  split at h
  · cases h
    rw [StreamWs.Typed, dataType_handleHandshake]
    exact hs
  · obtain ⟨t, hloop, ht⟩ := Option.map_eq_some_iff.1 h
    cases ht
    have hbuffer : StreamWs.Typed { s with buffer := bufferAppend s.buffer data } := hs
    exact typed_parseLoop _ hbuffer hloop

theorem typed_peekLoop : ∀ {reads : List Chunk} {s : StreamWs} {left : List Chunk} {loopEnd : PeekEnd}, s.Typed →
    streamWsPeekLoop sha1 env reads s = some (left, loopEnd, s') → s'.Typed
  | [], s, left, loopEnd, hs, h => by
    unfold streamWsPeekLoop at h
    split at h <;> cases h <;> exact hs
  | chunk :: reads, s, left, loopEnd, hs, h => by
    unfold streamWsPeekLoop at h
    split at h
    · cases h
      exact hs
    · simp only at h
      split at h
      · cases h
      · rename_i hchunk
        cases h
        exact typed_receiveChunk hs hchunk
      · rename_i hchunk
        exact typed_peekLoop (typed_receiveChunk hs hchunk) h

theorem typed_peekFrame {reads left : List Chunk} {last : ReadEnd} {result : Except Errno Nat} (hs : s.Typed)
    (h : streamWsPeekFrame sha1 env s reads last = some (result, left, s')) : s'.Typed := by
  obtain ⟨⟨left', loopEnd, t⟩, hloop, ht⟩ := Option.map_eq_some_iff.1 h
  cases ht
  exact typed_peekLoop hs hloop

theorem dataType_take (s : StreamWs) (length : Nat) : (streamWsTake s length).2.dataType = s.dataType := by
  unfold streamWsTake
  split <;> rfl

theorem dataType_readFrame (s : StreamWs) (length : Nat) : (streamWsReadFrame s length).2.dataType = s.dataType := by
  unfold streamWsReadFrame
  split
  · rfl
  · split
    · rfl
    · split <;> rfl

theorem dataType_doTime (env : Env) (s : StreamWs) : (streamWsDoTime env s).2.dataType = s.dataType := by
  unfold streamWsDoTime
  simp only
  split
  · split
    · split <;> rfl
    · rfl
  · rfl

theorem typed_doRead {reads left : List Chunk} {last : ReadEnd} {length : Nat} {result : Except Errno Bytes}
    (hs : s.Typed)
    (h : streamWsDoRead sha1 env s reads last length = some (result, left, s')) : s'.Typed := by
  obtain ⟨⟨ret, left', t⟩, hpeek, ht⟩ := Option.map_eq_some_iff.1 h
  have htyped := typed_peekFrame hs hpeek
  have htake : (streamWsTake t length).2.Typed := by
    rw [StreamWs.Typed, dataType_take]
    exact htyped
  simp only at ht
  split at ht
  · split at ht <;> cases ht <;> [exact htyped; exact htake]
  · split at ht <;> cases ht <;> [exact htyped; exact htake]
  · cases ht
    exact htake

theorem typed_perform (hs : s.Typed) : ∀ op : Operation, s.perform sha1 op = some s' → s'.Typed
  | .connect .., h => by cases h; exact hs
  | .disconnect .., h => by cases h; exact hs
  | .setStatus .., h => by cases h; exact hs
  | .write .., h => by cases h; exact hs
  | .writeFrame .., h => by cases h; exact hs
  | .time env, h => by
    cases h
    rw [StreamWs.Typed, dataType_doTime]
    exact hs
  | .peek .., h => by
    obtain ⟨⟨result, left, t⟩, hpeek, rfl⟩ := Option.map_eq_some_iff.1 h
    exact typed_peekFrame hs hpeek
  | .doRead .., h => by
    obtain ⟨⟨result, left, t⟩, hread, rfl⟩ := Option.map_eq_some_iff.1 h
    exact typed_doRead hs hread
  | .readFrame length, h => by
    cases h
    rw [StreamWs.Typed, dataType_readFrame]
    exact hs

/-- In every run, data stays text or binary. -/
theorem Reachable.typed (h : Reachable sha1 s) : s.Typed := by
  induction h with
  | init fresh => exact Or.inr rfl
  | step op _ hop ih => exact typed_perform ih op hop

end Typed

/-! ## Emitters -/

/-- Data that a buffer for its frame can be allocated for. -/
structure Payload where
  data : Bytes
  fits : data.length + wsMaxHeaderSize < sizeRange

/-- What makes a stream emit a frame: a write, a PING at the front of the receive buffer, time, and
`stream_ws_disconnect`. -/
inductive Emitter where
  | write (payload : Payload)
  | pong (ping : Frame)
  | time
  | disconnect (code : UInt16)

namespace Emitter

/-- There is a PING to be answered, or one to be sent. -/
def Due (env : Env) (s : StreamWs) : Emitter → Prop
  | write _ => True
  | pong ping => ping.Proper ∧ ping.opcode = wsOpcodePing ∧ ping.format <+: s.buffer.live
  | time => timerExpired env.clock s.keepAliveTimer = true ∧ s.clientRole = true ∧ s.keepAliveResponded = true
  | disconnect _ => True

/-- The stream behind it; a received frame is handled as it has been parsed. -/
def emit (env : Env) (s : StreamWs) : Emitter → Option StreamWs
  | write payload => some (streamWsDoWrite env s payload.data).2
  | pong _ =>
    match wsParseFrame s.buffer.live with
    | .more _ => none
    | .frame frame _ => streamWsHandleReceivedFrame env s frame
  | time => some (streamWsDoTime env s).2
  | disconnect code => some (streamWsDisconnect env s code)

/-- The opcode and the payload that the frame is meant to have. -/
def opcode (s : StreamWs) : Emitter → UInt8
  | write _ => s.dataType
  | pong _ => wsOpcodePong
  | time => wsOpcodePing
  | disconnect _ => wsOpcodeClose

def payload : Emitter → Bytes
  | write payload => payload.data
  | pong ping => ping.payload
  | time => []
  | disconnect code => toBigEndian 2 code.toNat

end Emitter

/-- What is written between two states of a stream, write by write. -/
def writes (s s' : StreamWs) : List Bytes := (s'.trace.drop s.trace.length).filterMap Event.written

/-- The bytes are one final frame with an opcode and a payload, masked as the role asks for. -/
def IsFrame (clientRole : Bool) (opcode : UInt8) (payload bytes : Bytes) : Prop :=
  ∃ header, wsParseFrame bytes = .frame header bytes.length ∧ header.finFlag = true ∧
    (header.maskFlag = true ↔ clientRole = true) ∧ header.opcode = opcode ∧ (frameAt bytes header).payload = payload

/-- One frame is emitted, and it is the intended one. -/
def EmitsIntended (env : Env) (s : StreamWs) (e : Emitter) : Prop :=
  ∃ s' bytes, e.emit env s = some s' ∧ writes s s' = [bytes] ∧ IsFrame s.clientRole (e.opcode s) e.payload bytes

/-- No close code is sent, and no masked PING comes to a client. -/
def Emitter.Sound (s : StreamWs) : Emitter → Prop
  | .disconnect _ => False
  | .pong ping => ¬ (s.clientRole = true ∧ ping.mask.isSome = true)
  | _ => True

section Emitting

variable {env : Env} {s : StreamWs}

theorem isFrame_format_iff {f : Frame} (h : f.Proper) (hfin : f.fin = true) {clientRole : Bool}
    (hmask : f.mask.isSome = clientRole) {opcode : UInt8} {payload : Bytes} :
    IsFrame clientRole opcode payload f.format ↔ f.opcode = opcode ∧ f.payload = payload := by
  have hparse := Frame.wsParseFrame_format h []
  have hframe := Frame.frameAt_format f []
  rw [List.append_nil] at hparse hframe
  constructor
  · rintro ⟨header, hheader, -, -, hopcode, hpayload⟩
    rw [hparse] at hheader
    cases hheader
    rw [hframe] at hpayload
    exact ⟨hopcode, hpayload⟩
  · rintro ⟨hopcode, hpayload⟩
    refine ⟨f.header, hparse, hfin, ?_, hopcode, ?_⟩
    · rw [← hmask]
      rfl
    · rw [hframe]
      exact hpayload

/-- The frame of `stream_ws_write_frame` behind a new mask. -/
def emitted (env : Env) (s : StreamWs) (opcode : UInt8) (payload : Bytes) : Frame :=
  ⟨true, opcode, (streamWsGenerateMask env s).mask, payload⟩

theorem isSome_emitted_mask (env : Env) (s : StreamWs) (opcode : UInt8) (payload : Bytes) :
    (emitted env s opcode payload).mask.isSome = s.clientRole := by
  unfold emitted streamWsGenerateMask
  cases s.clientRole <;> rfl

theorem emitted_proper {opcode : UInt8} {payload : Bytes} (hopcode : opcode < 16)
    (hfits : payload.length + wsMaxHeaderSize < sizeRange) : (emitted env s opcode payload).Proper := ⟨hopcode, hfits⟩

/-- The one write of an emitter is the frame with what it is meant to carry. -/
theorem emitsIntended_of_writes {e : Emitter} {s' : StreamWs} (hemit : e.emit env s = some s') {t : StreamWs}
    (hrole : t.clientRole = s.clientRole) (hwrites : writes s s' = [(emitted env t (e.opcode s) e.payload).format])
    (hopcode : e.opcode s < 16) (hfits : e.payload.length + wsMaxHeaderSize < sizeRange) : EmitsIntended env s e := by
  refine ⟨s', _, hemit, hwrites, ?_⟩
  rw [← hrole]
  exact (isFrame_format_iff (emitted_proper hopcode hfits) rfl (isSome_emitted_mask env t _ _)).2 ⟨rfl, rfl⟩

theorem writes_eq {s s' : StreamWs} (events : List Event) (h : s'.trace = s.trace ++ events) :
    writes s s' = events.filterMap Event.written := by
  rw [writes, h, List.drop_left' rfl]

theorem emits_write (hs : s.Typed) (payload : Payload) : EmitsIntended env s (.write payload) := by
  refine emitsIntended_of_writes rfl (t := s) rfl
    (writes_eq [.write (emitted env s s.dataType payload.data).format] rfl) ?_
    payload.fits
  show s.dataType < 16
  rcases hs with h | h <;> rw [h] <;> decide

theorem emits_time (h : Emitter.time.Due env s) : EmitsIntended env s .time := by
  obtain ⟨hexpired, hrole, hresponded⟩ := h
  refine emitsIntended_of_writes rfl (t := s) rfl ?_
    (show wsOpcodePing < 16 by decide) (show 0 + wsMaxHeaderSize < sizeRange by decide)
  refine writes_eq [.write (emitted env s wsOpcodePing []).format] ?_
  unfold streamWsDoTime
  simp only
  rw [if_pos hexpired, if_pos hrole, if_pos hresponded]
  rfl

/-- Four bytes are not two. -/
theorem disconnect_unintended (code : UInt16) : ¬ EmitsIntended env s (.disconnect code) := by
  rintro ⟨s', bytes, hemit, hwrites, hframe⟩
  cases hemit
  have hclose : writes s (streamWsDisconnect env s code) =
      [(emitted env s wsOpcodeClose [(code >>> 8).toUInt8, 0, code.toUInt8, 0]).format] :=
    writes_eq [.write (emitted env s wsOpcodeClose [(code >>> 8).toUInt8, 0, code.toUInt8, 0]).format] rfl
  rw [hclose] at hwrites
  cases hwrites
  obtain ⟨-, hpayload⟩ := (isFrame_format_iff (emitted_proper (by decide) (by simp [wsMaxHeaderSize]; decide)) rfl
    (isSome_emitted_mask env s _ _)).1 hframe
  have hlen := congrArg List.length hpayload
  simp [emitted, Emitter.payload] at hlen

section Pong

variable {ping : Frame} (h : (Emitter.pong ping).Due env s)
include h

/-- The PING is found at the front of the buffer. -/
theorem parse_ping : ∃ behind, s.buffer.live = ping.format ++ behind ∧
    wsParseFrame s.buffer.live = .frame ping.header ping.format.length ∧ ¬ ping.header.Wraps ∧
    frameAt s.buffer.live ping.header = ping := by
  obtain ⟨hproper, -, behind, hbehind⟩ := h
  refine ⟨behind, hbehind.symm, ?_, Frame.not_wraps hproper, ?_⟩
  · rw [← hbehind]
    exact Frame.wsParseFrame_format hproper behind
  · rw [← hbehind]
    exact Frame.frameAt_format ping behind

theorem emit_ping : (Emitter.pong ping).emit env s = streamWsHandleReceivedFrame env s ping.header := by
  obtain ⟨-, -, hparse, -⟩ := parse_ping h
  simp only [Emitter.emit, hparse]

/-- The switch answers a PING with what is at the payload by then. -/
theorem trace_handlePing (t : StreamWs) (payload : Bytes) :
    (streamWsHandlePayload env t ping.header payload).trace =
      t.trace ++ [.write (emitted env t wsOpcodePong payload).format] := by
  have hopcode : ping.header.opcode = wsOpcodePing := h.2.1
  unfold streamWsHandlePayload
  rw [hopcode, if_neg (by decide), if_neg (by decide), if_pos rfl]
  rfl

theorem emits_pong (hmask : ¬ (s.clientRole = true ∧ ping.mask.isSome = true)) : EmitsIntended env s (.pong ping) := by
  obtain ⟨-, -, hparse, hwraps, hframe⟩ := parse_ping h
  have hrole : s.clientRole = true → ping.header.maskFlag = false := fun hc => by
    simpa [Frame.header] using fun hm => hmask ⟨hc, hm⟩
  obtain ⟨b, hunmask, -, -, hpayload⟩ := streamWsUnmask_spec env (wsParseFrame_spec hparse) hwraps hrole
  rw [hframe] at hpayload
  have hemit := emit_ping h
  unfold streamWsHandleReceivedFrame at hemit
  rw [if_neg fun hc => hwraps hc.1, hunmask] at hemit
  simp only [hpayload] at hemit
  let t := StreamWs.log { s with buffer := b } (.receive ping.header ping.payload)
  refine emitsIntended_of_writes hemit (t := t) rfl ?_ (show wsOpcodePong < 16 by decide) h.1.length_lt
  refine writes_eq [.receive ping.header ping.payload, .write (emitted env t wsOpcodePong ping.payload).format] ?_
  rw [trace_handlePing h]
  simp [t, StreamWs.log]

/-- A client closes before it answers a masked PING. -/
theorem pong_unintended (hrole : s.clientRole = true) (hmask : ping.mask.isSome = true) :
    ¬ EmitsIntended env s (.pong ping) := by
  rintro ⟨s', bytes, hemit, hwrites, -⟩
  obtain ⟨-, -, -, hwraps, -⟩ := parse_ping h
  have hflag : ping.header.maskFlag = true := hmask
  rw [emit_ping h] at hemit
  unfold streamWsHandleReceivedFrame at hemit
  rw [if_neg fun hc => hwraps hc.1, streamWsUnmask, if_pos hflag, if_pos hrole] at hemit
  cases hemit
  let t := streamWsDisconnect env s wsCloseProtocolError
  let payload := payloadAt t.buffer.live ping.header
  have htwo : writes s (streamWsHandlePayload env (t.log (.receive ping.header payload)) ping.header payload) =
      [(emitted env s wsOpcodeClose [(wsCloseProtocolError >>> 8).toUInt8, 0, wsCloseProtocolError.toUInt8, 0]).format,
        (emitted env (t.log (.receive ping.header payload)) wsOpcodePong payload).format] := by
    refine writes_eq [.write _, .receive ping.header payload, .write _] ?_
    rw [trace_handlePing h]
    simp only [StreamWs.log, t, streamWsDisconnect, streamWsSetStatus, streamWsWriteFrame, streamDoWrite,
      streamWsGenerateMask, List.append_assoc]
    rfl
  rw [htwo] at hwrites
  cases hwrites

end Pong

/-- A reachable stream, whatever its status, emits what is intended if and only if it sends no close
code and answers no masked PING to a client. -/
theorem emitsIntended_iff {sha1 : Sha1} (hs : Reachable sha1 s) {e : Emitter} (hdue : e.Due env s) :
    EmitsIntended env s e ↔ e.Sound s := by
  cases e with
  | write payload => exact ⟨fun _ => trivial, fun _ => emits_write hs.typed payload⟩
  | pong ping =>
    constructor
    · intro hemits hboth
      exact pong_unintended hdue hboth.1 hboth.2 hemits
    · exact emits_pong hdue
  | time => exact ⟨fun _ => trivial, fun _ => emits_time hdue⟩
  | disconnect code => exact ⟨fun hemits => disconnect_unintended code hemits, fun hno => hno.elim⟩

end Emitting

/-- A fresh stream that has been set ready: it has the role of a server. -/
def readyStream : StreamWs := streamWsSetStatus (streamWsInit (Vector.replicate 4096 0)) .ready

/-- The same with a receive buffer of 16 bytes, which grows as any other does. -/
def shortStream : StreamWs := { readyStream with buffer := bufferInit (List.replicate 16 0) }

/-- The masks of a client, and nothing else to find. -/
def maskingEnv : Env := { Env.at 0 with randomMask := fun n => #v[1, 2, 3, UInt8.ofNat n] }

theorem readyStream_reachable (sha1 : Sha1) : Reachable sha1 readyStream := .step (.setStatus .ready) (.init _) rfl

/-- A client that has connected and been set ready. -/
def connectedClient : StreamWs :=
  streamWsSetStatus (streamWsConnect maskingEnv (streamWsInit (Vector.replicate 4096 0)) none none none) .ready

theorem connectedClient_reachable (sha1 : Sha1) : Reachable sha1 connectedClient :=
  .step (.setStatus .ready) (.step (.connect maskingEnv none none none) (.init _) rfl) rfl

/-- A client masks what it writes. -/
theorem emitsIntended_masked :
    EmitsIntended maskingEnv connectedClient (.write ⟨[0x61, 0x62], by decide⟩) ∧
      writes connectedClient (streamWsDoWrite maskingEnv connectedClient [0x61, 0x62]).2 =
        [[0x82, 0x82, 1, 2, 3, 1, 0x61 ^^^ 1, 0x62 ^^^ 2]] :=
  ⟨(emitsIntended_iff (connectedClient_reachable fun _ => Vector.replicate 20 0) (e := .write ⟨[0x61, 0x62], by decide⟩)
    trivial).2 trivial, by decide +kernel⟩

/-- The code 1000 is sent as 03 00 E8 00. -/
theorem disconnect_fourBytes : ¬ ∀ (sha1 : Sha1) (env : Env) (s : StreamWs) (e : Emitter), Reachable sha1 s →
    s.status = .ready → e.Due env s → EmitsIntended env s e := by
  intro h
  exact disconnect_unintended 1000 (h (fun _ => Vector.replicate 20 0) (.at 0) readyStream (.disconnect 1000)
    (readyStream_reachable _) rfl trivial)

end CMx.Ws
