/-
Masked frames to a client. `stream_ws_handle_received_frame` closes on each of them, and then goes
on to its switch as if nothing had happened: so the frame is without any other effect only where
the switch would do nothing anyway.
-/
import CMx.StreamWs.Emitting
import CMx.StreamWs.Reading

namespace CMx.Ws

open Mqtt (Bytes StreamStatus)

/-- The CLOSE that `stream_ws_disconnect` writes on a protocol error. -/
def closeFrame (env : Env) (s : StreamWs) : Bytes :=
  (emitted env s wsOpcodeClose [(wsCloseProtocolError >>> 8).toUInt8, 0, wsCloseProtocolError.toUInt8, 0]).format

/-- The stream closes, and that is all. -/
structure OnlyCloses (env : Env) (s s' : StreamWs) : Prop where
  status : s'.status = .closing
  cache : s'.cache = s.cache
  dataType : s'.dataType = s.dataType
  keepAlive : s'.keepAlive = s.keepAlive
  keepAliveResponded : s'.keepAliveResponded = s.keepAliveResponded
  keepAliveTimer : s'.keepAliveTimer = s.keepAliveTimer
  writes : writes s s' = [closeFrame env s]

/-- The switch has nothing to do for a frame: it is no TEXT, BINARY or PING, a CONTINUE finds no
message or adds nothing to the last one, and a PONG has come before. -/
structure WsFrame.Ineffective (frame : WsFrame) (s : StreamWs) : Prop where
  noData : frame.opcode ≠ wsOpcodeText ∧ frame.opcode ≠ wsOpcodeBinary
  noPing : frame.opcode ≠ wsOpcodePing
  continues : frame.opcode = wsOpcodeContinue → ∀ slice, s.cache.getLast? = some slice →
    frame.payloadLength = 0 ∧ slice.fin = frame.finFlag
  pong : frame.opcode = wsOpcodePong → s.keepAliveResponded = true

theorem appendToLast_eq_self_iff (cache : List WsFrameSlice) (payload : Bytes) (fin : Bool) :
    appendToLast cache payload fin = cache ↔
      ∀ slice, cache.getLast? = some slice → payload = [] ∧ slice.fin = fin := by
  rcases List.eq_nil_or_concat' cache with rfl | ⟨front, last, rfl⟩
  · simp [appendToLast]
  · rw [appendToLast_concat, List.append_cancel_left_eq, List.singleton_inj, List.getLast?_concat]
    obtain ⟨buffer, fin', opcode⟩ := last
    simp [eq_comm]

section Masked

variable {env : Env} {s : StreamWs} {frame : WsFrame} {frameLength : Nat}

/-- The state in which the switch finds the stream. -/
def closedBy (env : Env) (s : StreamWs) (frame : WsFrame) : StreamWs :=
  (streamWsDisconnect env s wsCloseProtocolError).log (.receive frame (payloadAt s.buffer.live frame))

theorem handle_masked (hrole : s.clientRole = true) (hmask : frame.maskFlag = true) :
    streamWsHandleReceivedFrame env s frame =
      if frame.Wraps ∧ streamWsReadsPayload s frame = true then none
      else some (streamWsHandlePayload env (closedBy env s frame) frame (payloadAt s.buffer.live frame)) := by
  unfold streamWsHandleReceivedFrame
  simp only [streamWsUnmask, hmask, hrole, if_true]
  rfl

theorem trace_closedBy : (closedBy env s frame).trace =
    s.trace ++ [.write (closeFrame env s), .receive frame (payloadAt s.buffer.live frame)] := by
  simp only [closedBy, streamWsDisconnect, streamWsGenerateMask, streamWsWriteFrame, streamDoWrite, streamWsSetStatus,
    StreamWs.log, List.append_assoc]
  rfl

theorem onlyCloses_closedBy : OnlyCloses env s (closedBy env s frame) where
  status := rfl
  cache := rfl
  dataType := rfl
  keepAlive := rfl
  keepAliveResponded := rfl
  keepAliveTimer := rfl
  writes := writes_eq _ trace_closedBy

theorem payloadOffset_le_max {data : Bytes} (h : wsParseFrame data = .frame frame frameLength) :
    frame.payloadOffset ≤ wsMaxHeaderSize := by
  match data with
  | [] => cases h
  | [_] => cases h
  | first :: second :: behind =>
    rw [wsParseFrame_cons] at h
    simp only at h
    split at h
    · cases h
    · split at h
      · cases h
      · cases h
        have hext : extlenSize (second &&& wsPayloadLenMsk) ≤ wsExtlen64Size := by
          unfold extlenSize
          split
          · decide
          · split <;> decide
        have hmask : (if second &&& wsMaskFlag = wsMaskFlag then wsMaskSize else 0) ≤ wsMaskSize := by
          split
          · exact le_refl _
          · exact Nat.zero_le _
        simp only [headerOf, wsMaxHeaderSize]
        omega

/-- A payload that is in the buffer is as long as its header says. -/
theorem payloadAt_eq_nil_iff (h : wsParseFrame s.buffer.live = .frame frame frameLength) (hwraps : ¬ frame.Wraps) :
    payloadAt s.buffer.live frame = [] ↔ frame.payloadLength = 0 := by
  have hr := wsParseFrame_spec h
  have hlen := hr.frameLength_of_not_wraps hwraps
  have hle := hr.frameLength_le
  rw [← List.length_eq_zero_iff, payloadAt, List.length_take, List.length_drop]
  omega

/-- A CONTINUE leaves the cache alone, and does not crash, exactly if it adds nothing. -/
theorem continue_iff (hrole : s.clientRole = true) (hmask : frame.maskFlag = true)
    (h : wsParseFrame s.buffer.live = .frame frame frameLength) (hop : frame.opcode = wsOpcodeContinue) :
    (∃ s', streamWsHandleReceivedFrame env s frame = some s' ∧ OnlyCloses env s s') ↔
      ∀ slice, s.cache.getLast? = some slice → frame.payloadLength = 0 ∧ slice.fin = frame.finFlag := by
  rw [handle_masked hrole hmask]
  have hswitch : streamWsHandlePayload env (closedBy env s frame) frame (payloadAt s.buffer.live frame) =
      { closedBy env s frame with
        cache := appendToLast s.cache (payloadAt s.buffer.live frame) frame.finFlag } := by
    unfold streamWsHandlePayload
    rw [hop, if_neg (by decide), if_pos rfl]
    rfl
  by_cases hreads : frame.Wraps ∧ streamWsReadsPayload s frame = true
  · -- the payload that is to be appended is as large as the address space
    rw [if_pos hreads]
    refine iff_of_false (by simp) fun hall => ?_
    have hne : s.cache ≠ [] := by
      intro hnil
      have hnone := hreads.2
      rw [streamWsReadsPayload, hmask, hrole, hop, hnil] at hnone
      exact absurd hnone (by decide)
    have hzero := (hall _ (List.getLast?_eq_some_getLast hne)).1
    have hoffset := payloadOffset_le_max h
    have hbig : sizeRange ≤ frame.payloadOffset + frame.payloadLength := hreads.1
    have hsmall : wsMaxHeaderSize < sizeRange := by decide
    omega
  · rw [if_neg hreads, hswitch]
    -- appending changes the last slice, unless there is none or nothing is new to it
    have hcache : appendToLast s.cache (payloadAt s.buffer.live frame) frame.finFlag = s.cache ↔
        ∀ slice, s.cache.getLast? = some slice → frame.payloadLength = 0 ∧ slice.fin = frame.finFlag := by
      rw [appendToLast_eq_self_iff]
      refine forall_congr' fun slice => imp_congr_right fun hlast => ?_
      have hwraps : ¬ frame.Wraps := by
        intro hw
        refine hreads ⟨hw, ?_⟩
        have hne : s.cache ≠ [] := by
          rintro hnil
          rw [hnil] at hlast
          cases hlast
        simp [streamWsReadsPayload, hop, hne]
      rw [payloadAt_eq_nil_iff h hwraps]
    rw [← hcache]
    constructor
    · rintro ⟨s', hs', honly⟩
      cases hs'
      exact honly.cache
    · intro hsame
      have hclosed := @onlyCloses_closedBy env s frame
      exact ⟨_, rfl, ⟨hclosed.status, hsame, hclosed.dataType, hclosed.keepAlive, hclosed.keepAliveResponded,
        hclosed.keepAliveTimer, hclosed.writes⟩⟩

/-- What the switch does behind the CLOSE is all that the frame does. -/
theorem onlyCloses_handlePayload (hrole : s.clientRole = true) (hmask : frame.maskFlag = true)
    (h : ∃ s', streamWsHandleReceivedFrame env s frame = some s' ∧ OnlyCloses env s s') :
    OnlyCloses env s
      (streamWsHandlePayload env (closedBy env s frame) frame (payloadAt s.buffer.live frame)) := by
  rw [handle_masked hrole hmask] at h
  obtain ⟨s', hs', honly⟩ := h
  split at hs'
  · cases hs'
  · cases hs'
    exact honly

/-- Data goes to the cache all the same. -/
theorem data_effective (hrole : s.clientRole = true) (hmask : frame.maskFlag = true)
    (hdata : frame.opcode = wsOpcodeText ∨ frame.opcode = wsOpcodeBinary) :
    ¬ ∃ s', streamWsHandleReceivedFrame env s frame = some s' ∧ OnlyCloses env s s' := by
  intro h
  have hcache := (onlyCloses_handlePayload hrole hmask h).cache
  unfold streamWsHandlePayload at hcache
  rw [if_pos hdata] at hcache
  have hgrown : s.cache ++ [wsFrameSliceNew (payloadAt s.buffer.live frame) frame] = s.cache := hcache
  exact absurd hgrown (by simp)

/-- A PING is answered all the same. -/
theorem ping_effective (hrole : s.clientRole = true) (hmask : frame.maskFlag = true)
    (hping : frame.opcode = wsOpcodePing) :
    ¬ ∃ s', streamWsHandleReceivedFrame env s frame = some s' ∧ OnlyCloses env s s' := by
  intro h
  have hpong : (streamWsHandlePayload env (closedBy env s frame) frame (payloadAt s.buffer.live frame)).trace =
      (closedBy env s frame).trace ++
        [.write (emitted env (closedBy env s frame) wsOpcodePong (payloadAt s.buffer.live frame)).format] := by
    unfold streamWsHandlePayload
    rw [hping, if_neg (by decide), if_neg (by decide), if_pos rfl]
    rfl
  rw [trace_closedBy, List.append_assoc] at hpong
  have hwrites := (onlyCloses_handlePayload hrole hmask h).writes
  rw [writes_eq _ hpong] at hwrites
  simp [Event.written] at hwrites

/-- A masked frame makes a client close and has no other effect if and only if the switch has
nothing to do for it. -/
theorem masked_onlyCloses_iff (hrole : s.clientRole = true) (hmask : frame.maskFlag = true)
    (h : wsParseFrame s.buffer.live = .frame frame frameLength) :
    (∃ s', streamWsHandleReceivedFrame env s frame = some s' ∧ OnlyCloses env s s') ↔ WsFrame.Ineffective frame s := by
  by_cases hcont : frame.opcode = wsOpcodeContinue
  · rw [continue_iff hrole hmask h hcont]
    constructor
    · intro hall
      refine ⟨?_, ?_, fun _ => hall, fun hpong => absurd (hcont.symm.trans hpong) (by decide)⟩ <;> rw [hcont] <;> decide
    · exact fun hi => hi.continues hcont
  by_cases hdata : frame.opcode = wsOpcodeText ∨ frame.opcode = wsOpcodeBinary
  · exact iff_of_false (data_effective hrole hmask hdata) fun hi => hdata.elim hi.noData.1 hi.noData.2
  by_cases hping : frame.opcode = wsOpcodePing
  · exact iff_of_false (ping_effective hrole hmask hping) fun hi => hi.noPing hping
  -- no other frame has its payload read
  have hnodata := not_or.1 hdata
  have hreads : streamWsReadsPayload s frame = false := by
    simp [streamWsReadsPayload, hrole, hcont, hnodata.1, hnodata.2, hping]
  have hclosed := @onlyCloses_closedBy env s frame
  rw [handle_masked hrole hmask, if_neg (by simp [hreads])]
  unfold streamWsHandlePayload
  rw [if_neg hdata, if_neg hcont, if_neg hping]
  by_cases hpong : frame.opcode = wsOpcodePong
  · rw [if_pos hpong]
    constructor
    · rintro ⟨s', hs', honly⟩
      cases hs'
      exact ⟨hnodata, hping, fun hc => absurd hc hcont, fun _ => honly.keepAliveResponded.symm⟩
    · intro hi
      exact ⟨_, rfl, ⟨hclosed.status, hclosed.cache, hclosed.dataType, hclosed.keepAlive, (hi.pong hpong).symm,
        hclosed.keepAliveTimer, hclosed.writes⟩⟩
  · rw [if_neg hpong]
    exact iff_of_true ⟨_, rfl, hclosed⟩ ⟨hnodata, hping, fun hc => absurd hc hcont, fun hp => absurd hp hpong⟩

end Masked

/-- A ready client with some bytes in its receive buffer. -/
def clientHolding (data : Bytes) : StreamWs where
  status := .ready
  buffer := ⟨data ++ List.replicate 4096 0, 0, data.length, by rw [List.length_append]; omega⟩
  clientRole := true
  cache := []
  dataType := wsOpcodeBinary
  key := none
  mask := none
  keepAlive := wsKeepAliveClientTimeout
  keepAliveResponded := true
  keepAliveTimer := timerStop
  trace := []

theorem live_clientHolding (data : Bytes) : (clientHolding data).buffer.live = data := by
  rw [Buffer.live, clientHolding, List.drop_zero, List.take_left' rfl]

/-- A masked CLOSE, and a masked PONG while none is waited for. -/
theorem masked_onlyCloses_pong :
    (∃ s', streamWsHandleReceivedFrame (.at 0) (clientHolding [0x88, 0x80, 1, 2, 3, 4])
      ⟨true, wsOpcodeClose, true, 0, 2, 6⟩ = some s' ∧
        OnlyCloses (.at 0) (clientHolding [0x88, 0x80, 1, 2, 3, 4]) s') ∧
    ∃ s', streamWsHandleReceivedFrame (.at 0) (clientHolding [0x8A, 0x82, 1, 2, 3, 4, 0x60, 0x60, 0x81])
      ⟨true, wsOpcodePong, true, 2, 2, 6⟩ = some s' ∧
        OnlyCloses (.at 0) (clientHolding [0x8A, 0x82, 1, 2, 3, 4, 0x60, 0x60, 0x81]) s' := by
  constructor
  · have hparse : wsParseFrame (clientHolding [0x88, 0x80, 1, 2, 3, 4]).buffer.live =
        .frame ⟨true, wsOpcodeClose, true, 0, 2, 6⟩ 6 := by
      rw [live_clientHolding]
      decide
    refine (masked_onlyCloses_iff rfl rfl hparse).2 ⟨?_, ?_, ?_, ?_⟩ <;> decide
  · have hparse : wsParseFrame (clientHolding [0x8A, 0x82, 1, 2, 3, 4, 0x60, 0x60, 0x81]).buffer.live =
        .frame ⟨true, wsOpcodePong, true, 2, 2, 6⟩ 8 := by
      rw [live_clientHolding]
      decide
    refine (masked_onlyCloses_iff rfl rfl hparse).2 ⟨?_, ?_, ?_, ?_⟩ <;> decide

/-- A masked TEXT. -/
theorem masked_text_cached : ¬ ∀ (env : Env) (s : StreamWs) (frame : WsFrame) (frameLength : Nat), s.status = .ready →
    s.clientRole = true → frame.maskFlag = true → wsParseFrame s.buffer.live = .frame frame frameLength →
      ∃ s', streamWsHandleReceivedFrame env s frame = some s' ∧ OnlyCloses env s s' := by
  intro h
  have hparse : wsParseFrame (clientHolding [0x81, 0x81, 1, 2, 3, 4, 0x60]).buffer.live =
      .frame ⟨true, wsOpcodeText, true, 1, 2, 6⟩ 7 := by
    rw [live_clientHolding]
    decide
  exact data_effective rfl rfl (.inl rfl) (h (.at 0) _ _ _ rfl rfl rfl hparse)

end CMx.Ws
