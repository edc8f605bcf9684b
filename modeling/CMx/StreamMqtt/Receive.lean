/-
Receiving in `stream_mqtt.c`: the handler of one frame with a part for each packet type, the
reassembly loop of `stream_mqtt_peek_frame`, and the runs of a stream.
-/
import CMx.StreamMqtt.State

namespace CMx.Mqtt

/-! ## The observer -/

/-- Whether the observer took the message. -/
def streamMqttNotifyObserver (s : StreamMqtt) (note : Note) : Bool × StreamMqtt :=
  match s.mqttObserver with
  | none => (false, s)
  | some handler =>
    let s := s.log (.notify note)
    (decide (handler s.trace > 0), s)

/-- What follows every call of the observer: an item it has not taken goes to the incoming queue. -/
def streamMqttDeliver (handledByObserver : Bool × StreamMqtt) (item : MqttFrameItem) : StreamMqtt :=
  let (handled, s) := handledByObserver
  let s := s.log (.deliver item handled)
  if handled then s else { s with incoming := streamMqttAppendFrame s.incoming item }

/-- A received frame goes to the observer or to the incoming queue. -/
def streamMqttForward (s : StreamMqtt) (type : MqttPacketType) (flags : UInt8) (msg : Msg) (body : Bytes) :
    StreamMqtt :=
  streamMqttDeliver (streamMqttNotifyObserver s ⟨type, flags, msg, body⟩) (mqttFrameItemNew type flags 0 body)

/-! ## The packet types -/

section Handlers

variable (env : Env) (s : StreamMqtt) (frame : MqttFixedHeader) (body : Mem)

/-- The bytes of the body. -/
def frameBody : Bytes := body.bytes 0 frame.bodyLength

def streamMqttHandleConnect : StreamMqtt :=
  let msg := ((mqttParseConnect env.connect frame.bodyLength).value body).2
  let s := if msg.keepAlive > 0 then
      ({ s with keepAlive := msg.keepAlive.toNat + mqttKeepAliveTimeout }).startKeepAliveTimer env
    else s
  streamMqttForward s .connect frame.flags (.connect msg) (frameBody frame body)

def streamMqttHandleConnack : StreamMqtt :=
  let msg := ((mqttParseConnack {} frame.bodyLength).value body).2
  let s := if msg.returnCode = mqttConnackAccepted ∧ s.keepAlive > 0 then
      streamMqttSetStatus (s.startKeepAliveTimer env) .ready
    else s
  streamMqttForward s .connack frame.flags (.connack msg) (frameBody frame body)

def streamMqttHandleSubscribe : StreamMqtt :=
  let msg := ((mqttParseSubscribe {} frame.bodyLength).value body).2
  streamMqttForward s .subscribe frame.flags (.subscribe msg) (frameBody frame body)

def streamMqttHandleUnsubscribe : StreamMqtt :=
  let msg := ((mqttParseUnsubscribe {} frame.bodyLength).value body).2
  streamMqttForward s .unsubscribe frame.flags (.unsubscribe msg) (frameBody frame body)

def streamMqttHandlePublish : StreamMqtt :=
  let qos := mqttQosFromFlags frame.flags
  let msg := ((mqttParsePublish env.publish frame.bodyLength qos).value body).2
  if qos = mqttQos2 then
    let (_, inbound) := streamMqttRemoveFrame s.inbound .publish msg.id
    let item := mqttFrameItemNew .publish frame.flags msg.id (frameBody frame body)
    let s := { s with inbound := streamMqttAppendFrame inbound item }
    (streamMqttPubrec env s msg.id).2
  else
    let s := if qos = mqttQos1 then (streamMqttPuback env s msg.id).2 else s
    streamMqttForward s .publish frame.flags (.publish msg) (frameBody frame body)

/-- SUBACK, UNSUBACK, PUBACK, PUBREC and PUBCOMP remove the message they answer. -/
def streamMqttAcknowledge (type : MqttPacketType) (id : UInt16) : StreamMqtt :=
  let (found, outgoing) := streamMqttRemoveFrame s.outgoing (mqttRequestType type) id
  let s := { s with outgoing }
  if found then { s.log (.acknowledge type id) with resendTimer := timerStop } else s

def streamMqttHandleAck (type : MqttPacketType) : StreamMqtt :=
  let varhdr := ((mqttParseVarHeaderId ⟨0⟩ frame.bodyLength).value body).2
  let s := streamMqttAcknowledge s type varhdr.id
  match type with
  | .pubrec =>
    let (_, s) := streamMqttPubrel env s varhdr.id
    { s.startResendTimer env with resendAttempts := 0 }
  | .suback =>
    let msg := ((mqttParseSuback {} frame.bodyLength).value body).2
    streamMqttForward s .suback frame.flags (.suback msg) (frameBody frame body)
  | .unsuback =>
    let msg := ((mqttParseUnsuback {} frame.bodyLength).value body).2
    streamMqttForward s .unsuback frame.flags (.unsuback msg) (frameBody frame body)
  | _ => s

/-- Delivery of an inbound item. -/
def streamMqttRelease (item : MqttFrameItem) : StreamMqtt :=
  let handled :=
    if item.type = .publish then
      let body := memOf item.buffer (env.stale s.trace.length)
      let qos := mqttQosFromFlags item.flags
      let msg := ((mqttParsePublish env.publish item.buffer.length qos).value body).2
      streamMqttNotifyObserver s ⟨item.type, item.flags, .publish msg, item.buffer⟩
    else (false, s)
  streamMqttDeliver handled item

/-- The loop over `inbound`, with the items passed so far and those to come. -/
def streamMqttReleaseLoop (id : UInt16) : (kept rest : List MqttFrameItem) → StreamMqtt → StreamMqtt
  | _, [], s => s
  | kept, item :: rest, s =>
    if item.id = id then
      streamMqttReleaseLoop id kept rest (streamMqttRelease env { s with inbound := kept ++ rest } item)
    else streamMqttReleaseLoop id (kept ++ [item]) rest s

def streamMqttHandlePubrel : StreamMqtt :=
  let msg := ((mqttParseVarHeaderId ⟨0⟩ frame.bodyLength).value body).2
  let (_, s) := streamMqttPubcomp env s msg.id
  streamMqttReleaseLoop env msg.id [] s.inbound s

def streamMqttHandlePingreq : StreamMqtt :=
  let (_, s) := streamMqttPingresp env s
  s.startKeepAliveTimer env

def streamMqttHandlePingresp : StreamMqtt := { s with keepAliveResponded := true }

/-- A dummy byte stands for the empty body. -/
def streamMqttHandleDisconnect : StreamMqtt :=
  streamMqttDeliver (streamMqttNotifyObserver s ⟨.disconnect, frame.flags, .null, []⟩)
    (mqttFrameItemNew .disconnect frame.flags 0 [0])

/-- The frame as the history records it. -/
def recorded : Frame := ⟨frame.type, frame.flags, frameBody frame body⟩

/-- The body of a frame is the memory behind it, of which `frame.bodyLength` bytes are its own. -/
def streamMqttHandleReceivedFrame : StreamMqtt :=
  let s := s.log (.receive (recorded frame body))
  match MqttPacketType.ofByte frame.type with
  | some .connect => streamMqttHandleConnect env s frame body
  | some .connack => streamMqttHandleConnack env s frame body
  | some .subscribe => streamMqttHandleSubscribe s frame body
  | some .unsubscribe => streamMqttHandleUnsubscribe s frame body
  | some .publish => streamMqttHandlePublish env s frame body
  | some .suback => streamMqttHandleAck env s frame body .suback
  | some .unsuback => streamMqttHandleAck env s frame body .unsuback
  | some .puback => streamMqttHandleAck env s frame body .puback
  | some .pubrec => streamMqttHandleAck env s frame body .pubrec
  | some .pubcomp => streamMqttHandleAck env s frame body .pubcomp
  | some .pubrel => streamMqttHandlePubrel env s frame body
  | some .pingreq => streamMqttHandlePingreq env s
  | some .pingresp => streamMqttHandlePingresp s
  | some .disconnect => streamMqttHandleDisconnect s frame
  | some .forbidden | none => s

end Handlers

/-! ## Reassembly -/

/-- What one read of the decorated stream returns: 1 to 1024 bytes. -/
structure Chunk where
  data : Bytes
  nonempty : data ≠ []
  fits : data.length ≤ mqttMessageBufferSize

/-- How the reads of a call end: nothing more for now, the peer has closed, or another error. -/
inductive ReadEnd where
  | again | closed | error
  deriving DecidableEq, Repr

/-- The inner loop of `stream_mqtt_peek_frame`, at most `rounds` times. -/
def streamMqttParseLoop (env : Env) : (rounds : Nat) → StreamMqtt → StreamMqtt
  | 0, s => s
  | rounds + 1, s =>
    if s.buffer.isEmpty then s
    else
      match mqttParseFrame s.buffer with
      | .more _ => s
      | .error => streamMqttParseLoop env rounds { s with buffer := [] }
      | .frame bodyOffset frame frameLength =>
        let body := memOf (s.buffer.drop bodyOffset) (env.stale s.trace.length)
        let s := streamMqttHandleReceivedFrame env s frame body
        streamMqttParseLoop env rounds { s with buffer := s.buffer.drop frameLength }

/-- A chunk is put behind the buffer and parsed. Every round takes at least two bytes off the
buffer or empties it, so its length bounds the rounds. -/
def streamMqttReceiveChunk (env : Env) (s : StreamMqtt) (data : Bytes) : StreamMqtt :=
  let s := { s with buffer := s.buffer ++ data }
  streamMqttParseLoop env s.buffer.length s

/-- The reads of a call that are left and the stream behind its outer loop; the end of the reads
is `some` if the loop came to it. -/
def streamMqttPeekLoop (env : Env) : List Chunk → StreamMqtt → List Chunk × Bool × StreamMqtt
  | [], s => ([], s.incoming.isEmpty, s)
  | chunk :: reads, s =>
    if s.incoming.isEmpty then streamMqttPeekLoop env reads (streamMqttReceiveChunk env s chunk.data)
    else (chunk :: reads, false, s)

/-- The length of the first incoming item. -/
def streamMqttPeeked (s : StreamMqtt) : Except Errno Nat :=
  match s.incoming with
  | [] => .error .again
  | item :: _ => .ok item.buffer.length

/-- The result, the reads the call did not make, and the stream. -/
def streamMqttPeekFrame (env : Env) (s : StreamMqtt) (reads : List Chunk) (last : ReadEnd) :
    Except Errno Nat × List Chunk × StreamMqtt :=
  let (left, ended, s) := streamMqttPeekLoop env reads s
  let result :=
    if ended then
      match last with
      | .again => streamMqttPeeked s
      | .closed => .ok 0
      | .error => .error .other
    else streamMqttPeeked s
  (result, left, s)

/-! ## Runs -/

/-- An operation of a stream: a call of the application, or a step of the reassembly loop, which
hands over a frame or changes the buffer. -/
inductive Call where
  | publish (retain dup : Bool) (qos : UInt8) (id : UInt16) (topic : CString) (payload : Bytes)
  | subscribe (id : UInt16) (topic : CString) (qos : UInt8)
  | unsubscribe (id : UInt16) (topic : CString)
  | pubrel (id : UInt16)
  | suback (id : UInt16) (returnCode : UInt8)
  | connect (args : MqttConnectArgs)
  | connack (sessionPresent : Bool) (returnCode : UInt8)
  | disconnect
  | writeFrame (type flags : UInt8) (body : Bytes)
  | writeFramePacketId (type : UInt8) (id : UInt16)
  | time
  | readFrame (length : Nat)
  | setStatus (status : StreamStatus)
  | setObserver (handler : Handler)
  | removeObserver
  | receive (frame : MqttFixedHeader) (body : Mem)
  | rebuffer (buffer : Bytes)

/-- The stream behind a call; one that has crashed makes no step. -/
def step (s : StreamMqtt) (env : Env) : Call → StreamMqtt
  | .publish retain dup qos id topic payload => (streamMqttPublish env s retain dup qos id topic payload).2
  | .subscribe id topic qos => (streamMqttSubscribe env s id topic qos).2
  | .unsubscribe id topic => (streamMqttUnsubscribe env s id topic).2
  | .pubrel id => (streamMqttPubrel env s id).2
  | .suback id returnCode => (streamMqttSuback env s id returnCode).2
  | .connect args => ((streamMqttConnect env s args).map (·.2)).getD s
  | .connack sessionPresent returnCode => (streamMqttConnack env s sessionPresent returnCode).2
  | .disconnect => (streamMqttDisconnect env s).2
  | .writeFrame type flags body => (streamMqttWriteFrame env s type flags body).2
  | .writeFramePacketId type id => (streamMqttWriteFramePacketId env s type id).2
  | .time => (streamMqttDoTime env s).2
  | .readFrame length => (streamMqttReadFrame s length).2
  | .setStatus status => streamMqttSetStatus s status
  | .setObserver handler => streamMqttSetObserver s handler
  | .removeObserver => streamMqttRemoveObserver s
  | .receive frame body => streamMqttHandleReceivedFrame env s frame body
  | .rebuffer buffer => { s with buffer }

/-- A call returns, since `stream_mqtt_connect` is given a client id. -/
def Call.Returns : Call → Prop
  | .connect args => args.clientId ≠ none
  | _ => True

/-- The stream behind a call, or `none` where it crashes. -/
def perform (s : StreamMqtt) (env : Env) : Call → Option StreamMqtt
  | .connect args => (streamMqttConnect env s args).map (·.2)
  | call => some (step s env call)

theorem perform_eq (s : StreamMqtt) (env : Env) {call : Call} (h : call.Returns) :
    perform s env call = some (step s env call) := by
  cases call with
  | connect args =>
    obtain ⟨clientId, hclientId⟩ := Option.ne_none_iff_exists'.1 h
    simp only [perform, step, streamMqttConnect, mqttFormatConnect, hclientId]
    rfl
  | _ => rfl

/-- A run, with what each call finds outside the stream. -/
def run (s : StreamMqtt) (calls : List (Env × Call)) : StreamMqtt :=
  calls.foldl (fun s call => step s call.1 call.2) s

/-- The states of a stream. -/
def Reachable (s : StreamMqtt) : Prop := ∃ calls, s = run streamMqttInit calls

@[simp] theorem run_nil (s : StreamMqtt) : run s [] = s := rfl

@[simp] theorem run_cons (s : StreamMqtt) (env : Env) (call : Call) (calls : List (Env × Call)) :
    run s ((env, call) :: calls) = run (step s env call) calls := rfl

theorem run_append (s : StreamMqtt) (calls calls' : List (Env × Call)) :
    run s (calls ++ calls') = run (run s calls) calls' := List.foldl_append

/-- What every step preserves holds along every run. -/
theorem run_inv {P : StreamMqtt → Prop} (hstep : ∀ s env call, P s → P (step s env call)) {s : StreamMqtt}
    (h : P s) (calls : List (Env × Call)) : P (run s calls) :=
  List.foldlRecOn calls _ h fun s hs call _ => hstep s call.1 call.2 hs

/-- An invariant of the fresh stream and of every step holds in every reachable state. -/
theorem Reachable.inv {P : StreamMqtt → Prop} (hinit : P streamMqttInit)
    (hstep : ∀ s env call, P s → P (step s env call)) {s : StreamMqtt} (h : Reachable s) : P s := by
  obtain ⟨calls, rfl⟩ := h
  exact run_inv hstep hinit calls

/-- A run each of whose calls meets a condition in the state it is made in. -/
def RunAll (P : StreamMqtt → Env → Call → Prop) : StreamMqtt → List (Env × Call) → Prop
  | _, [] => True
  | s, (env, call) :: calls => P s env call ∧ RunAll P (step s env call) calls

/-- A condition that an invariant gives. -/
theorem runAll_of_inv {P : StreamMqtt → Env → Call → Prop} {Inv : StreamMqtt → Prop}
    (hstep : ∀ s env call, Inv s → Inv (step s env call)) (hP : ∀ s env call, Inv s → P s env call) :
    ∀ (calls : List (Env × Call)) {s : StreamMqtt}, Inv s → RunAll P s calls
  | [], _, _ => trivial
  | (env, call) :: calls, s, hs => ⟨hP s env call hs, runAll_of_inv hstep hP calls (hstep s env call hs)⟩

/-- A law that each call keeps exactly under a condition holds all along a run exactly if every call
meets it. -/
theorem runAll_iff {H P : StreamMqtt → Env → Call → Prop} {I : StreamMqtt → Prop}
    (hstep : ∀ s env call, H s env call → I s → (I (step s env call) ↔ P s env call)) :
    ∀ {calls : List (Env × Call)} {s : StreamMqtt}, RunAll H s calls → I s →
      ((∀ calls', calls' <+: calls → I (run s calls')) ↔ RunAll P s calls)
  | [], s, _, hs => by
    refine iff_of_true (fun calls' hp => ?_) trivial
    rw [List.prefix_nil.1 hp]
    exact hs
  | (env, call) :: calls, s, ⟨h, hrest⟩, hs => by
    have hiff := hstep s env call h hs
    constructor
    · intro hall
      have hs' : I (step s env call) := hall [(env, call)] (List.cons_prefix_cons.2 ⟨rfl, List.nil_prefix⟩)
      refine ⟨hiff.1 hs', (runAll_iff hstep hrest hs').1 fun calls' hp => ?_⟩
      exact hall ((env, call) :: calls') (List.cons_prefix_cons.2 ⟨rfl, hp⟩)
    · rintro ⟨hcall, hcalls⟩ calls' hp
      rcases List.prefix_cons_iff.1 hp with rfl | ⟨rest, rfl, hp'⟩
      · exact hs
      · exact (runAll_iff hstep hrest (hiff.2 hcall)).2 hcalls rest hp'

theorem Reachable.run {s : StreamMqtt} (h : Reachable s) (calls : List (Env × Call)) :
    Reachable (run s calls) := by
  obtain ⟨calls', rfl⟩ := h
  exact ⟨calls' ++ calls, (run_append _ _ _).symm⟩

/-! ## A peek is a run -/

/-- The steps of the reassembly loop. -/
def Call.isLoop : Call → Bool
  | .receive _ _ | .rebuffer _ => true
  | _ => false

/-- `s'` comes from `s` by steps of the reassembly loop. -/
def Loops (s s' : StreamMqtt) : Prop :=
  ∃ calls : List (Env × Call), (∀ call ∈ calls, call.2.isLoop = true) ∧ s' = run s calls

theorem Loops.refl (s : StreamMqtt) : Loops s s := ⟨[], by simp, rfl⟩

theorem Loops.trans {s s' s'' : StreamMqtt} (h : Loops s s') (h' : Loops s' s'') : Loops s s'' := by
  obtain ⟨calls, hc, rfl⟩ := h
  obtain ⟨calls', hc', rfl⟩ := h'
  refine ⟨calls ++ calls', fun call hm => ?_, (run_append _ _ _).symm⟩
  exact (List.mem_append.1 hm).elim (hc call) (hc' call)

theorem Loops.one (s : StreamMqtt) (env : Env) (call : Call) (h : call.isLoop = true) :
    Loops s (step s env call) := ⟨[(env, call)], by simpa using h, rfl⟩

/-- What a received frame and any change of the buffer preserve, the loop preserves. -/
theorem Loops.inv {P : StreamMqtt → Prop}
    (handle : ∀ s env frame body, P s → P (streamMqttHandleReceivedFrame env s frame body))
    (rebuffer : ∀ (s : StreamMqtt) buffer, P s → P { s with buffer }) {s s' : StreamMqtt} (h : Loops s s')
    (hs : P s) : P s' := by
  obtain ⟨calls, hloop, rfl⟩ := h
  refine List.foldlRecOn calls _ hs fun s hs call hm => ?_
  have hcall := hloop call hm
  obtain ⟨env, call⟩ := call
  cases call with
  | receive frame body => exact handle s env frame body hs
  | rebuffer buffer => exact rebuffer s buffer hs
  | _ => cases hcall

theorem loops_parseLoop (env : Env) : ∀ (rounds : Nat) (s : StreamMqtt), Loops s (streamMqttParseLoop env rounds s)
  | 0, s => .refl s
  | rounds + 1, s => by
    unfold streamMqttParseLoop
    split
    · exact .refl s
    · split
      · exact .refl s
      · exact (Loops.one s env (.rebuffer []) rfl).trans (loops_parseLoop env rounds _)
      · rename_i bodyOffset frame frameLength _
        have handled := Loops.one s env (.receive frame (memOf (s.buffer.drop bodyOffset) (env.stale s.trace.length))) rfl
        exact (handled.trans (.one _ env (.rebuffer _) rfl)).trans (loops_parseLoop env rounds _)

theorem loops_receiveChunk (env : Env) (s : StreamMqtt) (data : Bytes) :
    Loops s (streamMqttReceiveChunk env s data) :=
  (Loops.one s env (.rebuffer (s.buffer ++ data)) rfl).trans (loops_parseLoop env _ _)

theorem loops_peekLoop (env : Env) : ∀ (reads : List Chunk) (s : StreamMqtt),
    Loops s (streamMqttPeekLoop env reads s).2.2
  | [], s => .refl s
  | chunk :: reads, s => by
    unfold streamMqttPeekLoop
    split
    · exact (loops_receiveChunk env s chunk.data).trans (loops_peekLoop env reads _)
    · exact .refl s

/-- A call of `stream_mqtt_peek_frame` is a run of its loop's steps. -/
theorem loops_peekFrame (env : Env) (s : StreamMqtt) (reads : List Chunk) (last : ReadEnd) :
    Loops s (streamMqttPeekFrame env s reads last).2.2 := loops_peekLoop env reads s

/-- Calls of `stream_mqtt_peek_frame` do not lead out of the reachable states. -/
theorem Reachable.peekFrame {s : StreamMqtt} (h : Reachable s) (env : Env) (reads : List Chunk) (last : ReadEnd) :
    Reachable (streamMqttPeekFrame env s reads last).2.2 := by
  obtain ⟨calls, _, he⟩ := loops_peekFrame env s reads last
  rw [he]
  exact h.run calls

end CMx.Mqtt
