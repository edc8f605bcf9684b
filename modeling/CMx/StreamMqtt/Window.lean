/-
The sending side: the outgoing queue with its resend timer and attempt counter is a stop-and-wait
queue whose urgent messages are the PUBRELs. Every step of a stream is some steps of that queue,
so its laws are laws of every run.
-/
import CMx.Lib.ResendQueue
import CMx.StreamMqtt.Footprint

namespace CMx.Mqtt

open ResendQueue (Entry Act)

/-! ## The queue of a stream -/

/-- What an acknowledgement compares. -/
abbrev Key := MqttPacketType × UInt16

def MqttFrameItem.entry (item : MqttFrameItem) : Entry Key := ⟨item.tag, item.type = .pubrel, (item.type, item.id)⟩

def Event.queueEvent : Event → Option ResendQueue.Event
  | .write (some ticket) _ => some (.sent ticket.tag (ticket.type = .pubrel))
  | .abandon tag => some (.dropped tag)
  | _ => none

/-- The sending side of a stream. -/
def sendQueue (s : StreamMqtt) : ResendQueue.State Key where
  entries := s.outgoing.map MqttFrameItem.entry
  armed := timerRunning s.resendTimer
  attempts := s.resendAttempts
  next := s.nextTag
  history := s.trace.filterMap Event.queueEvent

/-- The keys that an acknowledgement of a type with an id removes. -/
def ackKey (type : MqttPacketType) (id : UInt16) (key : Key) : Bool :=
  key.1 = mqttRequestType type && key.2 = id

/-- A received frame with an id, as steps of the queue. -/
def receiveActs (id : UInt16) : Option MqttPacketType → List (Act Key)
  | some .pubrec => [.exchange (ackKey .pubrec id) (.pubrel, id)]
  | some .suback => [.ack (ackKey .suback id)]
  | some .unsuback => [.ack (ackKey .unsuback id)]
  | some .puback => [.ack (ackKey .puback id)]
  | some .pubcomp => [.ack (ackKey .pubcomp id)]
  | _ => []

/-- A call, as steps of the queue. -/
def acts (s : StreamMqtt) (env : Env) : Call → List (Act Key)
  | .publish _ _ qos id _ _ => [.submit (.publish, id) (qos > mqttQos0)]
  | .subscribe id _ _ => [.submit (.subscribe, id) true]
  | .unsubscribe id _ => [.submit (.unsubscribe, id) true]
  | .pubrel id => [.urgent (.pubrel, id)]
  | .time => (if timerExpired env.clock s.resendTimer then [.timeout] else []) ++ [.kick]
  | .receive header body => receiveActs (shortAt body 0) (MqttPacketType.ofByte header.type)
  | _ => []

/-! ## Every call is some steps of the queue -/

/-- Events the queue does not see. -/
def Event.unqueued (e : Event) : Prop := e.queueEvent = none

theorem unqueued_write (data : Bytes) : Event.unqueued (.write none data) := rfl

theorem sendQueue_quiet {s s' : StreamMqtt} (h : Quiet Event.unqueued s s') : sendQueue s' = sendQueue s := by
  obtain ⟨es, he, hes⟩ := h.trace
  unfold sendQueue
  rw [h.outgoing, h.resendTimer, h.resendAttempts, h.nextTag, he, List.filterMap_append,
    List.filterMap_eq_nil_iff.2 hes, List.append_nil]

theorem releases_unqueued : Releases Event.unqueued := ⟨⟨fun _ => rfl, fun _ _ _ => rfl⟩, fun _ _ => rfl⟩

@[simp] theorem timerRunning_startResendTimer (s : StreamMqtt) (env : Env) :
    timerRunning (s.startResendTimer env).resendTimer = true := timerRunning_start _ _ (by decide)

theorem sendQueue_sendOrQueue (env : Env) (s : StreamMqtt) {type : MqttPacketType} (id : UInt16) (buffer : Bytes)
    (ht : type ≠ .pubrel) :
    sendQueue (streamMqttSendOrQueue env s type id buffer).2 =
      ResendQueue.step mqttResendAttempts (sendQueue s) (.submit (type, id) true) := by
  unfold streamMqttSendOrQueue
  simp only
  by_cases ho : s.outgoing = []
  · simp [ho, sendQueue, ResendQueue.step, streamMqttRealWrite, StreamMqtt.write, StreamMqtt.log,
      StreamMqtt.startResendTimer, timerRunning_start, streamMqttAppendFrame, mqttFrameItemNew, MqttFrameItem.entry,
      Event.queueEvent, MqttFrameItem.ticket, ResendQueue.State.send, ht, mqttResendTimeout]
  · simp [ho, sendQueue, ResendQueue.step, streamMqttAppendFrame, mqttFrameItemNew, MqttFrameItem.entry, ht]

theorem sendQueue_publish (env : Env) (s : StreamMqtt) (retain dup : Bool) (qos : UInt8) (id : UInt16) (topic : CString)
    (payload : Bytes) :
    sendQueue (streamMqttPublish env s retain dup qos id topic payload).2 =
      ResendQueue.step mqttResendAttempts (sendQueue s) (.submit (.publish, id) (qos > mqttQos0)) := by
  unfold streamMqttPublish
  simp only
  by_cases ho : s.outgoing = []
  · by_cases hq : qos > mqttQos0
    · simp [ho, hq, sendQueue, ResendQueue.step, streamMqttRealWrite, StreamMqtt.write, StreamMqtt.log,
        StreamMqtt.startResendTimer, timerRunning_start, streamMqttAppendFrame, mqttFrameItemNew, MqttFrameItem.entry,
        Event.queueEvent, MqttFrameItem.ticket, ResendQueue.State.send, mqttResendTimeout]
    · simp [ho, hq, sendQueue, ResendQueue.step, streamMqttRealWrite, StreamMqtt.write, StreamMqtt.log,
        mqttFrameItemNew, Event.queueEvent, MqttFrameItem.ticket, ResendQueue.State.send]
  · simp [ho, sendQueue, ResendQueue.step, streamMqttAppendFrame, mqttFrameItemNew, MqttFrameItem.entry]

theorem sendQueue_pubrel (env : Env) (s : StreamMqtt) (id : UInt16) :
    sendQueue (streamMqttPubrel env s id).2 = (sendQueue s).jump (.pubrel, id) := by
  simp [sendQueue, streamMqttPubrel, ResendQueue.State.jump, ResendQueue.State.send, streamMqttRealWrite,
    StreamMqtt.write, StreamMqtt.log, streamMqttInsertFrame, mqttFrameItemNew, MqttFrameItem.entry, Event.queueEvent,
    MqttFrameItem.ticket]

theorem sendQueue_acknowledge (s : StreamMqtt) (type : MqttPacketType) (id : UInt16) :
    sendQueue (streamMqttAcknowledge s type id) = (sendQueue s).acknowledge (ackKey type id) := by
  have hany : (s.outgoing.map MqttFrameItem.entry).any (fun e => ackKey type id e.key) =
      s.outgoing.any (MqttFrameItem.matches (mqttRequestType type) id) := by
    rw [List.any_map]; rfl
  have hfilter : (s.outgoing.map MqttFrameItem.entry).filter (fun e => !ackKey type id e.key) =
      (s.outgoing.filter fun item => !item.matches (mqttRequestType type) id).map MqttFrameItem.entry := by
    rw [List.filter_map]; rfl
  unfold streamMqttAcknowledge ResendQueue.State.acknowledge
  cases hf : s.outgoing.any (MqttFrameItem.matches (mqttRequestType type) id) with
  | true =>
    simp only [streamMqttRemoveFrame, hf, if_true, sendQueue, hany, hfilter, StreamMqtt.log]
    simp [Event.queueEvent]
  | false => simp [streamMqttRemoveFrame, hf, sendQueue, hany, hfilter]

theorem sendQueue_resendTime (env : Env) (s : StreamMqtt) :
    sendQueue (streamMqttResendTime env s) =
      ResendQueue.run mqttResendAttempts (sendQueue s)
        (if timerExpired env.clock s.resendTimer then [.timeout] else []) := by
  unfold streamMqttResendTime
  split
  · rename_i hexp
    have hrun := timerRunning_of_expired hexp
    cases ho : s.outgoing with
    | nil => simp [sendQueue, ResendQueue.step, hrun, ho]
    | cons item rest =>
      simp only [ResendQueue.run_cons, ResendQueue.run_nil, ResendQueue.step]
      by_cases hl : s.resendAttempts + 1 < mqttResendAttempts
      · simp [sendQueue, hrun, ho, hl, StreamMqtt.write, StreamMqtt.log, StreamMqtt.startResendTimer,
          timerRunning_start, Event.queueEvent, MqttFrameItem.ticket, MqttFrameItem.entry, ResendQueue.State.send,
          mqttResendTimeout]
      · simp [sendQueue, hrun, ho, hl, StreamMqtt.log, Event.queueEvent, MqttFrameItem.entry]
  · rfl

theorem sendQueue_sendTime (env : Env) (s : StreamMqtt) :
    sendQueue (streamMqttSendTime env s) = ResendQueue.step mqttResendAttempts (sendQueue s) .kick := by
  unfold streamMqttSendTime
  cases hrun : timerRunning s.resendTimer with
  | true => simp [ResendQueue.step, sendQueue, hrun]
  | false =>
    cases ho : s.outgoing with
    | nil => simp [sendQueue, ResendQueue.step, hrun, ho]
    | cons item rest =>
      simp [sendQueue, ResendQueue.step, hrun, ho, StreamMqtt.write, StreamMqtt.log, StreamMqtt.startResendTimer,
        timerRunning_start, Event.queueEvent, MqttFrameItem.ticket, MqttFrameItem.entry, ResendQueue.State.send,
        mqttResendTimeout]

theorem sendQueue_doTime (env : Env) (s : StreamMqtt) :
    sendQueue (streamMqttDoTime env s).2 =
      ResendQueue.run mqttResendAttempts (sendQueue s) (acts s env .time) := by
  have hk := quiet_keepAliveTime (Q := Event.unqueued) env s rfl
  unfold streamMqttDoTime acts
  simp only
  rw [sendQueue_sendTime, sendQueue_resendTime, sendQueue_quiet hk, hk.resendTimer, ResendQueue.run_append]
  rfl

theorem sendQueue_handleAck (env : Env) (s : StreamMqtt) (frame : MqttFixedHeader) (body : Mem) {type : MqttPacketType}
    (ht : type ≠ .pubrec) :
    sendQueue (streamMqttHandleAck env s frame body type) =
      (sendQueue s).acknowledge (ackKey type (shortAt body 0)) := by
  rw [sendQueue_quiet (handleAck_quiet env releases_unqueued.toForwards s frame body ht), sendQueue_acknowledge]

theorem sendQueue_handlePubrec (env : Env) (s : StreamMqtt) (frame : MqttFixedHeader) (body : Mem) :
    sendQueue (streamMqttHandleAck env s frame body .pubrec) =
      ResendQueue.step mqttResendAttempts (sendQueue s)
        (.exchange (ackKey .pubrec (shortAt body 0)) (.pubrel, shortAt body 0)) := by
  have hjump := sendQueue_pubrel env (streamMqttAcknowledge s .pubrec (shortAt body 0)) (shortAt body 0)
  rw [sendQueue_acknowledge] at hjump
  rw [handleAck_pubrec]
  show _ = { ((sendQueue s).acknowledge (ackKey .pubrec (shortAt body 0))).jump (.pubrel, shortAt body 0) with
    armed := true, attempts := 0 }
  rw [← hjump]
  simp [sendQueue, StreamMqtt.startResendTimer, timerRunning_start, mqttResendTimeout]

theorem sendQueue_handlePublish (env : Env) (s : StreamMqtt) (frame : MqttFixedHeader) (body : Mem) :
    sendQueue (streamMqttHandlePublish env s frame body) = sendQueue s := by
  by_cases h : mqttQosFromFlags frame.flags = mqttQos2
  · rw [handlePublish_qos2 env s frame body h]
    simp [sendQueue, StreamMqtt.write, StreamMqtt.log, Event.queueEvent]
  · exact sendQueue_quiet (quiet_handlePublish env s frame body releases_unqueued.toForwards (fun _ => unqueued_write _) h)

theorem sendQueue_handlePubrel (env : Env) (s : StreamMqtt) (frame : MqttFixedHeader) (body : Mem) :
    sendQueue (streamMqttHandlePubrel env s frame body) = sendQueue s := by
  rw [sendQueue_quiet (handlePubrel_quiet env s frame body releases_unqueued)]
  simp [sendQueue, StreamMqtt.write, StreamMqtt.log, Event.queueEvent]

theorem sendQueue_handle (env : Env) (s : StreamMqtt) (frame : MqttFixedHeader) (body : Mem) :
    sendQueue (streamMqttHandleReceivedFrame env s frame body) =
      ResendQueue.run mqttResendAttempts (sendQueue s) (acts s env (.receive frame body)) := by
  have hlog : sendQueue (s.log (.receive (recorded frame body))) = sendQueue s := by
    simp [sendQueue, StreamMqtt.log, Event.queueEvent]
  unfold streamMqttHandleReceivedFrame
  show _ = ResendQueue.run mqttResendAttempts (sendQueue s)
    (receiveActs (shortAt body 0) (MqttPacketType.ofByte frame.type))
  rw [← hlog]
  generalize s.log (.receive (recorded frame body)) = s
  have hf := releases_unqueued.toForwards
  cases ht : MqttPacketType.ofByte frame.type with
  | none => rfl
  | some type =>
    cases type with
    | publish => exact sendQueue_handlePublish env s frame body
    | pubrel => exact sendQueue_handlePubrel env s frame body
    | connect => exact sendQueue_quiet (quiet_handleConnect env hf s frame body)
    | connack => exact sendQueue_quiet (quiet_handleConnack env hf s frame body)
    | subscribe => exact sendQueue_quiet (quiet_forward hf _ _ _ _ _ (by simp))
    | unsubscribe => exact sendQueue_quiet (quiet_forward hf _ _ _ _ _ (by simp))
    | pingreq => exact sendQueue_quiet (quiet_handlePingreq env (unqueued_write _) s)
    | pingresp => exact sendQueue_quiet (quiet_handlePingresp s)
    | disconnect => exact sendQueue_quiet (quiet_handleDisconnect hf s frame)
    | forbidden => rfl
    | pubrec => exact sendQueue_handlePubrec env s frame body
    | suback => exact sendQueue_handleAck env s frame body (by decide)
    | unsuback => exact sendQueue_handleAck env s frame body (by decide)
    | puback => exact sendQueue_handleAck env s frame body (by decide)
    | pubcomp => exact sendQueue_handleAck env s frame body (by decide)

/-- Every call is the run of the queue that `acts` says. -/
theorem sendQueue_step (s : StreamMqtt) (env : Env) (call : Call) :
    sendQueue (step s env call) = ResendQueue.run mqttResendAttempts (sendQueue s) (acts s env call) := by
  cases call with
  | publish retain dup qos id topic payload => exact sendQueue_publish env s retain dup qos id topic payload
  | subscribe id topic qos => exact sendQueue_sendOrQueue env s id _ (by decide)
  | unsubscribe id topic => exact sendQueue_sendOrQueue env s id _ (by decide)
  | pubrel id => exact sendQueue_pubrel env s id
  | time => exact sendQueue_doTime env s
  | receive header body => exact sendQueue_handle env s header body
  | suback id returnCode => exact sendQueue_quiet (quiet_writeFrame env s (unqueued_write _))
  | connect args => exact sendQueue_quiet (quiet_connect env s (fun _ _ => unqueued_write _))
  | connack sessionPresent returnCode => exact sendQueue_quiet (quiet_connack env s (unqueued_write _))
  | disconnect => exact sendQueue_quiet (quiet_disconnect env s (unqueued_write _))
  | writeFrame type flags body => exact sendQueue_quiet (quiet_writeFrame env s (unqueued_write _))
  | writeFramePacketId type id => exact sendQueue_quiet (quiet_writeFrame env s (unqueued_write _))
  | readFrame length => exact sendQueue_quiet (quiet_readFrame s length)
  | setStatus status => exact sendQueue_quiet (quiet_setStatus s status)
  | setObserver handler =>
    simp only [step, streamMqttSetObserver]
    split <;> rfl
  | removeObserver => rfl
  | rebuffer buffer => rfl

/-- The steps of the queue along a run. -/
def runActs : StreamMqtt → List (Env × Call) → List (Act Key)
  | _, [] => []
  | s, (env, call) :: calls => acts s env call ++ runActs (step s env call) calls

theorem sendQueue_run : ∀ (calls : List (Env × Call)) (s : StreamMqtt),
    sendQueue (run s calls) = ResendQueue.run mqttResendAttempts (sendQueue s) (runActs s calls)
  | [], s => rfl
  | (env, call) :: calls, s => by
    rw [run_cons, sendQueue_run calls, sendQueue_step, runActs, ResendQueue.run_append]

theorem sendQueue_init : sendQueue streamMqttInit = .empty := rfl

/-- The window holds in every reachable state. -/
theorem window_reachable {s : StreamMqtt} (h : Reachable s) : ResendQueue.Window (sendQueue s) := by
  obtain ⟨calls, rfl⟩ := h
  rw [sendQueue_run, sendQueue_init]
  exact ResendQueue.run_window _ _

end CMx.Mqtt
