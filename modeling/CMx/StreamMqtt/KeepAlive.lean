/-
What keeps a stream alive: its role, its keep-alive time and timer, whether its last ping was
answered, and its status. CONNECT, CONNACK and the pings work on these; every other frame and every
message of the application leaves them as they are.
-/
import CMx.StreamMqtt.Footprint

namespace CMx.Mqtt

/-- The fields of a stream that its keep-alive is about. -/
structure Vitals where
  clientRole : Bool
  keepAlive : Nat
  keepAliveResponded : Bool
  keepAliveTimer : Timer
  status : StreamStatus
  deriving DecidableEq, Repr

namespace StreamMqtt

def vitals (s : StreamMqtt) : Vitals :=
  ⟨s.clientRole, s.keepAlive, s.keepAliveResponded, s.keepAliveTimer, s.status⟩

section Fields

variable (s : StreamMqtt)

@[simp] theorem vitals_log (e : Event) : (s.log e).vitals = s.vitals := rfl
@[simp] theorem vitals_write (ticket : Option Ticket) (data : Bytes) : (s.write ticket data).vitals = s.vitals := rfl
@[simp] theorem vitals_startResendTimer (env : Env) : (s.startResendTimer env).vitals = s.vitals := rfl

@[simp] theorem vitals_startKeepAliveTimer (env : Env) : (s.startKeepAliveTimer env).vitals =
    { s.vitals with keepAliveTimer := timerStart env.clock timerSec s.keepAlive } := rfl

end Fields

end StreamMqtt

/-! ## Frames that leave them alone -/

section Frames

variable (env : Env) (s : StreamMqtt)

theorem vitals_notifyObserver (note : Note) : (streamMqttNotifyObserver s note).2.vitals = s.vitals := by
  unfold streamMqttNotifyObserver
  split <;> rfl

theorem vitals_deliver (r : Bool × StreamMqtt) (item : MqttFrameItem) : (streamMqttDeliver r item).vitals = r.2.vitals := by
  unfold streamMqttDeliver
  split
  split <;> rfl

theorem vitals_forward (type : MqttPacketType) (flags : UInt8) (msg : Msg) (body : Bytes) :
    (streamMqttForward s type flags msg body).vitals = s.vitals := by
  unfold streamMqttForward
  rw [vitals_deliver, vitals_notifyObserver]

theorem vitals_acknowledge (type : MqttPacketType) (id : UInt16) : (streamMqttAcknowledge s type id).vitals = s.vitals := by
  unfold streamMqttAcknowledge
  simp only
  split <;> rfl

theorem vitals_handleAck (frame : MqttFixedHeader) (body : Mem) (type : MqttPacketType) :
    (streamMqttHandleAck env s frame body type).vitals = s.vitals := by
  have hack := vitals_acknowledge s type (shortAt body 0)
  cases type with
  | suback => exact (vitals_forward _ _ _ _ _).trans hack
  | unsuback => exact (vitals_forward _ _ _ _ _).trans hack
  | _ => exact hack

theorem vitals_handlePublish (frame : MqttFixedHeader) (body : Mem) :
    (streamMqttHandlePublish env s frame body).vitals = s.vitals := by
  unfold streamMqttHandlePublish
  simp only
  split
  · rfl
  · rw [vitals_forward]
    split <;> rfl

theorem vitals_release (item : MqttFrameItem) : (streamMqttRelease env s item).vitals = s.vitals := by
  unfold streamMqttRelease
  rw [vitals_deliver]
  split
  · exact vitals_notifyObserver s _
  · rfl

theorem vitals_releaseLoop (id : UInt16) : ∀ (kept rest : List MqttFrameItem) (s : StreamMqtt),
    (streamMqttReleaseLoop env id kept rest s).vitals = s.vitals
  | kept, [], s => rfl
  | kept, item :: rest, s => by
    unfold streamMqttReleaseLoop
    split
    · rw [vitals_releaseLoop, vitals_release]
      rfl
    · exact vitals_releaseLoop id _ rest s

theorem vitals_handlePubrel (frame : MqttFixedHeader) (body : Mem) :
    (streamMqttHandlePubrel env s frame body).vitals = s.vitals := by
  unfold streamMqttHandlePubrel
  exact vitals_releaseLoop env _ _ _ _

theorem vitals_handleDisconnect (frame : MqttFixedHeader) : (streamMqttHandleDisconnect s frame).vitals = s.vitals := by
  unfold streamMqttHandleDisconnect
  rw [vitals_deliver, vitals_notifyObserver]

/-! ## A received frame -/

/-- The packets that work on a connection. -/
def MqttPacketType.isSignal : MqttPacketType → Bool
  | .connect | .connack | .pingreq | .pingresp => true
  | _ => false

/-- A frame of these types. -/
def Frame.isSignal (f : Frame) : Bool := (MqttPacketType.ofByte f.type).any MqttPacketType.isSignal

theorem vitals_handle (frame : MqttFixedHeader) (body : Mem) (h : (recorded frame body).isSignal = false) :
    (streamMqttHandleReceivedFrame env s frame body).vitals = s.vitals := by
  unfold Frame.isSignal at h
  simp only [recorded] at h
  unfold streamMqttHandleReceivedFrame
  simp only
  cases ht : MqttPacketType.ofByte frame.type with
  | none => rfl
  | some type =>
    rw [ht] at h
    cases type with
    | connect | connack | pingreq | pingresp => cases h
    | subscribe => exact vitals_forward _ _ _ _ _
    | unsubscribe => exact vitals_forward _ _ _ _ _
    | publish => exact vitals_handlePublish env _ frame body
    | suback | unsuback | puback | pubrec | pubcomp => exact vitals_handleAck env _ frame body _
    | pubrel => exact vitals_handlePubrel env _ frame body
    | disconnect => exact vitals_handleDisconnect _ frame
    | forbidden => rfl

/-- The keep-alive time of a CONNECT. -/
def connectKeepAlive (env : Env) (frame : MqttFixedHeader) (body : Mem) : UInt16 :=
  ((mqttParseConnect env.connect frame.bodyLength).value body).2.keepAlive

/-- The return code of a CONNACK. -/
def connackReturnCode (frame : MqttFixedHeader) (body : Mem) : UInt8 :=
  ((mqttParseConnack {} frame.bodyLength).value body).2.returnCode

variable {frame : MqttFixedHeader} {body : Mem}

theorem vitals_handle_connect (h : MqttPacketType.ofByte frame.type = some .connect) :
    (streamMqttHandleReceivedFrame env s frame body).vitals =
      if connectKeepAlive env frame body > 0 then
        let keepAlive := (connectKeepAlive env frame body).toNat + mqttKeepAliveTimeout
        { s.vitals with keepAlive, keepAliveTimer := timerStart env.clock timerSec keepAlive }
      else s.vitals := by
  unfold streamMqttHandleReceivedFrame
  rw [h]
  simp only [streamMqttHandleConnect, vitals_forward]
  unfold connectKeepAlive
  split <;> rfl

theorem vitals_handle_connack (h : MqttPacketType.ofByte frame.type = some .connack) :
    (streamMqttHandleReceivedFrame env s frame body).vitals =
      if connackReturnCode frame body = mqttConnackAccepted ∧ s.keepAlive > 0 then
        { s.vitals with keepAliveTimer := timerStart env.clock timerSec s.keepAlive, status := .ready }
      else s.vitals := by
  unfold streamMqttHandleReceivedFrame
  rw [h]
  simp only [streamMqttHandleConnack, vitals_forward]
  show (if connackReturnCode frame body = mqttConnackAccepted ∧ s.keepAlive > 0 then _ else _ : StreamMqtt).vitals = _
  split <;> rfl

theorem vitals_handle_pingreq (h : MqttPacketType.ofByte frame.type = some .pingreq) :
    (streamMqttHandleReceivedFrame env s frame body).vitals =
      { s.vitals with keepAliveTimer := timerStart env.clock timerSec s.keepAlive } := by
  unfold streamMqttHandleReceivedFrame
  rw [h]
  rfl

theorem vitals_handle_pingresp (h : MqttPacketType.ofByte frame.type = some .pingresp) :
    (streamMqttHandleReceivedFrame env s frame body).vitals = { s.vitals with keepAliveResponded := true } := by
  unfold streamMqttHandleReceivedFrame
  rw [h]
  rfl

end Frames

/-! ## Calls -/

section Calls

variable (env : Env) (s : StreamMqtt)

theorem vitals_resendTime : (streamMqttResendTime env s).vitals = s.vitals := by
  unfold streamMqttResendTime
  split
  · split
    · rfl
    · simp only
      split <;> rfl
  · rfl

theorem vitals_sendTime : (streamMqttSendTime env s).vitals = s.vitals := by
  unfold streamMqttSendTime
  split
  · rfl
  · split <;> rfl

theorem vitals_doTime : (streamMqttDoTime env s).2.vitals = (streamMqttKeepAliveTime env s).vitals := by
  unfold streamMqttDoTime
  rw [vitals_sendTime, vitals_resendTime]

/-- Below the interval nothing happens. -/
theorem keepAliveTime_of_not_expired (h : timerExpired env.clock s.keepAliveTimer = false) :
    streamMqttKeepAliveTime env s = s := by
  unfold streamMqttKeepAliveTime
  rw [h]
  rfl

/-- A client whose last ping was answered sends the next one. -/
theorem keepAliveTime_of_responded (h : timerExpired env.clock s.keepAliveTimer = true) (hrole : s.clientRole = true)
    (hresponded : s.keepAliveResponded = true) :
    streamMqttKeepAliveTime env s =
      { s.write none (mqttFormatFrame MqttPacketType.pingreq.toByte 0 []) with
        keepAliveResponded := false, keepAliveTimer := timerRestart env.clock s.keepAliveTimer } := by
  unfold streamMqttKeepAliveTime
  rw [h, hrole, hresponded]
  rfl

theorem vitals_publish (retain dup : Bool) (qos : UInt8) (id : UInt16) (topic : CString) (payload : Bytes) :
    (streamMqttPublish env s retain dup qos id topic payload).2.vitals = s.vitals := by
  unfold streamMqttPublish
  simp only
  split
  · split <;> rfl
  · rfl

theorem vitals_sendOrQueue (type : MqttPacketType) (id : UInt16) (buffer : Bytes) :
    (streamMqttSendOrQueue env s type id buffer).2.vitals = s.vitals := by
  unfold streamMqttSendOrQueue
  simp only
  split <;> rfl

theorem vitals_readFrame (length : Nat) : (streamMqttReadFrame s length).2.vitals = s.vitals := by
  unfold streamMqttReadFrame
  split
  · rfl
  · split <;> rfl

/-- The calls that set up, close or watch over a connection, and the steps of the reassembly loop. -/
def Call.isVital : Call → Bool
  | .connect _ | .connack _ _ | .disconnect | .setStatus _ | .time | .receive _ _ => true
  | _ => false

theorem vitals_step {call : Call} (h : call.isVital = false) : (step s env call).vitals = s.vitals := by
  cases call with
  | publish retain dup qos id topic payload => exact vitals_publish env s retain dup qos id topic payload
  | subscribe id topic qos => exact vitals_sendOrQueue env s _ _ _
  | unsubscribe id topic => exact vitals_sendOrQueue env s _ _ _
  | pubrel id => rfl
  | suback id returnCode => rfl
  | writeFrame type flags body => rfl
  | writeFramePacketId type id => rfl
  | readFrame length => exact vitals_readFrame s length
  | setObserver handler =>
    simp only [step, streamMqttSetObserver]
    split <;> rfl
  | removeObserver => rfl
  | rebuffer buffer => rfl
  | connect | connack | disconnect | setStatus | time | receive => cases h

end Calls

end CMx.Mqtt
