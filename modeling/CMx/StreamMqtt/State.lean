/-
The stream of `stream_mqtt.c`: its state, the frame queues, and the operations an application
calls. The transport below is seen from outside: what a call reads from it and what it answers
to a write come from `Env`, and what is written to it is recorded in `trace`, the history of the
stream, which no function of the source reads.
-/
import CMx.Timer
import CMx.Mqtt.Body

namespace CMx.Mqtt

def mqttMessageBufferSize : Nat := 1024
def mqttKeepAliveTimeout : Nat := 15
def mqttResendAttempts : Nat := 3
def mqttResendTimeout : Int := 30

/-! ## The state -/

/-- A queued frame. The tag numbers the messages in the order in which they entered the outgoing
queue; it is no field of the C struct, and 0 elsewhere. -/
structure MqttFrameItem where
  buffer : Bytes
  type : MqttPacketType
  flags : UInt8
  id : UInt16
  tag : Nat := 0
  deriving DecidableEq, Repr

inductive StreamStatus where
  | init | ready | closing | closed
  deriving DecidableEq, Repr

/-- The message struct an observer is called with. -/
inductive Msg where
  | connect (msg : MqttConnect)
  | connack (msg : MqttConnack)
  | subscribe (msg : MqttSubscribe)
  | unsubscribe (msg : MqttUnsubscribe)
  | publish (msg : MqttPublish)
  | suback (msg : MqttSuback)
  | unsuback (msg : MqttUnsuback)
  | null
  deriving DecidableEq, Repr

/-- A call of the observer; the pointers of the message point into `body`. -/
structure Note where
  type : MqttPacketType
  flags : UInt8
  msg : Msg
  body : Bytes
  deriving DecidableEq, Repr

/-- A received frame. -/
structure Frame where
  type : UInt8
  flags : UInt8
  body : Bytes
  deriving DecidableEq, Repr

def Frame.format (f : Frame) : Bytes := mqttFormatFrame f.type f.flags f.body

/-- Which queued message a write transmits. -/
structure Ticket where
  tag : Nat
  type : MqttPacketType
  deriving DecidableEq, Repr

def MqttFrameItem.ticket (item : MqttFrameItem) : Ticket := ⟨item.tag, item.type⟩

/-- What happens to a stream. -/
inductive Event where
  /-- Bytes are written; frames that are never queued have no ticket. -/
  | write (ticket : Option Ticket) (data : Bytes)
  /-- A frame is handed to `stream_mqtt_handle_received_frame`. -/
  | receive (frame : Frame)
  /-- The observer is called. -/
  | notify (note : Note)
  /-- A message leaves for the observer or, if it did not take it, for the incoming queue. -/
  | deliver (item : MqttFrameItem) (byObserver : Bool)
  /-- A received packet has removed the message it answers from the outgoing queue. -/
  | acknowledge (type : MqttPacketType) (id : UInt16)
  /-- A message is removed unacknowledged. -/
  | abandon (tag : Nat)
  deriving DecidableEq, Repr

/-- The observer's handler; what it answers may depend on everything up to its call. -/
abbrev Handler := List Event → Int

structure StreamMqtt where
  status : StreamStatus
  buffer : Bytes
  clientRole : Bool
  incoming : List MqttFrameItem
  outgoing : List MqttFrameItem
  inbound : List MqttFrameItem
  mqttObserver : Option Handler
  keepAlive : Nat
  keepAliveResponded : Bool
  keepAliveTimer : Timer
  resendAttempts : Nat
  resendTimer : Timer
  nextTag : Nat
  trace : List Event

/-- What a call finds outside the stream: the clock, the answers of the transport, the memory
behind the bytes of a received body (which may differ from frame to frame: it is indexed by the
length of the history) and the content of uninitialised message structs. -/
structure Env where
  clock : Clock
  writeResult : Int
  timeResult : Int
  stale : Nat → Mem
  connect : MqttConnect
  publish : MqttPublish

/-- The clock at a second, with nothing else to find. -/
def Env.at (seconds : Int) : Env where
  clock := ⟨seconds * 1000, seconds, 0, ⟨seconds, 0, seconds⟩⟩
  writeResult := 1
  timeResult := 1
  stale := fun _ _ => 0
  connect := {}
  publish := {}

inductive Errno where
  | again | noMem | other
  deriving DecidableEq, Repr

/-- `stream_mqtt_new`: the decorated stream owns the descriptor. -/
def streamMqttInit : StreamMqtt where
  status := .init
  buffer := []
  clientRole := false
  incoming := []
  outgoing := []
  inbound := []
  mqttObserver := none
  keepAlive := 0
  keepAliveResponded := true
  keepAliveTimer := timerStop
  resendAttempts := 0
  resendTimer := timerStop
  nextTag := 0
  trace := []

namespace StreamMqtt

def log (s : StreamMqtt) (e : Event) : StreamMqtt := { s with trace := s.trace ++ [e] }

/-- `stream_mqtt_real_write`, without its return value. -/
def write (s : StreamMqtt) (ticket : Option Ticket) (data : Bytes) : StreamMqtt := s.log (.write ticket data)

/-- `timer_start(&self->resend_timer, TIMER_SEC, MQTT_RESEND_TIMEOUT)`. -/
def startResendTimer (s : StreamMqtt) (env : Env) : StreamMqtt :=
  { s with resendTimer := timerStart env.clock timerSec mqttResendTimeout }

/-- `timer_start(&self->keep_alive_timer, TIMER_SEC, self->keep_alive)`. -/
def startKeepAliveTimer (s : StreamMqtt) (env : Env) : StreamMqtt :=
  { s with keepAliveTimer := timerStart env.clock timerSec s.keepAlive }

end StreamMqtt

def streamMqttSetStatus (s : StreamMqtt) (status : StreamStatus) : StreamMqtt := { s with status }

def streamMqttSetObserver (s : StreamMqtt) (handler : Handler) : StreamMqtt :=
  if s.mqttObserver.isNone then { s with mqttObserver := some handler } else s

def streamMqttRemoveObserver (s : StreamMqtt) : StreamMqtt := { s with mqttObserver := none }

/-! ## Queues -/

def mqttFrameItemNew (type : MqttPacketType) (flags : UInt8) (id : UInt16) (buffer : Bytes) (tag : Nat := 0) :
    MqttFrameItem := ⟨buffer, type, flags, id, tag⟩

def streamMqttAppendFrame (queue : List MqttFrameItem) (item : MqttFrameItem) : List MqttFrameItem :=
  queue ++ [item]

def streamMqttInsertFrame (queue : List MqttFrameItem) (item : MqttFrameItem) : List MqttFrameItem :=
  item :: queue

/-- The items that `stream_mqtt_remove_frame` removes. -/
def MqttFrameItem.matches (type : MqttPacketType) (id : UInt16) (item : MqttFrameItem) : Bool :=
  item.type = type && item.id = id

def streamMqttRemoveFrame (queue : List MqttFrameItem) (type : MqttPacketType) (id : UInt16) :
    Bool × List MqttFrameItem :=
  (queue.any (MqttFrameItem.matches type id), queue.filter fun item => !item.matches type id)

/-! ## Writing frames -/

def streamMqttRealWrite (env : Env) (s : StreamMqtt) (ticket : Option Ticket) (data : Bytes) : Int × StreamMqtt :=
  (env.writeResult, s.write ticket data)

def streamMqttWriteFrame (env : Env) (s : StreamMqtt) (type flags : UInt8) (body : Bytes) : Int × StreamMqtt :=
  streamMqttRealWrite env s none (mqttFormatFrame type flags body)

def streamMqttWriteFramePacketId (env : Env) (s : StreamMqtt) (type : UInt8) (id : UInt16) : Int × StreamMqtt :=
  let flags := if type = MqttPacketType.pubrel.toByte then mqttQosToFlags mqttQos1 else 0
  streamMqttWriteFrame env s type flags (mqttPutShort id)

def streamMqttPuback (env : Env) (s : StreamMqtt) (id : UInt16) : Int × StreamMqtt :=
  streamMqttWriteFramePacketId env s MqttPacketType.puback.toByte id

def streamMqttPubrec (env : Env) (s : StreamMqtt) (id : UInt16) : Int × StreamMqtt :=
  streamMqttWriteFramePacketId env s MqttPacketType.pubrec.toByte id

def streamMqttPubcomp (env : Env) (s : StreamMqtt) (id : UInt16) : Int × StreamMqtt :=
  streamMqttWriteFramePacketId env s MqttPacketType.pubcomp.toByte id

def streamMqttUnsuback (env : Env) (s : StreamMqtt) (id : UInt16) : Int × StreamMqtt :=
  streamMqttWriteFramePacketId env s MqttPacketType.unsuback.toByte id

def streamMqttPingreq (env : Env) (s : StreamMqtt) : Int × StreamMqtt :=
  streamMqttWriteFrame env s MqttPacketType.pingreq.toByte 0 []

def streamMqttPingresp (env : Env) (s : StreamMqtt) : Int × StreamMqtt :=
  streamMqttWriteFrame env s MqttPacketType.pingresp.toByte 0 []

/-- `none` where formatting the body crashes. -/
def streamMqttConnect (env : Env) (s : StreamMqtt) (args : MqttConnectArgs) : Option (Int × StreamMqtt) := do
  let s := { s with clientRole := true, keepAlive := args.keepAlive.toNat }
  let bodyLen := mqttEvalConnect args
  let body ← mqttFormatConnect args
  return streamMqttRealWrite env s none
    (mqttFormatFixedHeader MqttPacketType.connect.toByte 0 bodyLen ++ body)

def streamMqttConnack (env : Env) (s : StreamMqtt) (sessionPresent : Bool) (returnCode : UInt8) :
    Int × StreamMqtt :=
  let s := if returnCode = mqttConnackAccepted then streamMqttSetStatus s .ready else s
  streamMqttWriteFrame env s MqttPacketType.connack.toByte 0 (mqttFormatConnack sessionPresent returnCode)

/-- The bytes that `stream_mqtt_publish` builds, and their flags. -/
def publishFlags (retain dup : Bool) (qos : UInt8) : UInt8 :=
  mqttQosToFlags qos ||| (if retain then mqttRetainFlag else 0) ||| (if dup then mqttDupFlag else 0)

def publishBuffer (retain dup : Bool) (qos : UInt8) (id : UInt16) (topic : CString) (payload : Bytes) : Bytes :=
  let bodyLen := mqttEvalPublish qos topic payload.length
  mqttFormatFixedHeader MqttPacketType.publish.toByte (publishFlags retain dup qos) bodyLen
    ++ mqttFormatPublish qos id topic payload

def streamMqttPublish (env : Env) (s : StreamMqtt) (retain dup : Bool) (qos : UInt8) (id : UInt16)
    (topic : CString) (payload : Bytes) : Int × StreamMqtt :=
  let flags := publishFlags retain dup qos
  let buffer := publishBuffer retain dup qos id topic payload
  let item := mqttFrameItemNew .publish flags id buffer s.nextTag
  let s := { s with nextTag := s.nextTag + 1 }
  if s.outgoing.isEmpty then
    let (ret, s) := streamMqttRealWrite env s (some item.ticket) buffer
    if qos > mqttQos0 then
      let s := { s.startResendTimer env with resendAttempts := 0 }
      (ret, { s with outgoing := streamMqttAppendFrame s.outgoing item })
    else (ret, s)
  else (1, { s with outgoing := streamMqttAppendFrame s.outgoing item })

def pubrelBuffer (id : UInt16) : Bytes :=
  mqttFormatFixedHeader MqttPacketType.pubrel.toByte (mqttQosToFlags mqttQos1) mqttPacketIdSize
    ++ mqttPutShort id

def streamMqttPubrel (env : Env) (s : StreamMqtt) (id : UInt16) : Int × StreamMqtt :=
  let buffer := pubrelBuffer id
  let item := mqttFrameItemNew .pubrel (mqttQosToFlags mqttQos1) id buffer s.nextTag
  let s := { s with nextTag := s.nextTag + 1, outgoing := streamMqttInsertFrame s.outgoing item }
  streamMqttRealWrite env s (some item.ticket) buffer

/-- The common part of `stream_mqtt_subscribe` and `stream_mqtt_unsubscribe`: send the message if
nothing is waiting, and queue it. -/
def streamMqttSendOrQueue (env : Env) (s : StreamMqtt) (type : MqttPacketType) (id : UInt16) (buffer : Bytes) :
    Int × StreamMqtt :=
  let item := mqttFrameItemNew type (mqttQosToFlags mqttQos1) id buffer s.nextTag
  let s := { s with nextTag := s.nextTag + 1 }
  if s.outgoing.isEmpty then
    let (ret, s) := streamMqttRealWrite env s (some item.ticket) buffer
    let s := { s.startResendTimer env with resendAttempts := 0 }
    (ret, { s with outgoing := streamMqttAppendFrame s.outgoing item })
  else (1, { s with outgoing := streamMqttAppendFrame s.outgoing item })

def streamMqttSubscribe (env : Env) (s : StreamMqtt) (id : UInt16) (topic : CString) (qos : UInt8) :
    Int × StreamMqtt :=
  streamMqttSendOrQueue env s .subscribe id
    (mqttFormatFixedHeader MqttPacketType.subscribe.toByte (mqttQosToFlags mqttQos1) (mqttEvalSubscribe topic)
      ++ mqttFormatSubscribe id topic qos)

def streamMqttUnsubscribe (env : Env) (s : StreamMqtt) (id : UInt16) (topic : CString) : Int × StreamMqtt :=
  streamMqttSendOrQueue env s .unsubscribe id
    (mqttFormatFixedHeader MqttPacketType.unsubscribe.toByte (mqttQosToFlags mqttQos1) (mqttEvalUnsubscribe topic)
      ++ mqttFormatUnsubscribe id topic)

def streamMqttSuback (env : Env) (s : StreamMqtt) (id : UInt16) (returnCode : UInt8) : Int × StreamMqtt :=
  streamMqttWriteFrame env s MqttPacketType.suback.toByte 0 (mqttFormatSuback id returnCode)

def streamMqttDisconnect (env : Env) (s : StreamMqtt) : Int × StreamMqtt :=
  let (ret, s) := streamMqttWriteFrame env s MqttPacketType.disconnect.toByte 0 []
  (ret, streamMqttSetStatus s .closing)

/-! ## Time -/

/-- The keep-alive part of `stream_mqtt_do_time`. -/
def streamMqttKeepAliveTime (env : Env) (s : StreamMqtt) : StreamMqtt :=
  if timerExpired env.clock s.keepAliveTimer then
    if s.clientRole then
      if s.keepAliveResponded then
        let (_, s) := streamMqttPingreq env s
        { s with keepAliveResponded := false, keepAliveTimer := timerRestart env.clock s.keepAliveTimer }
      else streamMqttSetStatus s .closing
    else streamMqttSetStatus s .closing
  else s

/-- The expiry of the resend timer in `stream_mqtt_do_time`. -/
def streamMqttResendTime (env : Env) (s : StreamMqtt) : StreamMqtt :=
  if timerExpired env.clock s.resendTimer then
    match s.outgoing with
    | [] => s
    | item :: outgoing =>
      let s := { s with resendAttempts := s.resendAttempts + 1 }
      if s.resendAttempts < mqttResendAttempts then
        (s.write (some item.ticket) item.buffer).startResendTimer env
      else
        { s.log (.abandon item.tag) with outgoing, resendTimer := timerStop, resendAttempts := 0 }
  else s

/-- The next message of the queue, sent by `stream_mqtt_do_time` if no timer runs. -/
def streamMqttSendTime (env : Env) (s : StreamMqtt) : StreamMqtt :=
  if timerRunning s.resendTimer then s
  else
    match s.outgoing with
    | [] => s
    | item :: _ => (s.write (some item.ticket) item.buffer).startResendTimer env

def streamMqttDoTime (env : Env) (s : StreamMqtt) : Int × StreamMqtt :=
  (env.timeResult, streamMqttSendTime env (streamMqttResendTime env (streamMqttKeepAliveTime env s)))

/-! ## Reading frames -/

structure ReadFrame where
  type : MqttPacketType
  flags : UInt8
  data : Bytes
  deriving DecidableEq, Repr

/-- `stream_mqtt_read_frame` with a buffer of `length` bytes. -/
def streamMqttReadFrame (s : StreamMqtt) (length : Nat) : Except Errno ReadFrame × StreamMqtt :=
  match s.incoming with
  | [] => (.error .again, s)
  | item :: incoming =>
    if item.buffer.length > length then (.error .noMem, s)
    else (.ok ⟨item.type, item.flags, item.buffer⟩, { s with incoming })

end CMx.Mqtt
