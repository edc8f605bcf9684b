/-
The stream of `stream_mqtt.c` with its three frame queues as they are in memory: tail queues of allocated
items, on which its functions work through the macros of `queue.h`. Everything else of the stream is as in
`StreamMqtt`, and functions that do not use the queues are taken from there. The stream in memory stands for the
one with lists: each call does to the lists what the model says, and never touches an item that is not there.
-/
import CMx.Queue.Contents
import CMx.StreamMqtt.Receive

namespace CMx.Mqtt

open Links

inductive FrameQueue where
  | incoming | outgoing | inbound
  deriving DecidableEq, Repr

instance : Finite FrameQueue :=
  Finite.of_surjective (fun n : Fin 3 => match n with | 0 => FrameQueue.incoming | 1 => .outgoing | 2 => .inbound) fun queue => by
    cases queue
    · exact ⟨0, rfl⟩
    · exact ⟨1, rfl⟩
    · exact ⟨2, rfl⟩

/-- The lists of `fields` are no part of the stream. -/
structure MemStream (α : Type) where
  memory : Memory FrameQueue α MqttFrameItem
  fields : StreamMqtt

/-! ## The functions that use the queues -/

namespace MemStream

section Functions

variable {α : Type} [DecidableEq α] (A : Allocator α MqttFrameItem) (n : Nat) (env : Env) (l : MemStream α)

/-- `stream_mqtt_init`. -/
def init (memory : Memory FrameQueue α MqttFrameItem) : Option (MemStream α) := do
  let memory ← tailqInit memory .incoming
  let memory ← tailqInit memory .outgoing
  let memory ← tailqInit memory .inbound
  return ⟨memory, streamMqttInit⟩

def appendFrame (queue : FrameQueue) (item : MqttFrameItem) : Option (MemStream α) := do
  let memory ← insertNewTail A l.memory queue item
  return { l with memory }

def insertFrame (queue : FrameQueue) (item : MqttFrameItem) : Option (MemStream α) := do
  let memory ← insertNewHead A l.memory queue item
  return { l with memory }

/-- `n` bounds the rounds of the loop, here and below. -/
def removeFrame (queue : FrameQueue) (type : MqttPacketType) (id : UInt16) : Option (Bool × MemStream α) := do
  let (found, memory) ← removeAll n l.memory queue (MqttFrameItem.matches type id)
  return (found, { l with memory })

def cleanQueue (queue : FrameQueue) : Option (MemStream α) := do
  let (_, memory) ← removeAll n l.memory queue fun _ => true
  return { l with memory }

/-- `stream_mqtt_clean`. -/
def clean : Option (MemStream α) := do
  let l ← l.cleanQueue n .incoming
  let l ← l.cleanQueue n .outgoing
  let l ← l.cleanQueue n .inbound
  return { l with fields := streamMqttRemoveObserver l.fields }

/-- A message gets its number. -/
def numbered (fields : StreamMqtt) : StreamMqtt := { fields with nextTag := fields.nextTag + 1 }

/-- A message is sent at once, and the resend timer is started if it is to be acknowledged. -/
def sendNow (fields : StreamMqtt) (item : MqttFrameItem) (acknowledged : Bool) : Int × StreamMqtt :=
  let (ret, fields) := streamMqttRealWrite env fields (some item.ticket) item.buffer
  (ret, if acknowledged then { fields.startResendTimer env with resendAttempts := 0 } else fields)

def publish (retain dup : Bool) (qos : UInt8) (id : UInt16) (topic : CString) (payload : Bytes) :
    Option (Int × MemStream α) := do
  let item := mqttFrameItemNew .publish (publishFlags retain dup qos) id (publishBuffer retain dup qos id topic payload)
    l.fields.nextTag
  let msgSent ← tailqEmpty l.memory .outgoing
  let (ret, fields) := if msgSent then sendNow env (numbered l.fields) item (qos > mqttQos0) else (1, numbered l.fields)
  if !msgSent || qos > mqttQos0 then
    let l ← appendFrame A ⟨l.memory, fields⟩ .outgoing item
    return (ret, l)
  else return (ret, ⟨l.memory, fields⟩)

def pubrel (id : UInt16) : Option (Int × MemStream α) := do
  let item := mqttFrameItemNew .pubrel (mqttQosToFlags mqttQos1) id (pubrelBuffer id) l.fields.nextTag
  let l ← insertFrame A ⟨l.memory, numbered l.fields⟩ .outgoing item
  let (ret, fields) := streamMqttRealWrite env l.fields (some item.ticket) item.buffer
  return (ret, { l with fields })

/-- The common part of `stream_mqtt_subscribe` and `stream_mqtt_unsubscribe`. -/
def sendOrQueue (type : MqttPacketType) (id : UInt16) (buffer : Bytes) : Option (Int × MemStream α) := do
  let item := mqttFrameItemNew type (mqttQosToFlags mqttQos1) id buffer l.fields.nextTag
  let empty ← tailqEmpty l.memory .outgoing
  let (ret, fields) := if empty then sendNow env (numbered l.fields) item true else (1, numbered l.fields)
  let l ← appendFrame A ⟨l.memory, fields⟩ .outgoing item
  return (ret, l)

def subscribe (id : UInt16) (topic : CString) (qos : UInt8) : Option (Int × MemStream α) :=
  l.sendOrQueue A env .subscribe id
    (mqttFormatFixedHeader MqttPacketType.subscribe.toByte (mqttQosToFlags mqttQos1) (mqttEvalSubscribe topic)
      ++ mqttFormatSubscribe id topic qos)

def unsubscribe (id : UInt16) (topic : CString) : Option (Int × MemStream α) :=
  l.sendOrQueue A env .unsubscribe id
    (mqttFormatFixedHeader MqttPacketType.unsubscribe.toByte (mqttQosToFlags mqttQos1) (mqttEvalUnsubscribe topic)
      ++ mqttFormatUnsubscribe id topic)

/-- The expiry of the resend timer in `stream_mqtt_do_time`. -/
def resendTime : Option (MemStream α) := do
  if timerExpired env.clock l.fields.resendTimer then
    match ← tailqFirst l.memory .outgoing with
    | none => return l
    | some x =>
      let item ← l.memory.data x
      let fields := { l.fields with resendAttempts := l.fields.resendAttempts + 1 }
      if fields.resendAttempts < mqttResendAttempts then
        return { l with fields := (fields.write (some item.ticket) item.buffer).startResendTimer env }
      else
        let memory ← removeDelete l.memory .outgoing x
        return ⟨memory, { fields.log (.abandon item.tag) with resendTimer := timerStop, resendAttempts := 0 }⟩
  else return l

/-- The next message of the queue, sent by `stream_mqtt_do_time` if no timer runs. -/
def sendTime : Option (MemStream α) := do
  if timerRunning l.fields.resendTimer then return l
  else
    match ← tailqFirst l.memory .outgoing with
    | none => return l
    | some x =>
      let item ← l.memory.data x
      return { l with fields := (l.fields.write (some item.ticket) item.buffer).startResendTimer env }

def doTime : Option (Int × MemStream α) := do
  let l := { l with fields := streamMqttKeepAliveTime env l.fields }
  let l ← l.resendTime env
  let l ← l.sendTime env
  return (env.timeResult, l)

def readFrame (length : Nat) : Option (Except Errno ReadFrame × MemStream α) := do
  if ← tailqEmpty l.memory .incoming then return (.error .again, l)
  match ← tailqFirst l.memory .incoming with
  | none => none
  | some x =>
    let item ← l.memory.data x
    if item.buffer.length > length then return (.error .noMem, l)
    let memory ← removeDelete l.memory .incoming x
    return (.ok ⟨item.type, item.flags, item.buffer⟩, { l with memory })

/-- What follows every call of the observer. -/
def deliver (handledByObserver : Bool × StreamMqtt) (memory : Memory FrameQueue α MqttFrameItem) (item : MqttFrameItem) :
    Option (MemStream α) :=
  let (handled, fields) := handledByObserver
  let fields := fields.log (.deliver item handled)
  if handled then some ⟨memory, fields⟩ else appendFrame A ⟨memory, fields⟩ .incoming item

def forward (type : MqttPacketType) (flags : UInt8) (msg : Msg) (body : Bytes) : Option (MemStream α) :=
  deliver A (streamMqttNotifyObserver l.fields ⟨type, flags, msg, body⟩) l.memory (mqttFrameItemNew type flags 0 body)

variable (frame : MqttFixedHeader) (body : Mem)

def handleConnect : Option (MemStream α) :=
  let msg := ((mqttParseConnect env.connect frame.bodyLength).value body).2
  let fields := if msg.keepAlive > 0 then
      ({ l.fields with keepAlive := msg.keepAlive.toNat + mqttKeepAliveTimeout }).startKeepAliveTimer env
    else l.fields
  forward A ⟨l.memory, fields⟩ .connect frame.flags (.connect msg) (frameBody frame body)

def handleConnack : Option (MemStream α) :=
  let msg := ((mqttParseConnack {} frame.bodyLength).value body).2
  let fields := if msg.returnCode = mqttConnackAccepted ∧ l.fields.keepAlive > 0 then
      streamMqttSetStatus (l.fields.startKeepAliveTimer env) .ready
    else l.fields
  forward A ⟨l.memory, fields⟩ .connack frame.flags (.connack msg) (frameBody frame body)

def handleSubscribe : Option (MemStream α) :=
  let msg := ((mqttParseSubscribe {} frame.bodyLength).value body).2
  l.forward A .subscribe frame.flags (.subscribe msg) (frameBody frame body)

def handleUnsubscribe : Option (MemStream α) :=
  let msg := ((mqttParseUnsubscribe {} frame.bodyLength).value body).2
  l.forward A .unsubscribe frame.flags (.unsubscribe msg) (frameBody frame body)

def handlePublish : Option (MemStream α) := do
  let qos := mqttQosFromFlags frame.flags
  let msg := ((mqttParsePublish env.publish frame.bodyLength qos).value body).2
  if qos = mqttQos2 then
    let (_, l) ← l.removeFrame n .inbound .publish msg.id
    let l ← l.appendFrame A .inbound (mqttFrameItemNew .publish frame.flags msg.id (frameBody frame body))
    return { l with fields := (streamMqttPubrec env l.fields msg.id).2 }
  else
    let fields := if qos = mqttQos1 then (streamMqttPuback env l.fields msg.id).2 else l.fields
    forward A ⟨l.memory, fields⟩ .publish frame.flags (.publish msg) (frameBody frame body)

def acknowledge (type : MqttPacketType) (id : UInt16) : Option (MemStream α) := do
  let (found, l) ← l.removeFrame n .outgoing (mqttRequestType type) id
  return { l with
    fields := if found then { l.fields.log (.acknowledge type id) with resendTimer := timerStop } else l.fields }

def handleAck (type : MqttPacketType) : Option (MemStream α) := do
  let varhdr := ((mqttParseVarHeaderId ⟨0⟩ frame.bodyLength).value body).2
  let l ← l.acknowledge n type varhdr.id
  match type with
  | .pubrec =>
    let (_, l) ← l.pubrel A env varhdr.id
    return { l with fields := { l.fields.startResendTimer env with resendAttempts := 0 } }
  | .suback =>
    let msg := ((mqttParseSuback {} frame.bodyLength).value body).2
    l.forward A .suback frame.flags (.suback msg) (frameBody frame body)
  | .unsuback =>
    let msg := ((mqttParseUnsuback {} frame.bodyLength).value body).2
    l.forward A .unsuback frame.flags (.unsuback msg) (frameBody frame body)
  | _ => return l

/-- Whether the observer takes an inbound item. -/
def offer (fields : StreamMqtt) (item : MqttFrameItem) : Bool × StreamMqtt :=
  if item.type = .publish then
    let body := memOf item.buffer (env.stale fields.trace.length)
    let qos := mqttQosFromFlags item.flags
    let msg := ((mqttParsePublish env.publish item.buffer.length qos).value body).2
    streamMqttNotifyObserver fields ⟨item.type, item.flags, .publish msg, item.buffer⟩
  else (false, fields)

/-- The body of the loop over `inbound`: the item itself goes to the incoming queue, or is freed. -/
def releaseItem (id : UInt16) (fields : StreamMqtt) (memory : Memory FrameQueue α MqttFrameItem) (x : α) :
    Option (StreamMqtt × Memory FrameQueue α MqttFrameItem) := do
  let item ← memory.data x
  if item.id = id then
    let memory ← tailqRemove memory .inbound x
    let (handled, fields) := offer env fields item
    let fields := fields.log (.deliver item handled)
    let memory ← if handled then memory.free x else tailqInsertTail memory .incoming x
    return (fields, memory)
  else return (fields, memory)

def handlePubrel : Option (MemStream α) := do
  let msg := ((mqttParseVarHeaderId ⟨0⟩ frame.bodyLength).value body).2
  let (_, fields) := streamMqttPubcomp env l.fields msg.id
  let first ← tailqFirst l.memory .inbound
  let (fields, memory) ← forEachSafe (releaseItem env msg.id) n first fields l.memory
  return ⟨memory, fields⟩

def handleDisconnect : Option (MemStream α) :=
  deliver A (streamMqttNotifyObserver l.fields ⟨.disconnect, frame.flags, .null, []⟩) l.memory
    (mqttFrameItemNew .disconnect frame.flags 0 [0])

def handleReceivedFrame : Option (MemStream α) :=
  let l := { l with fields := l.fields.log (.receive (recorded frame body)) }
  match MqttPacketType.ofByte frame.type with
  | some .connect => l.handleConnect A env frame body
  | some .connack => l.handleConnack A env frame body
  | some .subscribe => l.handleSubscribe A frame body
  | some .unsubscribe => l.handleUnsubscribe A frame body
  | some .publish => l.handlePublish A n env frame body
  | some .suback => l.handleAck A n env frame body .suback
  | some .unsuback => l.handleAck A n env frame body .unsuback
  | some .puback => l.handleAck A n env frame body .puback
  | some .pubrec => l.handleAck A n env frame body .pubrec
  | some .pubcomp => l.handleAck A n env frame body .pubcomp
  | some .pubrel => l.handlePubrel n env frame body
  | some .pingreq => some { l with fields := streamMqttHandlePingreq env l.fields }
  | some .pingresp => some { l with fields := streamMqttHandlePingresp l.fields }
  | some .disconnect => l.handleDisconnect A frame
  | some .forbidden | none => some l

/-- The stream behind a call. -/
def step (call : Call) : Option (MemStream α) :=
  match call with
  | .publish retain dup qos id topic payload => (l.publish A env retain dup qos id topic payload).map (·.2)
  | .subscribe id topic qos => (l.subscribe A env id topic qos).map (·.2)
  | .unsubscribe id topic => (l.unsubscribe A env id topic).map (·.2)
  | .pubrel id => (l.pubrel A env id).map (·.2)
  | .time => (l.doTime env).map (·.2)
  | .readFrame length => (l.readFrame length).map (·.2)
  | .receive frame body => l.handleReceivedFrame A n env frame body
  | call => some { l with fields := Mqtt.step l.fields env call }

/-- A run. -/
def run (l : MemStream α) (calls : List (Env × Call)) : Option (MemStream α) :=
  calls.foldlM (fun l call => l.step A n call.1 call.2) l

end Functions

end MemStream

/-! ## What the stream in memory stands for -/

def StreamMqtt.withQueues (s : StreamMqtt) (items : FrameQueue → List MqttFrameItem) : StreamMqtt :=
  { s with incoming := items .incoming, outgoing := items .outgoing, inbound := items .inbound }

namespace MemStream

variable {α : Type} {l : MemStream α} {s : StreamMqtt} {memory : Memory FrameQueue α MqttFrameItem} {fields : StreamMqtt}
  {items : FrameQueue → List MqttFrameItem}

/-- The queues in memory own the items of the lists, and nothing else is allocated. -/
def Models (l : MemStream α) (s : StreamMqtt) : Prop :=
  ∃ items, Owns l.memory items ∧ s = l.fields.withQueues items

/-- No queue is longer than the loops are allowed to be. -/
def Roomy (n : Nat) (s : StreamMqtt) : Prop :=
  s.incoming.length ≤ n ∧ s.outgoing.length ≤ n ∧ s.inbound.length ≤ n

/-- What a function does in memory it does in the model. -/
def Does {β : Type} (result : Option (β × MemStream α)) (expected : β × StreamMqtt) : Prop :=
  ∃ l', result = some (expected.1, l') ∧ l'.Models expected.2

def DoesStep (result : Option (MemStream α)) (expected : StreamMqtt) : Prop := ∃ l', result = some l' ∧ l'.Models expected

section Queues

theorem withQueues_incoming (ds : List MqttFrameItem) :
    fields.withQueues (Function.update items .incoming ds) = { fields.withQueues items with incoming := ds } := by
  simp [StreamMqtt.withQueues, Function.update]

theorem withQueues_outgoing (ds : List MqttFrameItem) :
    fields.withQueues (Function.update items .outgoing ds) = { fields.withQueues items with outgoing := ds } := by
  simp [StreamMqtt.withQueues, Function.update]

theorem withQueues_inbound (ds : List MqttFrameItem) :
    fields.withQueues (Function.update items .inbound ds) = { fields.withQueues items with inbound := ds } := by
  simp [StreamMqtt.withQueues, Function.update]

theorem DoesStep.ret {result : Option (MemStream α)} (h : DoesStep result s) (ret : Int) :
    Does (result.bind fun l => some (ret, l)) (ret, s) := by
  obtain ⟨l', rfl, hl'⟩ := h
  exact ⟨l', rfl, hl'⟩

theorem Does.step {β : Type} {result : Option (β × MemStream α)} {expected : β × StreamMqtt} (h : Does result expected) :
    DoesStep (result.map (·.2)) expected.2 := by
  obtain ⟨l', rfl, hl'⟩ := h
  exact ⟨l', rfl, hl'⟩

variable [DecidableEq α] (A : Allocator α MqttFrameItem) {n : Nat} (env : Env)

theorem appendFrame_incoming (hm : Owns memory items) (item : MqttFrameItem) :
    DoesStep (appendFrame A ⟨memory, fields⟩ .incoming item)
      { fields.withQueues items with incoming := streamMqttAppendFrame (items .incoming) item } := by
  obtain ⟨memory', he, hm'⟩ := hm.insertNewTail A .incoming item
  refine ⟨⟨memory', fields⟩, ?_, _, hm', (withQueues_incoming _).symm⟩
  simp [appendFrame, he]

theorem appendFrame_outgoing (hm : Owns memory items) (item : MqttFrameItem) :
    DoesStep (appendFrame A ⟨memory, fields⟩ .outgoing item)
      { fields.withQueues items with outgoing := streamMqttAppendFrame (items .outgoing) item } := by
  obtain ⟨memory', he, hm'⟩ := hm.insertNewTail A .outgoing item
  refine ⟨⟨memory', fields⟩, ?_, _, hm', (withQueues_outgoing _).symm⟩
  simp [appendFrame, he]

theorem publish_does (h : l.Models s) (retain dup : Bool) (qos : UInt8) (id : UInt16) (topic : CString) (payload : Bytes) :
    Does (l.publish A env retain dup qos id topic payload) (streamMqttPublish env s retain dup qos id topic payload) := by
  obtain ⟨memory, fields⟩ := l
  obtain ⟨items, hm, rfl⟩ := h
  have hm : Owns memory items := hm
  unfold publish streamMqttPublish
  rw [show (fields.withQueues items).outgoing = items .outgoing from rfl]
  simp only [hm.empty, Option.bind_eq_bind, Option.bind_some]
  cases hempty : (items .outgoing).isEmpty with
  | true =>
    by_cases hqos : qos > mqttQos0
    · simp only [hqos, if_true, decide_true, Bool.or_true]
      exact (appendFrame_outgoing A hm _).ret _
    · simp only [hqos, if_true, if_false, decide_false, Bool.not_true, Bool.or_false]
      exact ⟨_, rfl, items, hm, rfl⟩
  | false =>
    simp only [if_true, Bool.not_false, Bool.true_or]
    exact (appendFrame_outgoing A hm _).ret _

theorem pubrel_does (h : l.Models s) (id : UInt16) : Does (l.pubrel A env id) (streamMqttPubrel env s id) := by
  obtain ⟨memory, fields⟩ := l
  obtain ⟨items, hm, rfl⟩ := h
  have hm : Owns memory items := hm
  obtain ⟨memory', he, hm'⟩ := hm.insertNewHead A .outgoing
    (mqttFrameItemNew .pubrel (mqttQosToFlags mqttQos1) id (pubrelBuffer id) fields.nextTag)
  unfold pubrel insertFrame
  simp only [he, Option.bind_eq_bind, Option.bind_some]
  refine ⟨_, rfl, _, hm', ?_⟩
  rw [withQueues_outgoing]
  rfl

theorem sendOrQueue_does (h : l.Models s) (type : MqttPacketType) (id : UInt16) (buffer : Bytes) :
    Does (l.sendOrQueue A env type id buffer) (streamMqttSendOrQueue env s type id buffer) := by
  obtain ⟨memory, fields⟩ := l
  obtain ⟨items, hm, rfl⟩ := h
  have hm : Owns memory items := hm
  unfold sendOrQueue streamMqttSendOrQueue
  rw [show (fields.withQueues items).outgoing = items .outgoing from rfl]
  simp only [hm.empty, Option.bind_eq_bind, Option.bind_some]
  cases (items .outgoing).isEmpty with
  | true => exact (appendFrame_outgoing A hm _).ret _
  | false => exact (appendFrame_outgoing A hm _).ret _

theorem resendTime_does (h : l.Models s) : DoesStep (l.resendTime env) (streamMqttResendTime env s) := by
  obtain ⟨memory, fields⟩ := l
  obtain ⟨items, hm, rfl⟩ := h
  have hm : Owns memory items := hm
  unfold resendTime streamMqttResendTime
  rw [show (fields.withQueues items).resendTimer = fields.resendTimer from rfl,
    show (fields.withQueues items).outgoing = items .outgoing from rfl,
    show (fields.withQueues items).resendAttempts = fields.resendAttempts from rfl]
  by_cases hexpired : timerExpired env.clock fields.resendTimer = true
  · rw [if_pos hexpired, if_pos hexpired]
    cases houtgoing : items .outgoing with
    | nil =>
      simp only [hm.first_nil houtgoing, Option.bind_eq_bind, Option.bind_some]
      exact ⟨_, rfl, items, hm, rfl⟩
    | cons item outgoing =>
      obtain ⟨x, hfirst, hx, memory', he, hm'⟩ := hm.first houtgoing
      simp only [hfirst, Option.bind_eq_bind, Option.bind_some]
      rw [hx, Option.bind_some]
      by_cases hattempts : fields.resendAttempts + 1 < mqttResendAttempts
      · rw [if_pos hattempts]
        refine ⟨_, rfl, items, hm, ?_⟩
        simp only [if_pos hattempts, ← houtgoing]
        rfl
      · rw [if_neg hattempts, he]
        refine ⟨_, rfl, _, hm', ?_⟩
        simp only [if_neg hattempts, withQueues_outgoing]
        rfl
  · rw [if_neg hexpired, if_neg hexpired]
    exact ⟨_, rfl, items, hm, rfl⟩

theorem sendTime_does (h : l.Models s) : DoesStep (l.sendTime env) (streamMqttSendTime env s) := by
  obtain ⟨memory, fields⟩ := l
  obtain ⟨items, hm, rfl⟩ := h
  have hm : Owns memory items := hm
  unfold sendTime streamMqttSendTime
  rw [show (fields.withQueues items).resendTimer = fields.resendTimer from rfl,
    show (fields.withQueues items).outgoing = items .outgoing from rfl]
  cases timerRunning fields.resendTimer with
  | true => exact ⟨_, rfl, items, hm, rfl⟩
  | false =>
    cases houtgoing : items .outgoing with
    | nil =>
      simp only [hm.first_nil houtgoing, Option.bind_eq_bind, Option.bind_some]
      exact ⟨_, rfl, items, hm, rfl⟩
    | cons item outgoing =>
      obtain ⟨x, hfirst, hx, -⟩ := hm.first houtgoing
      simp only [hfirst, Option.bind_eq_bind, Option.bind_some]
      rw [hx]
      exact ⟨_, rfl, items, hm, rfl⟩

theorem keepAliveTime_withQueues : streamMqttKeepAliveTime env (fields.withQueues items) =
    (streamMqttKeepAliveTime env fields).withQueues items := by
  unfold streamMqttKeepAliveTime
  rw [show (fields.withQueues items).keepAliveTimer = fields.keepAliveTimer from rfl,
    show (fields.withQueues items).clientRole = fields.clientRole from rfl,
    show (fields.withQueues items).keepAliveResponded = fields.keepAliveResponded from rfl]
  split
  · split
    · split
      · rfl
      · rfl
    · rfl
  · rfl

theorem doTime_does (h : l.Models s) : Does (l.doTime env) (streamMqttDoTime env s) := by
  obtain ⟨memory, fields⟩ := l
  obtain ⟨items, hm, rfl⟩ := h
  have hm : Owns memory items := hm
  have hkeepAlive : Models ⟨memory, streamMqttKeepAliveTime env fields⟩
      (streamMqttKeepAliveTime env (fields.withQueues items)) := ⟨items, hm, keepAliveTime_withQueues env⟩
  obtain ⟨l₁, he₁, h₁⟩ := resendTime_does env hkeepAlive
  obtain ⟨l₂, he₂, h₂⟩ := sendTime_does env h₁
  refine ⟨l₂, ?_, h₂⟩
  unfold doTime
  simp only [he₁, he₂, Option.bind_eq_bind, Option.bind_some]
  rfl

theorem readFrame_does (h : l.Models s) (length : Nat) : Does (l.readFrame length) (streamMqttReadFrame s length) := by
  obtain ⟨memory, fields⟩ := l
  obtain ⟨items, hm, rfl⟩ := h
  have hm : Owns memory items := hm
  unfold readFrame streamMqttReadFrame
  rw [show (fields.withQueues items).incoming = items .incoming from rfl]
  cases hincoming : items .incoming with
  | nil =>
    simp only [hm.empty, hincoming, Option.bind_eq_bind, Option.bind_some]
    exact ⟨_, rfl, items, hm, rfl⟩
  | cons item incoming =>
    obtain ⟨x, hfirst, hx, memory', he, hm'⟩ := hm.first hincoming
    simp only [hm.empty, hincoming, hfirst, hx, List.isEmpty_cons, Option.bind_eq_bind, Option.bind_some,
      Bool.false_eq_true, if_false]
    by_cases hlength : item.buffer.length > length
    · simp only [if_pos hlength]
      exact ⟨_, rfl, items, hm, rfl⟩
    · simp only [if_neg hlength, he]
      refine ⟨_, rfl, _, hm', ?_⟩
      rw [withQueues_incoming]

theorem notify_withQueues (note : Note) : streamMqttNotifyObserver (fields.withQueues items) note =
    ((streamMqttNotifyObserver fields note).1, (streamMqttNotifyObserver fields note).2.withQueues items) := by
  unfold streamMqttNotifyObserver
  rw [show (fields.withQueues items).mqttObserver = fields.mqttObserver from rfl]
  cases fields.mqttObserver <;> rfl

theorem deliver_does (hm : Owns memory items) (handled : Bool) (item : MqttFrameItem) :
    DoesStep (deliver A (handled, fields) memory item) (streamMqttDeliver (handled, fields.withQueues items) item) := by
  cases handled with
  | true => exact ⟨_, rfl, items, hm, rfl⟩
  | false => exact appendFrame_incoming A hm item

theorem forward_does (h : l.Models s) (type : MqttPacketType) (flags : UInt8) (msg : Msg) (body : Bytes) :
    DoesStep (l.forward A type flags msg body) (streamMqttForward s type flags msg body) := by
  obtain ⟨memory, fields⟩ := l
  obtain ⟨items, hm, rfl⟩ := h
  unfold forward streamMqttForward
  rw [notify_withQueues]
  exact deliver_does A hm _ _

section Handlers

variable (frame : MqttFixedHeader) (body : Mem)

theorem handleConnect_does (h : l.Models s) :
    DoesStep (l.handleConnect A env frame body) (streamMqttHandleConnect env s frame body) := by
  obtain ⟨memory, fields⟩ := l
  obtain ⟨items, hm, rfl⟩ := h
  unfold handleConnect streamMqttHandleConnect
  by_cases hkeepAlive : ((mqttParseConnect env.connect frame.bodyLength).value body).2.keepAlive > 0
  · simp only [if_pos hkeepAlive]
    apply forward_does
    exact ⟨items, hm, rfl⟩
  · simp only [if_neg hkeepAlive]
    apply forward_does
    exact ⟨items, hm, rfl⟩

theorem handleConnack_does (h : l.Models s) :
    DoesStep (l.handleConnack A env frame body) (streamMqttHandleConnack env s frame body) := by
  obtain ⟨memory, fields⟩ := l
  obtain ⟨items, hm, rfl⟩ := h
  unfold handleConnack streamMqttHandleConnack
  rw [show (fields.withQueues items).keepAlive = fields.keepAlive from rfl]
  by_cases hready : ((mqttParseConnack {} frame.bodyLength).value body).2.returnCode = mqttConnackAccepted ∧
      fields.keepAlive > 0
  · simp only [if_pos hready]
    apply forward_does
    exact ⟨items, hm, rfl⟩
  · simp only [if_neg hready]
    apply forward_does
    exact ⟨items, hm, rfl⟩

theorem removeFrame_does (hm : Owns memory items) (fields : StreamMqtt) (queue : FrameQueue)
    (hn : (items queue).length ≤ n) (type : MqttPacketType) (id : UInt16) : ∃ memory', removeFrame n ⟨memory, fields⟩ queue type id =
        some ((streamMqttRemoveFrame (items queue) type id).1, ⟨memory', fields⟩) ∧
      Owns memory' (Function.update items queue (streamMqttRemoveFrame (items queue) type id).2) := by
  obtain ⟨memory', he, hm'⟩ := hm.removeAll queue (MqttFrameItem.matches type id) hn
  refine ⟨memory', ?_, hm'⟩
  unfold removeFrame
  simp only [he, Option.bind_eq_bind, Option.bind_some]
  rfl

theorem handlePublish_does (h : l.Models s) (hn : Roomy n s) :
    DoesStep (l.handlePublish A n env frame body) (streamMqttHandlePublish env s frame body) := by
  obtain ⟨memory, fields⟩ := l
  obtain ⟨items, hm, rfl⟩ := h
  have hm : Owns memory items := hm
  unfold handlePublish streamMqttHandlePublish
  by_cases hqos2 : mqttQosFromFlags frame.flags = mqttQos2
  · simp only [if_pos hqos2]
    obtain ⟨memory₁, he₁, hm₁⟩ := removeFrame_does hm fields .inbound (show (items .inbound).length ≤ n from hn.2.2) .publish
      ((mqttParsePublish env.publish frame.bodyLength (mqttQosFromFlags frame.flags)).value body).2.id
    obtain ⟨memory₂, he₂, hm₂⟩ := hm₁.insertNewTail A .inbound (mqttFrameItemNew .publish frame.flags
      ((mqttParsePublish env.publish frame.bodyLength (mqttQosFromFlags frame.flags)).value body).2.id (frameBody frame body))
    rw [Function.update_self, Function.update_idem] at hm₂
    simp only [he₁, appendFrame, he₂, Option.bind_eq_bind, Option.bind_some]
    refine ⟨_, rfl, _, hm₂, ?_⟩
    rw [withQueues_inbound]
    rfl
  · simp only [if_neg hqos2]
    by_cases hqos1 : mqttQosFromFlags frame.flags = mqttQos1
    · simp only [if_pos hqos1]
      apply forward_does
      exact ⟨items, hm, rfl⟩
    · simp only [if_neg hqos1]
      apply forward_does
      exact ⟨items, hm, rfl⟩

theorem acknowledge_does (h : l.Models s) (hn : Roomy n s) (type : MqttPacketType) (id : UInt16) :
    DoesStep (l.acknowledge n type id) (streamMqttAcknowledge s type id) := by
  obtain ⟨memory, fields⟩ := l
  obtain ⟨items, hm, rfl⟩ := h
  have hm : Owns memory items := hm
  obtain ⟨memory', he, hm'⟩ := removeFrame_does hm fields .outgoing (show (items .outgoing).length ≤ n from hn.2.1)
    (mqttRequestType type) id
  unfold acknowledge streamMqttAcknowledge
  rw [show (fields.withQueues items).outgoing = items .outgoing from rfl]
  simp only [he, Option.bind_eq_bind, Option.bind_some]
  refine ⟨_, rfl, _, hm', ?_⟩
  rw [withQueues_outgoing]
  cases (streamMqttRemoveFrame (items .outgoing) (mqttRequestType type) id).1 <;> rfl

theorem handleAck_does (h : l.Models s) (hn : Roomy n s) (type : MqttPacketType) :
    DoesStep (l.handleAck A n env frame body type) (streamMqttHandleAck env s frame body type) := by
  unfold handleAck streamMqttHandleAck
  obtain ⟨l₁, he₁, h₁⟩ := acknowledge_does h hn type ((mqttParseVarHeaderId ⟨0⟩ frame.bodyLength).value body).2.id
  simp only [he₁, Option.bind_eq_bind, Option.bind_some]
  cases type with
  | pubrec =>
    obtain ⟨l₂, he₂, items, hm₂, heq⟩ := pubrel_does A env h₁ ((mqttParseVarHeaderId ⟨0⟩ frame.bodyLength).value body).2.id
    simp only [he₂, Option.bind_some]
    refine ⟨_, rfl, items, hm₂, ?_⟩
    rw [heq]
    rfl
  | suback => exact forward_does A h₁ ..
  | unsuback => exact forward_does A h₁ ..
  | _ => exact ⟨l₁, rfl, h₁⟩

theorem offer_withQueues (item : MqttFrameItem) : offer env (fields.withQueues items) item =
    ((offer env fields item).1, (offer env fields item).2.withQueues items) := by
  unfold offer
  by_cases htype : item.type = .publish
  · simp only [if_pos htype]
    exact notify_withQueues _
  · simp only [if_neg htype]

theorem release_eq (item : MqttFrameItem) : streamMqttRelease env s item = streamMqttDeliver (offer env s item) item := rfl

/-- The loop over `inbound` does what the one over the lists does: in each round it has the items passed so far
and those to come. -/
theorem releaseLoop_does (hm : Owns memory items) (fields : StreamMqtt) (hn : (items .inbound).length ≤ n) (id : UInt16) :
    ∃ first fields' memory' items', tailqFirst memory .inbound = some first ∧
      forEachSafe (releaseItem env id) n first fields memory = some (fields', memory') ∧ Owns memory' items' ∧
      streamMqttReleaseLoop env id [] (items .inbound) (fields.withQueues items) = fields'.withQueues items' := by
  obtain ⟨q, hs⟩ := hm
  let I : List α → StreamMqtt → Memory FrameQueue α MqttFrameItem → Prop := fun xs fields' memory' =>
    ∃ q' items' as kept rest, Stored memory' q' items' ∧ q' .inbound = as ++ xs ∧ items' .inbound = kept ++ rest ∧
      as.map memory'.data = kept.map some ∧ xs.map memory'.data = rest.map some ∧
      streamMqttReleaseLoop env id kept rest (fields'.withQueues items') =
        streamMqttReleaseLoop env id [] (items .inbound) (fields.withQueues items)
  -- the loop keeps I: what it has gone over is kept, and the two loops go on alike from here
  have hstart : I (q .inbound) fields memory :=
    ⟨q, items, [], [], items .inbound, hs, rfl, rfl, rfl, hs.contents .inbound, rfl⟩
  have hstep : ∀ x xs fields' memory', I (x :: xs) fields' memory' → memory'.getLink (.entry x) = some xs.head? ∧
      ∃ fields'' memory'', releaseItem env id fields' memory' x = some (fields'', memory'') ∧ I xs fields'' memory'' := by
    rintro x xs fields' memory' ⟨q', items', as, kept, rest, hs', hq', hitems', has, hxs, hloop⟩
    refine ⟨tailqNext_eq hs'.tailed.toShape hq', ?_⟩
    cases rest with
    | nil => cases hxs
    | cons item rest =>
      rw [List.map_cons, List.map_cons, List.cons.injEq] at hxs
      obtain ⟨hitem, hxs⟩ := hxs
      have hnodup := (hs'.tailed.listed .inbound).nodup
      rw [hq', List.nodup_middle, List.nodup_cons] at hnodup
      unfold releaseItem
      simp only [hitem, Option.bind_eq_bind, Option.bind_some]
      rw [streamMqttReleaseLoop] at hloop
      by_cases hid : item.id = id
      · rw [if_pos hid, ← withQueues_inbound, release_eq, offer_withQueues] at hloop
        rw [if_pos hid]
        obtain ⟨m₁, m', he₁, he', hdata', hmoved⟩ :=
          hs'.move (show FrameQueue.incoming ≠ .inbound by decide) hq' has hitem hxs
        obtain ⟨m'', he'', hdata'', hremoved⟩ := hs'.remove hq' has hxs
        have hfree : m₁.free x = some m'' := by
          unfold removeDelete at he''
          rw [he₁] at he''
          exact he''
        have haway : ∀ y ∈ as ++ xs, m''.data y = memory'.data y := by
          intro y hy
          rw [hdata'']
          refine Function.update_of_ne ?_ ..
          rintro rfl
          exact hnodup.1 hy
        rcases hoffer : offer env fields' item with ⟨handled, fields''⟩
        rw [hoffer] at hloop
        simp only [he₁, Option.bind_some]
        cases handled with
        -- the observer has taken the item, which is freed
        | true =>
          refine ⟨fields''.log (.deliver item true), m'', by simp [hfree], _, _, as, kept, rest, hremoved, by simp, by simp,
            ?_, ?_, hloop⟩
          · rw [List.map_congr_left fun y hy => haway y (List.mem_append_left _ hy), has]
          · rw [List.map_congr_left fun y hy => haway y (List.mem_append_right _ hy), hxs]
        -- it has not, so the item moves over to `incoming`
        | false =>
          refine ⟨fields''.log (.deliver item false), m', by simp [he'], _, _, as, kept, rest, hmoved, by simp, by simp,
            by rw [hdata', has], by rw [hdata', hxs], ?_⟩
          rw [withQueues_incoming]
          exact hloop
      · rw [if_neg hid] at hloop ⊢
        refine ⟨fields', memory', rfl, q', items', as ++ [x], kept ++ [item], rest, hs', ?_, ?_, ?_, hxs, hloop⟩
        · simp [hq']
        · simp [hitems']
        · simp [has, hitem]
  obtain ⟨fields', memory', hloop, q', items', as, kept, rest, hs', hq', hitems', has, hxs, heq⟩ :=
    forEachSafe_rule hstep hstart (show (q .inbound).length ≤ n by rwa [hs.length_eq])
  cases rest with
  | cons d ds => cases hxs
  | nil => exact ⟨_, fields', memory', items', tailqFirst_eq hs.tailed.toShape _, hloop, ⟨q', hs'⟩, heq.symm⟩

theorem handlePubrel_does (h : l.Models s) (hn : Roomy n s) :
    DoesStep (l.handlePubrel n env frame body) (streamMqttHandlePubrel env s frame body) := by
  obtain ⟨memory, fields⟩ := l
  obtain ⟨items, hm, rfl⟩ := h
  have hm : Owns memory items := hm
  obtain ⟨first, fields', memory', items', hfirst, hloop, hm', heq⟩ :=
    releaseLoop_does env hm
      (streamMqttPubcomp env fields ((mqttParseVarHeaderId ⟨0⟩ frame.bodyLength).value body).2.id).2
      (show (items .inbound).length ≤ n from hn.2.2) ((mqttParseVarHeaderId ⟨0⟩ frame.bodyLength).value body).2.id
  unfold handlePubrel
  simp only [hfirst, hloop, Option.bind_eq_bind, Option.bind_some]
  exact ⟨⟨memory', fields'⟩, rfl, items', hm', heq⟩

theorem handleDisconnect_does (h : l.Models s) :
    DoesStep (l.handleDisconnect A frame) (streamMqttHandleDisconnect s frame) := by
  obtain ⟨memory, fields⟩ := l
  obtain ⟨items, hm, rfl⟩ := h
  unfold handleDisconnect streamMqttHandleDisconnect
  rw [notify_withQueues]
  exact deliver_does A hm _ _

theorem handleReceivedFrame_does (h : l.Models s) (hn : Roomy n s) :
    DoesStep (l.handleReceivedFrame A n env frame body) (streamMqttHandleReceivedFrame env s frame body) := by
  have h' : Models { l with fields := l.fields.log (.receive (recorded frame body)) }
      (s.log (.receive (recorded frame body))) := by
    obtain ⟨items, hm, rfl⟩ := h
    exact ⟨items, hm, rfl⟩
  have hn' : Roomy n (s.log (.receive (recorded frame body))) := hn
  unfold handleReceivedFrame streamMqttHandleReceivedFrame
  cases MqttPacketType.ofByte frame.type with
  | none => exact ⟨_, rfl, h'⟩
  | some type =>
    cases type with
    | connect => exact handleConnect_does A env frame body h'
    | connack => exact handleConnack_does A env frame body h'
    | subscribe => exact forward_does A h' ..
    | unsubscribe => exact forward_does A h' ..
    | publish => exact handlePublish_does A env frame body h' hn'
    | suback => exact handleAck_does A env frame body h' hn' .suback
    | unsuback => exact handleAck_does A env frame body h' hn' .unsuback
    | puback => exact handleAck_does A env frame body h' hn' .puback
    | pubrec => exact handleAck_does A env frame body h' hn' .pubrec
    | pubcomp => exact handleAck_does A env frame body h' hn' .pubcomp
    | pubrel => exact handlePubrel_does env frame body h' hn'
    | pingreq =>
      obtain ⟨items, hm, heq⟩ := h'
      refine ⟨_, rfl, items, hm, ?_⟩
      rw [heq]
      rfl
    | pingresp =>
      obtain ⟨items, hm, heq⟩ := h'
      refine ⟨_, rfl, items, hm, ?_⟩
      rw [heq]
      rfl
    | disconnect => exact handleDisconnect_does A frame h'
    | forbidden => exact ⟨_, rfl, h'⟩

end Handlers

/-! ## Runs -/

/-- Each call does in memory what it does in the model. -/
theorem step_does (h : l.Models s) (hn : Roomy n s) (call : Call) : DoesStep (l.step A n env call) (Mqtt.step s env call) := by
  -- a call that touches no queue does the same to the other fields
  have hother : ∀ call : Call, (∀ (fields : StreamMqtt) items,
      Mqtt.step (fields.withQueues items) env call = (Mqtt.step fields env call).withQueues items) →
        DoesStep (some { l with fields := Mqtt.step l.fields env call }) (Mqtt.step s env call) := by
    intro call hcall
    obtain ⟨items, hm, rfl⟩ := h
    exact ⟨_, rfl, items, hm, hcall _ _⟩
  cases call with
  | publish retain dup qos id topic payload => exact (publish_does A env h retain dup qos id topic payload).step
  | subscribe id topic qos => exact (sendOrQueue_does A env h ..).step
  | unsubscribe id topic => exact (sendOrQueue_does A env h ..).step
  | pubrel id => exact (pubrel_does A env h id).step
  | time => exact (doTime_does env h).step
  | readFrame length => exact (readFrame_does h length).step
  | receive frame body => exact handleReceivedFrame_does A env frame body h hn
  | suback id returnCode => exact hother _ fun _ _ => rfl
  | connect args =>
    apply hother
    intro fields items
    rcases hbody : mqttFormatConnect args with _ | body
    · simp only [Mqtt.step, streamMqttConnect, hbody]
      rfl
    · simp only [Mqtt.step, streamMqttConnect, hbody]
      rfl
  | connack sessionPresent returnCode =>
    apply hother
    intro fields items
    by_cases haccepted : returnCode = mqttConnackAccepted
    · simp only [Mqtt.step, streamMqttConnack, if_pos haccepted]
      rfl
    · simp only [Mqtt.step, streamMqttConnack, if_neg haccepted]
      rfl
  | disconnect => exact hother _ fun _ _ => rfl
  | writeFrame type flags body => exact hother _ fun _ _ => rfl
  | writeFramePacketId type id => exact hother _ fun _ _ => rfl
  | setStatus status => exact hother _ fun _ _ => rfl
  | setObserver handler =>
    apply hother
    intro fields items
    simp only [Mqtt.step, streamMqttSetObserver, show (fields.withQueues items).mqttObserver = fields.mqttObserver from rfl]
    cases fields.mqttObserver <;> rfl
  | removeObserver => exact hother _ fun _ _ => rfl
  | rebuffer buffer => exact hother _ fun _ _ => rfl

/-- A run does in memory what it does in the model. -/
theorem run_does : ∀ {calls : List (Env × Call)} {l : MemStream α} {s : StreamMqtt}, l.Models s →
    RunAll (fun s _ _ => Roomy n s) s calls → DoesStep (run A n l calls) (Mqtt.run s calls)
  | [], l, s, h, _ => ⟨l, rfl, h⟩
  | (env, call) :: calls, l, s, h, hn => by
    obtain ⟨l₁, he₁, h₁⟩ := step_does A env h hn.1 call
    obtain ⟨l₂, he₂, h₂⟩ := run_does h₁ hn.2
    refine ⟨l₂, ?_, h₂⟩
    unfold run at he₂ ⊢
    rw [List.foldlM_cons, he₁]
    exact he₂

/-- Rounds enough for every loop of a run. -/
theorem exists_roomy : ∀ (calls : List (Env × Call)) (s : StreamMqtt),
    ∃ N, ∀ n, N ≤ n → RunAll (fun s _ _ => Roomy n s) s calls ∧ Roomy n (Mqtt.run s calls)
  | [], s => by
    refine ⟨s.incoming.length + s.outgoing.length + s.inbound.length, fun n hn => ⟨trivial, ?_⟩⟩
    simp only [run_nil, Roomy]
    omega
  | (env, call) :: calls, s => by
    obtain ⟨N, hN⟩ := exists_roomy calls (Mqtt.step s env call)
    refine ⟨N + (s.incoming.length + s.outgoing.length + s.inbound.length), fun n hn => ?_⟩
    obtain ⟨hrun, hlast⟩ := hN n (by omega)
    refine ⟨⟨?_, hrun⟩, hlast⟩
    simp only [Roomy]
    omega

theorem cleanQueue_does (hm : Owns memory items) (fields : StreamMqtt) (queue : FrameQueue) (hn : (items queue).length ≤ n) :
    ∃ memory', cleanQueue n ⟨memory, fields⟩ queue = some ⟨memory', fields⟩ ∧
      Owns memory' (Function.update items queue []) := by
  obtain ⟨memory', he, hm'⟩ := hm.removeAll queue (fun _ => true) hn
  refine ⟨memory', ?_, by simpa using hm'⟩
  unfold cleanQueue
  simp only [he, Option.bind_eq_bind, Option.bind_some]
  rfl

/-- Cleaning the stream frees every item. -/
theorem clean_frees (h : l.Models s) (hn : Roomy n s) : ∃ l', l.clean n = some l' ∧ ∀ x, l'.memory.data x = none := by
  obtain ⟨memory, fields⟩ := l
  obtain ⟨items, hm, rfl⟩ := h
  obtain ⟨hn₁, hn₂, hn₃⟩ : (items .incoming).length ≤ n ∧ (items .outgoing).length ≤ n ∧ (items .inbound).length ≤ n := hn
  obtain ⟨memory₁, he₁, hm₁⟩ := cleanQueue_does hm fields .incoming hn₁
  obtain ⟨memory₂, he₂, hm₂⟩ := cleanQueue_does hm₁ fields .outgoing (by simpa [Function.update] using hn₂)
  obtain ⟨memory₃, he₃, q, hs⟩ := cleanQueue_does hm₂ fields .inbound (by simpa [Function.update] using hn₃)
  refine ⟨⟨memory₃, streamMqttRemoveObserver fields⟩, ?_, fun x => ?_⟩
  · unfold clean
    simp only [he₁, he₂, he₃, Option.bind_eq_bind, Option.bind_some]
    rfl
  · by_contra hx
    obtain ⟨queue, hqueue⟩ := hs.owned x (Option.isSome_iff_ne_none.2 hx)
    have hempty : Function.update (Function.update (Function.update items .incoming []) .outgoing []) .inbound [] queue = [] := by
      cases queue <;> simp [Function.update]
    have hcontents := hs.contents queue
    rw [hempty, List.map_nil, List.map_eq_nil_iff] at hcontents
    rw [hcontents] at hqueue
    cases hqueue

/-- The stream with its queues in memory, whatever `malloc` returns: every run of calls after `stream_mqtt_init`
goes through, with no access to an item that is not there, and does what the model says; and
`stream_mqtt_clean` leaves no item allocated. -/
theorem memory_run (A : Allocator α MqttFrameItem) (link : Slot FrameQueue α → Option α)
    (back : Slot FrameQueue α → Slot FrameQueue α) (calls : List (Env × Call)) :
    ∃ N, ∀ n, N ≤ n → ∃ l, (do run A n (← init ⟨link, back, fun _ => none⟩) calls) = some l ∧
      l.Models (Mqtt.run streamMqttInit calls) ∧
      (∀ length, (l.readFrame length).map (·.1) = some (streamMqttReadFrame (Mqtt.run streamMqttInit calls) length).1) ∧
      ∃ l', l.clean n = some l' ∧ ∀ x, l'.memory.data x = none := by
  have hall : ∀ queue : FrameQueue, queue ∈ [FrameQueue.incoming, .outgoing, .inbound] := by
    intro queue
    cases queue <;> decide
  obtain ⟨memory, hinit, hm⟩ := owns_init hall (m := (⟨link, back, fun _ => none⟩ : Memory FrameQueue α MqttFrameItem))
    fun _ => rfl
  have hmodels : Models ⟨memory, streamMqttInit⟩ streamMqttInit := ⟨_, hm, rfl⟩
  obtain ⟨N, hN⟩ := exists_roomy calls streamMqttInit
  refine ⟨N, fun n hn => ?_⟩
  obtain ⟨hrun, hlast⟩ := hN n hn
  obtain ⟨l, he, hl⟩ := run_does A hmodels hrun
  refine ⟨l, ?_, hl, fun length => ?_, clean_frees hl hlast⟩
  · have hinit' : init ⟨link, back, fun _ => none⟩ = some ⟨memory, streamMqttInit⟩ := by
      simp only [List.foldlM_cons, List.foldlM_nil] at hinit
      obtain ⟨memory₁, he₁, hinit⟩ := Option.bind_eq_some_iff.1 hinit
      obtain ⟨memory₂, he₂, hinit⟩ := Option.bind_eq_some_iff.1 hinit
      obtain ⟨memory₃, he₃, hinit⟩ := Option.bind_eq_some_iff.1 hinit
      cases hinit
      unfold init
      simp only [he₁, he₂, he₃, Option.bind_eq_bind, Option.bind_some]
      rfl
    rw [hinit']
    exact he
  · obtain ⟨l', he', -⟩ := readFrame_does hl length
    rw [he']
    rfl

end Queues

end MemStream

end CMx.Mqtt
