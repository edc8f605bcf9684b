/-
The packet bodies of `mqtt.c`: the field primitives `mqtt_put_*` and `mqtt_get_*`, and a parser,
a size function and a formatter for each body. A parser runs on the memory behind the body
pointer, which does not end where the body does, and logs what it reads and what it reports; a
formatter returns the bytes it writes.
-/
import CMx.Mqtt.Packet

namespace CMx.Mqtt

/-! ## Memory, pointers and strings -/

/-- The memory from a pointer on. -/
abbrev Mem := Nat → UInt8

/-- `len` bytes of memory from `offset` on. -/
def Mem.bytes (m : Mem) (offset len : Nat) : Bytes := (List.range len).map fun i => m (offset + i)

/-- Memory that starts with `data`; what lies behind is in `stale`. -/
def memOf (data : Bytes) (stale : Mem) : Mem := fun i => data.getD i (stale i)

/-- A pointer of a parsed message: `NULL`, into the body, or what the variable held before. -/
inductive Ptr where
  | null
  | body (offset : Nat)
  | other (address : Nat)
  deriving DecidableEq, Repr

/-- A C string: its bytes up to the terminating NUL. -/
structure CString where
  bytes : Bytes
  noNul : 0 ∉ bytes
  deriving DecidableEq

def strlen (s : CString) : Nat := s.bytes.length

/-- What a parser does with the body: reading a byte of it, or reporting a range of it. -/
inductive Access where
  | read (offset : Nat)
  | report (offset len : Nat)
  deriving DecidableEq, Repr

/-- A computation that reads memory, with a log of its accesses. -/
def Rd (α : Type) : Type := Mem → α × List Access

instance : Monad Rd where
  pure a := fun _ => (a, [])
  bind x f := fun m =>
    let (a, log) := x m
    let (b, log') := f a m
    (b, log ++ log')

namespace Rd

def value {α : Type} (x : Rd α) (m : Mem) : α := (x m).1
def accesses {α : Type} (x : Rd α) (m : Mem) : List Access := (x m).2

variable {α β : Type}

@[simp] theorem value_pure (a : α) (m : Mem) : (pure a : Rd α).value m = a := rfl
@[simp] theorem accesses_pure (a : α) (m : Mem) : (pure a : Rd α).accesses m = [] := rfl
@[simp] theorem value_bind (x : Rd α) (f : α → Rd β) (m : Mem) :
    (x >>= f).value m = (f (x.value m)).value m := rfl
@[simp] theorem accesses_bind (x : Rd α) (f : α → Rd β) (m : Mem) :
    (x >>= f).accesses m = x.accesses m ++ (f (x.value m)).accesses m := rfl
@[simp] theorem value_ite (p : Prop) [Decidable p] (x y : Rd α) (m : Mem) :
    (if p then x else y).value m = if p then x.value m else y.value m := by split <;> rfl
@[simp] theorem accesses_ite (p : Prop) [Decidable p] (x y : Rd α) (m : Mem) :
    (if p then x else y).accesses m = if p then x.accesses m else y.accesses m := by split <;> rfl

end Rd

/-! ## Field primitives -/

def mqttPutByte (value : UInt8) : Bytes := [value]

def mqttPutShort (value : UInt16) : Bytes :=
  [((value >>> 8) &&& 0xFF).toUInt8, (value &&& 0xFF).toUInt8]

def mqttPutData (data : Bytes) (dataLen : UInt16) : Bytes := data.take dataLen.toNat

def mqttPutString (str : CString) : Bytes :=
  let strLen := strlen str
  mqttPutShort (UInt16.ofNat strLen) ++
    if strLen > 0 then mqttPutData str.bytes (UInt16.ofNat strLen) else []

/-- The big-endian short at an offset. -/
def shortAt (m : Mem) (offset : Nat) : UInt16 := ((m offset).toUInt16 <<< 8) ||| (m (offset + 1)).toUInt16

def mqttGetByte (buffer : Nat) : Rd (Nat × UInt8) := fun m => ((1, m buffer), [.read buffer])

def mqttGetShort (buffer : Nat) : Rd (Nat × UInt16) := fun m =>
  ((2, shortAt m buffer), [.read buffer, .read (buffer + 1)])

def mqttGetData (buffer : Nat) (dataLen : UInt16) : Rd (Nat × Ptr) := fun _ =>
  ((dataLen.toNat, .body buffer), [.report buffer dataLen.toNat])

def mqttGetString (buffer : Nat) : Rd (Nat × Ptr × UInt16) := do
  let (offset, strLen) ← mqttGetShort buffer
  let (n, str) ← mqttGetData (buffer + offset) strLen
  return (offset + n, str, strLen)

@[simp] theorem value_mqttGetByte (o : Nat) (m : Mem) : (mqttGetByte o).value m = (1, m o) := rfl
@[simp] theorem accesses_mqttGetByte (o : Nat) (m : Mem) : (mqttGetByte o).accesses m = [.read o] := rfl
@[simp] theorem value_mqttGetShort (o : Nat) (m : Mem) : (mqttGetShort o).value m = (2, shortAt m o) := rfl
@[simp] theorem accesses_mqttGetShort (o : Nat) (m : Mem) :
    (mqttGetShort o).accesses m = [.read o, .read (o + 1)] := rfl
@[simp] theorem value_mqttGetData (o : Nat) (len : UInt16) (m : Mem) :
    (mqttGetData o len).value m = (len.toNat, .body o) := rfl
@[simp] theorem accesses_mqttGetData (o : Nat) (len : UInt16) (m : Mem) :
    (mqttGetData o len).accesses m = [.report o len.toNat] := rfl
@[simp] theorem value_mqttGetString (o : Nat) (m : Mem) :
    (mqttGetString o).value m = (2 + (shortAt m o).toNat, .body (o + 2), shortAt m o) := rfl
@[simp] theorem accesses_mqttGetString (o : Nat) (m : Mem) :
    (mqttGetString o).accesses m = [.read o, .read (o + 1), .report (o + 2) (shortAt m o).toNat] := rfl

/-! ## Packet id bodies -/

structure MqttVarHeaderId where
  id : UInt16
  deriving DecidableEq, Repr

def mqttParseVarHeaderId (_payload : MqttVarHeaderId) (length : Nat) : Rd (Int × MqttVarHeaderId) := do
  let (n, id) ← mqttGetShort 0
  let offset := n
  return (if offset < length then -1 else offset, { id })

def mqttFormatVarHeaderId (id : UInt16) : Bytes := mqttPutShort id

/-! ## CONNECT -/

structure MqttConnect where
  protocolName : Ptr := .null
  protocolNameLen : UInt16 := 0
  protocolLevel : UInt8 := 0
  cleanSession : Bool := false
  keepAlive : UInt16 := 0
  willQos : UInt8 := 0
  willRetain : Bool := false
  willTopic : Ptr := .null
  willTopicLen : UInt16 := 0
  willMsg : Ptr := .null
  willMsgLen : UInt16 := 0
  clientId : Ptr := .null
  clientIdLen : UInt16 := 0
  userName : Ptr := .null
  userNameLen : UInt16 := 0
  password : Ptr := .null
  passwordLen : UInt16 := 0
  deriving DecidableEq, Repr

def mqttConnectCleanSession : UInt8 := 0x02
def mqttConnectWillFlag : UInt8 := 0x04
def mqttConnectWillQosPos : UInt8 := 3
def mqttConnectWillQosMsk : UInt8 := 0x18
def mqttConnectWillRetain : UInt8 := 0x20
def mqttConnectPassword : UInt8 := 0x40
def mqttConnectUserName : UInt8 := 0x80

/-- The will topic and message, if the flags announce them. -/
def mqttParseConnectWill (payload : MqttConnect) (flags : UInt8) (offset : Nat) : Rd (Nat × MqttConnect) := do
  if flags &&& mqttConnectWillFlag ≠ 0 then
    let (n, willTopic, willTopicLen) ← mqttGetString offset
    let offset := offset + n
    let (n, willMsgLen) ← mqttGetShort offset
    let offset := offset + n
    let (n, willMsg) ← mqttGetData offset willMsgLen
    return (offset + n, { payload with willTopic, willTopicLen, willMsgLen, willMsg })
  else return (offset, payload)

def mqttParseConnectUserName (payload : MqttConnect) (flags : UInt8) (offset : Nat) :
    Rd (Nat × MqttConnect) := do
  if flags &&& mqttConnectUserName ≠ 0 then
    let (n, userName, userNameLen) ← mqttGetString offset
    return (offset + n, { payload with userName, userNameLen })
  else return (offset, payload)

def mqttParseConnectPassword (payload : MqttConnect) (flags : UInt8) (offset : Nat) :
    Rd (Nat × MqttConnect) := do
  if flags &&& mqttConnectPassword ≠ 0 then
    let (n, passwordLen) ← mqttGetShort offset
    let offset := offset + n
    let (n, password) ← mqttGetData offset passwordLen
    return (offset + n, { payload with passwordLen, password })
  else return (offset, payload)

def mqttParseConnect (payload : MqttConnect) (length : Nat) : Rd (Int × MqttConnect) := do
  let (n, protocolName, protocolNameLen) ← mqttGetString 0
  let offset := n
  let (n, protocolLevel) ← mqttGetByte offset
  let offset := offset + n
  let (n, flags) ← mqttGetByte offset
  let offset := offset + n
  let cleanSession := flags &&& mqttConnectCleanSession ≠ 0
  let willRetain := flags &&& mqttConnectWillRetain ≠ 0
  let willQos := (flags &&& mqttConnectWillQosMsk) >>> mqttConnectWillQosPos
  let (n, keepAlive) ← mqttGetShort offset
  let offset := offset + n
  let (n, clientId, clientIdLen) ← mqttGetString offset
  let offset := offset + n
  let payload := { payload with protocolName, protocolNameLen, protocolLevel, cleanSession, willRetain,
                                willQos, keepAlive, clientId, clientIdLen }
  let (offset, payload) ← mqttParseConnectWill payload flags offset
  let (offset, payload) ← mqttParseConnectUserName payload flags offset
  let (offset, payload) ← mqttParseConnectPassword payload flags offset
  return (if offset < length then -1 else offset, payload)

/-- The arguments of `mqtt_format_connect`; a pointer may be `NULL`, and a length counts bytes of
the data it comes with. -/
structure MqttConnectArgs where
  cleanSession : Bool
  keepAlive : UInt16
  clientId : Option CString
  willTopic : Option CString
  willMsg : Option Bytes
  willMsgLen : UInt16
  willRetain : Bool
  willQos : UInt8
  userName : Option CString
  password : Option Bytes
  passwordLen : UInt16

def mqttStrLengthSize : Nat := 2
def mqttPacketIdSize : Nat := 2
def mqttConnectVariableHeaderSize : Nat := 10

def mqttEvalConnect (a : MqttConnectArgs) : Nat :=
  mqttConnectVariableHeaderSize
    + (match a.clientId with | some s => mqttStrLengthSize + strlen s | none => 0)
    + (match a.willTopic with | some s => mqttStrLengthSize + strlen s | none => 0)
    + (if a.willMsgLen > 0 then mqttStrLengthSize + a.willMsgLen.toNat else 0)
    + (match a.userName with | some s => mqttStrLengthSize + strlen s | none => 0)
    + (if a.passwordLen > 0 then mqttStrLengthSize + a.passwordLen.toNat else 0)

def mqttProtocolName : CString := ⟨[0x4D, 0x51, 0x54, 0x54], by decide⟩
def mqttProtocolLevel : UInt8 := 4

def mqttConnectFlags (a : MqttConnectArgs) : UInt8 :=
  (if a.cleanSession then mqttConnectCleanSession else 0)
    ||| (if a.willTopic.isSome && a.willMsg.isSome then
          mqttConnectWillFlag ||| ((a.willQos <<< mqttConnectWillQosPos) &&& mqttConnectWillQosMsk)
            ||| (if a.willRetain then mqttConnectWillRetain else 0)
        else 0)
    ||| (if a.password.isSome then mqttConnectPassword else 0)
    ||| (if a.userName.isSome then mqttConnectUserName else 0)

/-- The CONNECT body; nothing is written for a `NULL` client id, whose length `strlen` cannot take. -/
def mqttFormatConnect (a : MqttConnectArgs) : Option Bytes := do
  let clientId ← a.clientId
  return mqttPutString mqttProtocolName ++ mqttPutByte mqttProtocolLevel
    ++ mqttPutByte (mqttConnectFlags a) ++ mqttPutShort a.keepAlive
    ++ mqttPutString clientId
    ++ (match a.willTopic with | some s => mqttPutString s | none => [])
    ++ (match a.willMsg with | some d => mqttPutShort a.willMsgLen ++ mqttPutData d a.willMsgLen | none => [])
    ++ (match a.userName with | some s => mqttPutString s | none => [])
    ++ (match a.password with | some d => mqttPutShort a.passwordLen ++ mqttPutData d a.passwordLen | none => [])

/-! ## CONNACK -/

structure MqttConnack where
  sessionPresent : Bool := false
  returnCode : UInt8 := 0
  deriving DecidableEq, Repr

def mqttConnackSessionPresentFlag : UInt8 := 0x1
def mqttConnackAccepted : UInt8 := 0

def mqttParseConnack (_payload : MqttConnack) (length : Nat) : Rd (Int × MqttConnack) := do
  let (n, flags) ← mqttGetByte 0
  let offset := n
  let sessionPresent := flags &&& mqttConnackSessionPresentFlag ≠ 0
  let (n, returnCode) ← mqttGetByte offset
  let offset := offset + n
  return (if offset < length then -1 else offset, { sessionPresent, returnCode })

def mqttFormatConnack (sessionPresent : Bool) (returnCode : UInt8) : Bytes :=
  mqttPutByte (if sessionPresent then mqttConnackSessionPresentFlag else 0) ++ mqttPutByte returnCode

/-! ## PUBLISH -/

structure MqttPublish where
  id : UInt16 := 0
  topic : Ptr := .null
  topicLen : UInt16 := 0
  payload : Ptr := .null
  payloadLen : UInt16 := 0
  deriving DecidableEq, Repr

/-- A `size_t` difference, which wraps. -/
@[irreducible] def sizeSub (a b : Nat) : Nat := (a + 2 ^ 64 - b) % 2 ^ 64

/-- The packet id, if the QoS asks for one. -/
def mqttParsePublishId (payload : MqttPublish) (qos : UInt8) (offset : Nat) : Rd (Nat × UInt16) := do
  if qos > mqttQos0 then
    let (n, id) ← mqttGetShort offset
    return (offset + n, id)
  else return (offset, payload.id)

def mqttParsePublish (payload : MqttPublish) (length : Nat) (qos : UInt8) : Rd (Int × MqttPublish) := do
  let (n, topic, topicLen) ← mqttGetString 0
  let offset := n
  let (offset, id) ← mqttParsePublishId payload qos offset
  let payloadLen := UInt16.ofNat (sizeSub length offset)
  let (n, data) ← mqttGetData offset payloadLen
  let offset := offset + n
  return (offset, { id, topic, topicLen, payload := data, payloadLen })

def mqttEvalPublish (qos : UInt8) (topic : CString) (payloadLen : Nat) : Nat :=
  mqttStrLengthSize + strlen topic + (if qos > mqttQos0 then mqttPacketIdSize else 0) + payloadLen

def mqttFormatPublish (qos : UInt8) (id : UInt16) (topic : CString) (payload : Bytes) : Bytes :=
  mqttPutString topic ++ (if qos > mqttQos0 then mqttPutShort id else [])
    ++ mqttPutData payload (UInt16.ofNat payload.length)

/-! ## SUBSCRIBE and SUBACK -/

structure MqttSubscribe where
  id : UInt16 := 0
  topic : Ptr := .null
  topicLen : UInt16 := 0
  qos : UInt8 := 0
  deriving DecidableEq, Repr

def mqttParseSubscribe (_payload : MqttSubscribe) (length : Nat) : Rd (Int × MqttSubscribe) := do
  let (n, id) ← mqttGetShort 0
  let offset := n
  let (n, topic, topicLen) ← mqttGetString offset
  let offset := offset + n
  let (n, qos) ← mqttGetByte offset
  let offset := offset + n
  return (if offset < length then -1 else offset, { id, topic, topicLen, qos })

def mqttEvalSubscribe (topic : CString) : Nat := mqttPacketIdSize + (mqttStrLengthSize + strlen topic) + 1

def mqttFormatSubscribe (id : UInt16) (topic : CString) (qos : UInt8) : Bytes :=
  mqttPutShort id ++ mqttPutString topic ++ mqttPutByte qos

structure MqttSuback where
  id : UInt16 := 0
  returnCode : UInt8 := 0
  deriving DecidableEq, Repr

def mqttParseSuback (_payload : MqttSuback) (length : Nat) : Rd (Int × MqttSuback) := do
  let (n, id) ← mqttGetShort 0
  let offset := n
  let (n, returnCode) ← mqttGetByte offset
  let offset := offset + n
  return (if offset < length then -1 else offset, { id, returnCode })

def mqttFormatSuback (id : UInt16) (returnCode : UInt8) : Bytes := mqttPutShort id ++ mqttPutByte returnCode

/-! ## UNSUBSCRIBE and UNSUBACK -/

structure MqttUnsubscribe where
  id : UInt16 := 0
  topic : Ptr := .null
  topicLen : UInt16 := 0
  deriving DecidableEq, Repr

def mqttParseUnsubscribe (_payload : MqttUnsubscribe) (length : Nat) : Rd (Int × MqttUnsubscribe) := do
  let (n, id) ← mqttGetShort 0
  let offset := n
  let (n, topic, topicLen) ← mqttGetString offset
  let offset := offset + n
  return (if offset < length then -1 else offset, { id, topic, topicLen })

def mqttEvalUnsubscribe (topic : CString) : Nat := mqttPacketIdSize + (mqttStrLengthSize + strlen topic)

def mqttFormatUnsubscribe (id : UInt16) (topic : CString) : Bytes := mqttPutShort id ++ mqttPutString topic

structure MqttUnsuback where
  id : UInt16 := 0
  deriving DecidableEq, Repr

def mqttParseUnsuback (_payload : MqttUnsuback) (length : Nat) : Rd (Int × MqttUnsuback) := do
  let (n, id) ← mqttGetShort 0
  let offset := n
  return (if offset < length then -1 else offset, { id })

def mqttFormatUnsuback (id : UInt16) : Bytes := mqttPutShort id

end CMx.Mqtt
