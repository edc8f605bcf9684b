/-
Two endpoints joined by two reliable FIFO channels: what one writes, the other reads in order, in
chunks of any size and at any time.
-/
import CMx.Net.Wire

namespace CMx.Mqtt

/-! ## The network -/

/-- The endpoints, and what has been written to each and not been read by it. -/
structure Net where
  s : StreamMqtt
  r : StreamMqtt
  toR : Bytes
  toS : Bytes

/-- What an endpoint does: a call of its application, or a peek that reads the channel in chunks. -/
inductive Action where
  | call (env : Env) (call : Call)
  | peek (env : Env) (cuts : List Nat) (last : ReadEnd)

/-- A step of the network is an action of one of its endpoints. -/
inductive NetOp where
  | s (action : Action)
  | r (action : Action)

/-- The front of a channel, cut into chunks, and the rest; every cut of at most 1024 bytes is there. -/
def cutChunks : List Nat → Bytes → List Chunk × Bytes
  | [], bytes => ([], bytes)
  | cut :: cuts, bytes =>
    if h : bytes = [] then ([], [])
    else
      let size := cut % mqttMessageBufferSize + 1
      let (chunks, rest) := cutChunks cuts (bytes.drop size)
      (⟨bytes.take size, by simp [h, size], by
        have := Nat.mod_lt cut (show mqttMessageBufferSize > 0 by decide)
        rw [List.length_take]; omega⟩ :: chunks, rest)

theorem cutChunks_flatten : ∀ (cuts : List Nat) (bytes : Bytes),
    ((cutChunks cuts bytes).1.map Chunk.data).flatten ++ (cutChunks cuts bytes).2 = bytes
  | [], bytes => rfl
  | cut :: cuts, bytes => by
    unfold cutChunks
    split
    · rename_i h
      rw [h]; rfl
    · simp only [List.map_cons, List.flatten_cons, List.append_assoc]
      rw [cutChunks_flatten cuts, List.take_append_drop]

namespace Net

/-- The network from the other end. -/
def swap (n : Net) : Net := ⟨n.r, n.s, n.toS, n.toR⟩

/-- The first endpoint becomes `s'`: what it has written since goes to the other, and `toS` is what
it has left of its channel. -/
def update (n : Net) (s' : StreamMqtt) (toS : Bytes) : Net :=
  { n with s := s', toR := n.toR ++ (written (eventsSince n.s s')).flatten, toS }

/-- An action of the first endpoint. -/
def act (n : Net) : Action → Net
  | .call env call => n.update (Mqtt.step n.s env call) n.toS
  | .peek env cuts last =>
    let (reads, rest) := cutChunks cuts n.toS
    let (_, left, s) := streamMqttPeekFrame env n.s reads last
    n.update s ((left.map Chunk.data).flatten ++ rest)

def step (n : Net) : NetOp → Net
  | .s action => n.act action
  | .r action => (n.swap.act action).swap

def run (n : Net) (ops : List NetOp) : Net := ops.foldl step n

theorem update_update (n : Net) {s' s'' : StreamMqtt} {es es' : List Event} (h : s'.trace = n.s.trace ++ es)
    (h' : s''.trace = s'.trace ++ es') (toS toS' : Bytes) :
    (n.update s' toS).update s'' toS' = n.update s'' toS' := by
  have h'' : s''.trace = n.s.trace ++ (es ++ es') := by rw [h', h, List.append_assoc]
  simp only [update, eventsSince_eq h, eventsSince_eq h', eventsSince_eq h'', written_append, List.flatten_append,
    List.append_assoc]

end Net

/-! ## Traffic -/

/-- A QoS 2 message. -/
structure Message where
  retain : Bool
  dup : Bool
  id : UInt16
  topic : CString
  payload : Bytes

namespace Message

def frame (msg : Message) : Frame := .ofPublish msg.retain msg.dup mqttQos2 msg.id msg.topic msg.payload

/-- Its item in the receiver's `inbound`. -/
def item (msg : Message) : MqttFrameItem := mqttFrameItemNew .publish msg.frame.flags msg.id msg.frame.body

end Message

/-- The calls that put well-formed frames on the wire: the operations of the interface on strings
and payloads below 65536 bytes, and raw frames of the types that take no part in an exchange. -/
def Call.WellFormed : Call → Prop
  | .publish _ _ qos _ topic payload => qos ≤ mqttQos2 ∧ strlen topic < 65536 ∧ payload.length < 65536
  | .subscribe _ topic _ => strlen topic < 65536
  | .unsubscribe _ topic => strlen topic < 65536
  | .connect args => ∀ body, mqttFormatConnect args = some body →
      body.length = mqttEvalConnect args ∧ body.length ≤ mqttMaxBodyLength
  | .writeFrame type flags body => (Frame.mk type flags body).Proper ∧ type ∉ exchangeTypes
  | .writeFramePacketId type _ => type < 16 ∧ type ∉ exchangeTypes
  | .receive _ _ | .rebuffer _ => False
  | _ => True
where
  exchangeTypes := [MqttPacketType.publish.toByte, MqttPacketType.pubrec.toByte, MqttPacketType.pubrel.toByte,
    MqttPacketType.pubcomp.toByte]

/-- They are calls of the application. -/
theorem Call.WellFormed.isLoop {call : Call} (h : call.WellFormed) : call.isLoop = false := by
  cases call with
  | receive header body => exact absurd h id
  | rebuffer buffer => exact absurd h id
  | _ => rfl

/-- The QoS 2 message that a call publishes. -/
def Call.message : Call → Option Message
  | .publish retain dup qos id topic payload => if qos = mqttQos2 then some ⟨retain, dup, id, topic, payload⟩ else none
  | _ => none

/-- The id of a call that sends another PUBLISH or a PUBREL. -/
def Call.otherId : Call → Option UInt16
  | .publish _ _ qos id _ _ => if qos = mqttQos2 then none else some id
  | .pubrel id => some id
  | _ => none

namespace NetOp

/-- The call that an endpoint's application makes. -/
def sCall : NetOp → Option Call
  | .s (.call _ call) => some call
  | _ => none

def rCall : NetOp → Option Call
  | .r (.call _ call) => some call
  | _ => none

end NetOp

/-- The QoS 2 messages that the first endpoint publishes. -/
def messages (ops : List NetOp) : List Message := ops.filterMap fun op => op.sCall.bind Call.message

/-- All calls are well-formed; the messages have distinct ids, and the first endpoint uses them
for no other PUBLISH and for no PUBREL of its own. -/
structure Traffic (ops : List NetOp) : Prop where
  wellFormed : ∀ op ∈ ops, ∀ call, op.sCall = some call ∨ op.rCall = some call → call.WellFormed
  distinct : ((messages ops).map (·.id)).Nodup
  others : ∀ op ∈ ops, ∀ id, op.sCall.bind Call.otherId = some id → id ∉ (messages ops).map (·.id)

/-- An endpoint before its first frame; everything but its queues may have been set up. -/
structure StreamMqtt.Idle (s : StreamMqtt) : Prop where
  outgoing : s.outgoing = []
  inbound : s.inbound = []
  buffer : s.buffer = []
  trace : s.trace = []

/-- The network before the first step. -/
def Net.start (s r : StreamMqtt) : Net := ⟨s, r, [], []⟩

end CMx.Mqtt
