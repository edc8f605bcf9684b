/-
The wire between two endpoints: a channel of bytes carries frames, and the frames with one packet
id that take part in a QoS 2 exchange are the packets of a handshake.
-/
import CMx.Lib.Handshake
import CMx.StreamMqtt.Publish
import CMx.StreamMqtt.Reassembly

namespace CMx.Mqtt

open Framing (drain)
open Handshake (Request Response)

/-! ## Frames of an exchange -/

namespace Frame

/-- The sender's packet for an id. -/
def request (id : UInt16) (f : Frame) : Option Request :=
  if f.isPublishQos2 ∧ f.publishId = id then some .publish
  else if f.isType .pubrel ∧ f.packetId = id then some .release
  else none

/-- The receiver's packet for an id. -/
def response (id : UInt16) (f : Frame) : Option Response :=
  if f.isType .pubrec ∧ f.packetId = id then some .received
  else if f.isType .pubcomp ∧ f.packetId = id then some .complete
  else none

/-- A frame with a packet id and nothing else. -/
def ofId (type : MqttPacketType) (id : UInt16) : Frame :=
  ⟨type.toByte, if type = .pubrel then mqttQosToFlags mqttQos1 else 0, mqttPutShort id⟩

/-- A PUBLISH. -/
def ofPublish (retain dup : Bool) (qos : UInt8) (id : UInt16) (topic : CString) (payload : Bytes) : Frame :=
  ⟨MqttPacketType.publish.toByte, publishFlags retain dup qos, mqttFormatPublish qos id topic payload⟩

section OfId

variable (type : MqttPacketType) (id : UInt16)

theorem ofId_proper : (ofId type id).Proper where
  type_lt := MqttPacketType.toByte_lt type
  flags_lt := by
    show (if type = .pubrel then mqttQosToFlags mqttQos1 else 0) < (16 : UInt8)
    split <;> decide
  length_le := by
    show 2 ≤ mqttMaxBodyLength
    decide

theorem ofId_isType : (ofId type id).isType type := MqttPacketType.ofByte_toByte type

theorem ofId_packetId : (ofId type id).packetId = id := by
  have h := shortAt_mqttPutShort id [] fun _ => 0
  rwa [List.append_nil] at h

variable {type}

theorem ofId_valid (h : ∀ flags, bodyParser type flags = some (.varHeaderId ⟨0⟩)) : (ofId type id).valid = true := by
  unfold valid validBody
  rw [show MqttPacketType.ofByte (ofId type id).header.type = some type from ofId_isType type id, Option.bind_some, h]
  rfl

end OfId

section OfPublish

variable (retain dup : Bool) {qos : UInt8} (id : UInt16) {topic : CString} {payload : Bytes}

theorem length_ofPublish (ht : strlen topic < 65536) (hp : payload.length < 65536) :
    (ofPublish retain dup qos id topic payload).body.length = mqttEvalPublish qos topic payload.length := by
  have h := length_mqttFormatPublish qos id payload (Nat.le_of_lt_succ ht)
  rw [Nat.mod_eq_of_lt hp] at h
  exact Nat.add_right_cancel h

theorem format_ofPublish (ht : strlen topic < 65536) (hp : payload.length < 65536) :
    (ofPublish retain dup qos id topic payload).format = publishBuffer retain dup qos id topic payload := by
  unfold format mqttFormatFrame
  rw [length_ofPublish retain dup id ht hp]
  rfl

theorem ofPublish_proper (ht : strlen topic < 65536) (hp : payload.length < 65536) :
    (ofPublish retain dup qos id topic payload).Proper where
  type_lt := MqttPacketType.toByte_lt .publish
  flags_lt := publishFlags_lt retain dup qos
  length_le := by
    rw [length_ofPublish retain dup id ht hp]
    unfold mqttEvalPublish mqttMaxBodyLength mqttStrLengthSize mqttPacketIdSize
    split <;> omega

theorem ofPublish_publishId (ht : strlen topic < 65536) (hpos : qos > mqttQos0) :
    (ofPublish retain dup qos id topic payload).publishId = id := by
  obtain ⟨-, -, h⟩ := publishReach_format qos id payload (Nat.le_of_lt_succ ht) [] fun _ => 0
  have h := h hpos
  rwa [List.append_nil] at h

theorem ofPublish_valid (hq : qos ≤ mqttQos2) (ht : strlen topic < 65536) (hp : payload.length < 65536) :
    (ofPublish retain dup qos id topic payload).valid = true := by
  obtain ⟨hreach, -, -⟩ := publishReach_format qos id payload (Nat.le_of_lt_succ ht) [] fun _ => 0
  rw [List.append_nil] at hreach
  have hlen := @length_ofPublish retain dup qos id _ _ ht hp
  have hle : 2 + strlen topic + (publishIdField qos id).length ≤
      (ofPublish retain dup qos id topic payload).body.length := by
    rw [hlen, length_publishIdField]
    unfold mqttEvalPublish mqttStrLengthSize mqttPacketIdSize
    omega
  unfold valid validBody
  rw [show MqttPacketType.ofByte (ofPublish retain dup qos id topic payload).header.type = some .publish from rfl,
    Option.bind_some]
  show BodyParser.valid (.publish {} (mqttQosFromFlags (publishFlags retain dup qos))) _ _ = true
  rw [(publishFlags_spec retain dup hq).2, valid_iff, fieldsReach_publish]
  exact ⟨hreach.trans_le hle, fun h => by cases h⟩

theorem ofPublish_isPublishQos2 (hq : qos ≤ mqttQos2) :
    (ofPublish retain dup qos id topic payload).isPublishQos2 ↔ qos = mqttQos2 := by
  have hflags : mqttQosFromFlags (ofPublish retain dup qos id topic payload).flags = qos :=
    (publishFlags_spec retain dup hq).2
  exact ⟨fun h => hflags.symm.trans h.2, fun h => ⟨rfl, hflags.trans h⟩⟩

/-- A PUBLISH with an id is a packet of no other exchange. -/
theorem request_ofPublish (hq : qos ≤ mqttQos2) (ht : strlen topic < 65536) (other : UInt16) :
    (ofPublish retain dup qos id topic payload).request other =
      if qos = mqttQos2 ∧ id = other then some .publish else none := by
  have hkind := @ofPublish_isPublishQos2 retain dup qos id topic payload hq
  have hrel : ¬ (ofPublish retain dup qos id topic payload).isType .pubrel := by
    show ¬ some MqttPacketType.publish = some .pubrel
    decide
  unfold request
  by_cases hqos : qos = mqttQos2
  · have hid := @ofPublish_publishId retain dup qos id topic payload ht (by rw [hqos]; decide)
    simp only [hkind, eq_true hqos, hid, hrel, true_and, false_and, if_false]
  · simp only [hkind, eq_false hqos, hrel, false_and, if_false]

end OfPublish

theorem isType.iff {f : Frame} {type : MqttPacketType} (h : f.isType type) (other : MqttPacketType) :
    f.isType other ↔ type = other := by
  unfold isType at *
  rw [h, Option.some_inj]

theorem isType.ne {f : Frame} {type other : MqttPacketType} (h : f.isType type) (hne : type ≠ other) :
    ¬ f.isType other := fun h' => hne ((h.iff other).1 h')

theorem request_none {f : Frame} (hpub : ¬ f.isPublishQos2) (hrel : ¬ f.isType .pubrel) (id : UInt16) :
    f.request id = none := by
  unfold request
  simp only [hpub, hrel, false_and, if_false]

theorem response_none {f : Frame} (hrec : ¬ f.isType .pubrec) (hcomp : ¬ f.isType .pubcomp) (id : UInt16) :
    f.response id = none := by
  unfold response
  simp only [hrec, hcomp, false_and, if_false]

/-- A PUBREL, a PUBREC and a PUBCOMP are the packets of the exchange with their id. -/
theorem request_pubrel {f : Frame} (h : f.isType .pubrel) (id : UInt16) :
    f.request id = if f.packetId = id then some .release else none := by
  have hpub : ¬ f.isPublishQos2 := fun hc => h.ne (by decide) hc.1
  unfold request
  simp only [hpub, h, false_and, true_and, if_false]

theorem response_pubrec {f : Frame} (h : f.isType .pubrec) (id : UInt16) :
    f.response id = if f.packetId = id then some .received else none := by
  have hcomp : ¬ f.isType .pubcomp := h.ne (by decide)
  unfold response
  simp only [h, hcomp, true_and, false_and, if_false]

theorem response_pubcomp {f : Frame} (h : f.isType .pubcomp) (id : UInt16) :
    f.response id = if f.packetId = id then some .complete else none := by
  have hrec : ¬ f.isType .pubrec := h.ne (by decide)
  unfold response
  simp only [h, hrec, true_and, false_and, if_false]

end Frame

/-! ## Writing frames -/

/-- A write puts one frame on the wire, of the kind `P`. -/
def Event.Writes (P : Frame → Prop) : Event → Prop
  | .write _ data => ∃ f : Frame, f.Proper ∧ P f ∧ data = f.format
  | _ => True

/-- The frames that some events put on the wire. -/
theorem written_frames {P : Frame → Prop} : ∀ {es : List Event}, (∀ e ∈ es, e.Writes P) →
    ∃ fs : List Frame, written es = fs.map Frame.format ∧ ∀ f ∈ fs, f.Proper ∧ P f
  | [], _ => ⟨[], rfl, by simp⟩
  | e :: es, h => by
    obtain ⟨fs, hw, hfs⟩ := written_frames fun e he => h e (List.mem_cons_of_mem _ he)
    have he := h e (List.mem_cons_self ..)
    cases e with
    | write ticket data =>
      obtain ⟨f, hproper, hP, rfl⟩ := he
      refine ⟨f :: fs, ?_, List.forall_mem_cons.2 ⟨⟨hproper, hP⟩, hfs⟩⟩
      rw [List.map_cons, ← hw]; rfl
    | _ => exact ⟨fs, hw, hfs⟩

/-! ## Channels -/

/-- The bytes are whole frames of the kind `P`, of which `pick` takes the packets. -/
def Carries {α : Type} (P : Frame → Prop) (pick : Frame → Option α) (bytes : Bytes) (packets : List α) : Prop :=
  ∃ fs, drain frameParser bytes = ⟨fs, [], false⟩ ∧ (∀ f ∈ fs, P f) ∧ fs.filterMap pick = packets

section Carries

variable {α : Type} {P : Frame → Prop} {pick : Frame → Option α} {bytes : Bytes} {packets : List α}

theorem Carries.nil : Carries P pick [] [] := ⟨[], Framing.drain_more rfl, by simp, rfl⟩

/-- Frames are written behind the others. -/
theorem Carries.append (h : Carries P pick bytes packets) {fs : List Frame} (hfs : ∀ f ∈ fs, f.Proper ∧ P f) :
    Carries P pick (bytes ++ (fs.map Frame.format).flatten) (packets ++ fs.filterMap pick) := by
  obtain ⟨gs, hdrain, hgs, rfl⟩ := h
  refine ⟨gs ++ fs, ?_, ?_, List.filterMap_append⟩
  · rw [Framing.drain_append frameParser_stable _ _ (by rw [hdrain]), hdrain]
    rw [List.nil_append, ← List.flatMap_def, drain_format fun f hf => (hfs f hf).1]
  · intro f hf
    exact (List.mem_append.1 hf).elim (hgs f) fun h => (hfs f h).2

/-- The frame that the reassembly loop finds in front of the buffer is the first on the wire. -/
theorem Carries.receive {buffer rest : Bytes} (h : Carries P pick (buffer ++ rest) packets) {bodyOffset : Nat}
    {header : MqttFixedHeader} {frameLength : Nat} (hp : mqttParseFrame buffer = .frame bodyOffset header frameLength)
    (stale : Mem) :
    P (recorded header (memOf (buffer.drop bodyOffset) stale)) ∧
      ∃ packets', packets = (pick (recorded header (memOf (buffer.drop bodyOffset) stale))).toList ++ packets' ∧
        Carries P pick (buffer.drop frameLength ++ rest) packets' := by
  obtain ⟨fs, hdrain, hfs, rfl⟩ := h
  obtain ⟨-, hlen, hle, happ⟩ := mqttParseFrame_spec hp
  have hframe : frameParser (buffer ++ rest) = .frame
      (recorded header (memOf (buffer.drop bodyOffset) stale)) frameLength := by
    rw [recorded_memOf (by rw [List.length_drop]; omega)]
    unfold frameParser
    rw [happ rest]
    simp only
    rw [List.drop_append_of_le_length (by omega), List.take_append_of_le_length (by rw [List.length_drop]; omega)]
  rw [Framing.drain_frame frameParser_stable hframe, List.drop_append_of_le_length hle, Framing.Drained.mk.injEq] at hdrain
  obtain ⟨rfl, hrest, hbad⟩ := hdrain
  refine ⟨hfs _ (List.mem_cons_self ..), _, ?_, _, ?_, fun f hf => hfs f (List.mem_cons_of_mem _ hf), rfl⟩
  · cases hpick : pick (recorded header (memOf (buffer.drop bodyOffset) stale)) <;> simp [hpick]
  · rw [← hrest, ← hbad]

/-- The loop never has to reset the buffer. -/
theorem Carries.noError {buffer rest : Bytes} (h : Carries P pick (buffer ++ rest) packets) :
    mqttParseFrame buffer ≠ .error := by
  intro herror
  obtain ⟨fs, hdrain, -, -⟩ := h
  have hbad : frameParser (buffer ++ rest) = .bad := by
    unfold frameParser
    rw [mqttParseFrame_error herror]
  rw [Framing.drain_bad hbad] at hdrain
  cases hdrain

end Carries

end CMx.Mqtt
