/-
The bodies of SUBSCRIBE, UNSUBSCRIBE, SUBACK, UNSUBACK, CONNACK and the packets with an id only,
formatted and parsed: each parser reads back every field and returns the length that its formatter
wrote.
-/
import CMx.StreamMqtt.Connect

namespace CMx.Mqtt

/-- On a body, whatever lies behind it in memory, a parser returns its length and a message that
reports what was put. -/
def ParsesBack {α : Type} (parse : Nat → Rd (Int × α)) (body : Bytes) (reports : Mem → α → Prop) : Prop :=
  ∀ stale : Mem, ((parse body.length).value (memOf body stale)).1 = body.length ∧
    reports (memOf body stale) ((parse body.length).value (memOf body stale)).2

/-! ## Strings behind an id -/

/-- A string that was put behind an id is read back. -/
theorem reports_putString {m : Mem} {topic : CString} (ht : strlen topic ≤ 65535) {id : UInt16} {rest : Bytes}
    (h : m.Holds 0 (mqttPutShort id ++ (mqttPutString topic ++ rest))) :
    shortAt m 0 = id ∧ (shortAt m 2).toNat = strlen topic ∧
      Reports m (.body 4) (shortAt m 2) (some topic.bytes) ∧ m.Holds (4 + strlen topic) rest := by
  obtain ⟨hid, hrest⟩ := holds_append.1 h
  rw [mqttPutString_putField ht] at hrest
  obtain ⟨hfield, hrest⟩ := holds_append.1 hrest
  obtain ⟨hlen, hbytes⟩ := hfield.putField ht
  refine ⟨hid.shortAt_eq, hlen, ⟨4, rfl, hlen, hbytes⟩, ?_⟩
  have hend : 0 + (mqttPutShort id).length + (putField topic.bytes).length = 4 + strlen topic := by
    rw [length_mqttPutShort, length_putField, strlen]
    omega
  rwa [hend] at hrest

/-! ## SUBSCRIBE and UNSUBSCRIBE -/

section Topic

variable (id : UInt16) {topic : CString} (ht : strlen topic ≤ 65535)
include ht

theorem parsesBack_subscribe (qos : UInt8) (payload : MqttSubscribe) :
    ParsesBack (mqttParseSubscribe payload) (mqttFormatSubscribe id topic qos) fun m msg =>
      msg.id = id ∧ Reports m msg.topic msg.topicLen (some topic.bytes) ∧ msg.qos = qos := by
  intro stale
  rw [length_mqttFormatSubscribe id ht]
  generalize hm : memOf (mqttFormatSubscribe id topic qos) stale = m
  have h : m.Holds 0 (mqttPutShort id ++ (mqttPutString topic ++ [qos])) := by
    rw [← hm, ← List.append_assoc]
    exact holds_memOf _ stale
  obtain ⟨hid, hlen, htopic, hqos⟩ := reports_putString ht h
  have hbyte : m (4 + strlen topic) = qos := hqos 0 Nat.one_pos
  have hoffset : 2 + (2 + (shortAt m 2).toNat) = 4 + strlen topic := by omega
  simp only [mqttParseSubscribe, Rd.value_bind, value_mqttGetShort, value_mqttGetString, value_mqttGetByte,
    Rd.value_pure, hoffset, hbyte]
  refine ⟨?_, hid, htopic, trivial⟩
  have heval : mqttEvalSubscribe topic = 4 + strlen topic + 1 := by
    simp only [mqttEvalSubscribe, mqttPacketIdSize, mqttStrLengthSize]
    omega
  rw [heval, if_neg (Nat.lt_irrefl _)]

theorem parsesBack_unsubscribe (payload : MqttUnsubscribe) :
    ParsesBack (mqttParseUnsubscribe payload) (mqttFormatUnsubscribe id topic) fun m msg =>
      msg.id = id ∧ Reports m msg.topic msg.topicLen (some topic.bytes) := by
  intro stale
  rw [length_mqttFormatUnsubscribe id ht]
  generalize hm : memOf (mqttFormatUnsubscribe id topic) stale = m
  have h : m.Holds 0 (mqttPutShort id ++ (mqttPutString topic ++ [])) := by
    rw [← hm, List.append_nil]
    exact holds_memOf _ stale
  obtain ⟨hid, hlen, htopic, -⟩ := reports_putString ht h
  have hoffset : 2 + (2 + (shortAt m 2).toNat) = mqttEvalUnsubscribe topic := by
    simp only [mqttEvalUnsubscribe, mqttPacketIdSize, mqttStrLengthSize]
    omega
  simp only [mqttParseUnsubscribe, Rd.value_bind, value_mqttGetShort, value_mqttGetString, Rd.value_pure, hoffset]
  exact ⟨by rw [if_neg (Nat.lt_irrefl _)], hid, htopic⟩

end Topic

/-! ## Bodies of fixed size -/

theorem parsesBack_suback (id : UInt16) (returnCode : UInt8) (payload : MqttSuback) :
    ParsesBack (mqttParseSuback payload) (mqttFormatSuback id returnCode) fun _ msg =>
      msg.id = id ∧ msg.returnCode = returnCode :=
  fun stale => ⟨rfl, shortAt_mqttPutShort id [returnCode] stale, rfl⟩

theorem parsesBack_unsuback (id : UInt16) (payload : MqttUnsuback) :
    ParsesBack (mqttParseUnsuback payload) (mqttFormatUnsuback id) fun _ msg => msg.id = id :=
  fun stale => ⟨rfl, (holds_memOf (mqttPutShort id) stale).shortAt_eq⟩

theorem parsesBack_varHeaderId (id : UInt16) (payload : MqttVarHeaderId) :
    ParsesBack (mqttParseVarHeaderId payload) (mqttFormatVarHeaderId id) fun _ msg => msg.id = id :=
  fun stale => ⟨rfl, (holds_memOf (mqttPutShort id) stale).shortAt_eq⟩

theorem parsesBack_connack (sessionPresent : Bool) (returnCode : UInt8) (payload : MqttConnack) :
    ParsesBack (mqttParseConnack payload) (mqttFormatConnack sessionPresent returnCode) fun _ msg =>
      msg.sessionPresent = sessionPresent ∧ msg.returnCode = returnCode := by
  intro stale
  refine ⟨rfl, ?_, rfl⟩
  cases sessionPresent <;>
    simp [mqttParseConnack, mqttFormatConnack, mqttPutByte, memOf, mqttConnackSessionPresentFlag]

/-- Whatever a SUBSCRIBE, UNSUBSCRIBE, SUBACK, UNSUBACK, CONNACK or a packet with an id only is
formatted from, with a topic of at most 65535 bytes, its parser reads back; and the bodies of
SUBSCRIBE and UNSUBSCRIBE have the length that was evaluated. -/
theorem bodies_parseBack (id : UInt16) {topic : CString} (ht : strlen topic ≤ 65535) (qos returnCode : UInt8)
    (sessionPresent : Bool) :
    ((∀ payload, ParsesBack (mqttParseSubscribe payload) (mqttFormatSubscribe id topic qos) fun m msg =>
        msg.id = id ∧ Reports m msg.topic msg.topicLen (some topic.bytes) ∧ msg.qos = qos) ∧
      (mqttFormatSubscribe id topic qos).length = mqttEvalSubscribe topic) ∧
    ((∀ payload, ParsesBack (mqttParseUnsubscribe payload) (mqttFormatUnsubscribe id topic) fun m msg =>
        msg.id = id ∧ Reports m msg.topic msg.topicLen (some topic.bytes)) ∧
      (mqttFormatUnsubscribe id topic).length = mqttEvalUnsubscribe topic) ∧
    (∀ payload, ParsesBack (mqttParseSuback payload) (mqttFormatSuback id returnCode) fun _ msg =>
      msg.id = id ∧ msg.returnCode = returnCode) ∧
    (∀ payload, ParsesBack (mqttParseUnsuback payload) (mqttFormatUnsuback id) fun _ msg => msg.id = id) ∧
    (∀ payload, ParsesBack (mqttParseConnack payload) (mqttFormatConnack sessionPresent returnCode) fun _ msg =>
      msg.sessionPresent = sessionPresent ∧ msg.returnCode = returnCode) ∧
    ∀ payload, ParsesBack (mqttParseVarHeaderId payload) (mqttFormatVarHeaderId id) fun _ msg => msg.id = id := by
  refine ⟨⟨parsesBack_subscribe id ht qos, length_mqttFormatSubscribe id ht qos⟩,
    ⟨parsesBack_unsubscribe id ht, length_mqttFormatUnsubscribe id ht⟩, ?_, ?_, ?_, ?_⟩
  · exact parsesBack_suback id returnCode
  · exact parsesBack_unsuback id
  · exact parsesBack_connack sessionPresent returnCode
  · exact parsesBack_varHeaderId id

/-- A SUBSCRIBE to the topic `MQTT`. -/
theorem bodies_parseBack_subscribe :
    ((mqttParseSubscribe {} 9).value (memOf (mqttFormatSubscribe 7 mqttProtocolName 1) fun _ => 0)).2.qos = 1 :=
  (((bodies_parseBack 7 (show strlen mqttProtocolName ≤ 65535 by decide) 1 0 false).1.1 {}) fun _ => 0).2.2.2

end CMx.Mqtt
