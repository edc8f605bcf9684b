/-
What the calls of an application put on the wire: each formats at most one frame, which is written
at once, queued, or both.
-/
import CMx.Net.State
import CMx.StreamMqtt.Outgoing

namespace CMx.Mqtt

/-! ## The frame of a call -/

/-- The frame that a call formats. -/
def Call.frame : Call → Option Frame
  | .publish retain dup qos id topic payload => some (.ofPublish retain dup qos id topic payload)
  | .subscribe id topic qos =>
    some ⟨MqttPacketType.subscribe.toByte, mqttQosToFlags mqttQos1, mqttFormatSubscribe id topic qos⟩
  | .unsubscribe id topic =>
    some ⟨MqttPacketType.unsubscribe.toByte, mqttQosToFlags mqttQos1, mqttFormatUnsubscribe id topic⟩
  | .pubrel id => some (.ofId .pubrel id)
  | .suback id returnCode => some ⟨MqttPacketType.suback.toByte, 0, mqttFormatSuback id returnCode⟩
  | .connect args => (mqttFormatConnect args).map (Frame.mk MqttPacketType.connect.toByte 0)
  | .connack sessionPresent returnCode =>
    some ⟨MqttPacketType.connack.toByte, 0, mqttFormatConnack sessionPresent returnCode⟩
  | .disconnect => some ⟨MqttPacketType.disconnect.toByte, 0, []⟩
  | .writeFrame type flags body => some ⟨type, flags, body⟩
  | .writeFramePacketId type id =>
    some ⟨type, if type = MqttPacketType.pubrel.toByte then mqttQosToFlags mqttQos1 else 0, mqttPutShort id⟩
  | _ => none

/-- The type and id under which a call queues its frame. -/
def Call.queueKey : Call → Option (MqttPacketType × UInt16)
  | .publish _ _ _ id _ _ => some (.publish, id)
  | .subscribe id _ _ => some (.subscribe, id)
  | .unsubscribe id _ => some (.unsubscribe, id)
  | .pubrel id => some (.pubrel, id)
  | _ => none

/-- A frame of a type that takes no part in an exchange. -/
def Frame.Beside (f : Frame) : Prop :=
  ¬ f.isType .publish ∧ ¬ f.isType .pubrec ∧ ¬ f.isType .pubrel ∧ ¬ f.isType .pubcomp

theorem Frame.isType.beside {f : Frame} {type : MqttPacketType} (h : f.isType type)
    (ht : type ≠ .publish ∧ type ≠ .pubrec ∧ type ≠ .pubrel ∧ type ≠ .pubcomp) : f.Beside := by
  unfold Frame.Beside
  simp only [h.iff]
  exact ht

theorem ofByte_eq {b : UInt8} {type : MqttPacketType} (h : MqttPacketType.ofByte b = some type) : b = type.toByte := by
  unfold MqttPacketType.ofByte at h
  apply UInt8.toNat_inj.1
  split at h <;> simp_all <;> subst h <;> rfl

theorem beside_raw {f : Frame} (h : f.type ∉ Call.WellFormed.exchangeTypes) : f.Beside := by
  have hne : ∀ type, type.toByte ∈ Call.WellFormed.exchangeTypes → ¬ f.isType type := by
    intro type hmem ht
    rw [← ofByte_eq ht] at hmem
    exact h hmem
  exact ⟨hne _ (by decide), hne _ (by decide), hne _ (by decide), hne _ (by decide)⟩

/-- Which frames well-formed calls format. -/
theorem call_frame {call : Call} (hwell : call.WellFormed) {f : Frame} (hf : call.frame = some f) :
    f.Proper ∧ ((∃ retain dup qos id topic payload, call = .publish retain dup qos id topic payload ∧
        f = .ofPublish retain dup qos id topic payload) ∨ (∃ id, call = .pubrel id ∧ f = .ofId .pubrel id) ∨
      f.Beside) := by
  have beside : ∀ {type : MqttPacketType} {flags : UInt8} {body : Bytes}, flags < 16 →
      body.length ≤ mqttMaxBodyLength →
      (type ≠ .publish ∧ type ≠ .pubrec ∧ type ≠ .pubrel ∧ type ≠ .pubcomp) →
      (Frame.mk type.toByte flags body).Proper ∧ (Frame.mk type.toByte flags body).Beside := by
    intro type flags body hflags hbody ht
    have htype : (Frame.mk type.toByte flags body).isType type := MqttPacketType.ofByte_toByte type
    exact ⟨⟨MqttPacketType.toByte_lt type, hflags, hbody⟩, htype.beside ht⟩
  cases call with
  | publish retain dup qos id topic payload =>
    cases hf
    exact ⟨Frame.ofPublish_proper retain dup id hwell.2.1 hwell.2.2, .inl ⟨_, _, _, _, _, _, rfl, rfl⟩⟩
  | pubrel id =>
    cases hf
    exact ⟨Frame.ofId_proper .pubrel id, .inr (.inl ⟨id, rfl, rfl⟩)⟩
  | subscribe id topic qos =>
    cases hf
    have hwell : strlen topic < 65536 := hwell
    have hlen : (mqttFormatSubscribe id topic qos).length ≤ mqttMaxBodyLength := by
      rw [length_mqttFormatSubscribe id (Nat.le_of_lt_succ hwell)]
      unfold mqttEvalSubscribe mqttPacketIdSize mqttStrLengthSize mqttMaxBodyLength
      omega
    exact (beside (by decide) hlen (by decide)).imp_right fun h => .inr (.inr h)
  | unsubscribe id topic =>
    cases hf
    have hwell : strlen topic < 65536 := hwell
    have hlen : (mqttFormatUnsubscribe id topic).length ≤ mqttMaxBodyLength := by
      rw [length_mqttFormatUnsubscribe id (Nat.le_of_lt_succ hwell)]
      unfold mqttEvalUnsubscribe mqttPacketIdSize mqttStrLengthSize mqttMaxBodyLength
      omega
    exact (beside (by decide) hlen (by decide)).imp_right fun h => .inr (.inr h)
  | suback id returnCode =>
    cases hf
    have hlen : (mqttFormatSuback id returnCode).length ≤ mqttMaxBodyLength := show 3 ≤ mqttMaxBodyLength by decide
    exact (beside (by decide) hlen (by decide)).imp_right fun h => .inr (.inr h)
  | connect args =>
    unfold Call.frame at hf
    obtain ⟨body, hbody, rfl⟩ := Option.map_eq_some_iff.1 hf
    exact (beside (by decide) (hwell body hbody).2 (by decide)).imp_right fun h => .inr (.inr h)
  | connack sessionPresent returnCode =>
    cases hf
    have hlen : (mqttFormatConnack sessionPresent returnCode).length ≤ mqttMaxBodyLength :=
      show 2 ≤ mqttMaxBodyLength by decide
    exact (beside (by decide) hlen (by decide)).imp_right fun h => .inr (.inr h)
  | disconnect =>
    cases hf
    exact (beside (by decide) (Nat.zero_le _) (by decide)).imp_right fun h => .inr (.inr h)
  | writeFrame type flags body =>
    cases hf
    exact ⟨hwell.1, .inr (.inr (beside_raw hwell.2))⟩
  | writeFramePacketId type id =>
    cases hf
    refine ⟨⟨hwell.1, ?_, show 2 ≤ mqttMaxBodyLength by decide⟩, .inr (.inr (beside_raw hwell.2))⟩
    show (if type = MqttPacketType.pubrel.toByte then mqttQosToFlags mqttQos1 else 0) < (16 : UInt8)
    split <;> decide
  -- the other calls write no frame of their own
  | receive header body => cases hf
  | rebuffer buffer => cases hf
  | time => cases hf
  | readFrame length => cases hf
  | setStatus status => cases hf
  | setObserver handler => cases hf
  | removeObserver => cases hf

/-! ## The effect of a call -/

/-- What a call does to the queues and the history: it queues its frame, or it writes it and keeps
the queue. -/
structure CallEffect (call : Call) (s s' : StreamMqtt) : Prop where
  inbound : s'.inbound = s.inbound
  buffer : s'.buffer = s.buffer
  sends : (∃ item f, call.queueKey = some (item.type, item.id) ∧ call.frame = some f ∧ item.buffer = f.format ∧
      Queues item s s') ∨
    (s'.outgoing = s.outgoing ∧
      ∃ es, s'.trace = s.trace ++ es ∧ ∀ e ∈ es, ∃ f, call.frame = some f ∧ e = .write none f.format)

theorem CallEffect.ofQueues {call : Call} {s s' : StreamMqtt} {item : MqttFrameItem} {f : Frame}
    (hkey : call.queueKey = some (item.type, item.id)) (hf : call.frame = some f) (hb : item.buffer = f.format)
    (q : Queues item s s') : CallEffect call s s' :=
  ⟨q.inbound, q.buffer, .inl ⟨item, f, hkey, hf, hb, q⟩⟩

theorem CallEffect.ofQuiet {call : Call} {s s' : StreamMqtt}
    (q : Quiet (fun e => ∃ f, call.frame = some f ∧ e = .write none f.format) s s') : CallEffect call s s' :=
  ⟨q.inbound, q.buffer, .inr ⟨q.outgoing, q.trace⟩⟩

/-- The frame of a request is formatted with the length that was evaluated. -/
theorem format_eval {type flags : UInt8} {body : Bytes} {n : Nat} (h : body.length = n) :
    mqttFormatFixedHeader type flags n ++ body = (Frame.mk type flags body).format := by
  rw [← h]
  rfl

theorem call_effect (s : StreamMqtt) (env : Env) {call : Call} (hwell : call.WellFormed) (htime : call ≠ .time) :
    CallEffect call s (step s env call) := by
  cases call with
  | receive header body => cases hwell
  | rebuffer buffer => cases hwell
  | time => exact absurd rfl htime
  | publish retain dup qos id topic payload =>
    refine .ofQueues (f := .ofPublish retain dup qos id topic payload) rfl rfl ?_
      (queues_publish env s retain dup qos id topic payload)
    exact (Frame.format_ofPublish retain dup id hwell.2.1 hwell.2.2).symm
  | subscribe id topic qos =>
    have hlen := length_mqttFormatSubscribe id (Nat.le_of_lt_succ hwell) qos
    exact .ofQueues rfl rfl (format_eval hlen) (queues_sendOrQueue env s _ id _)
  | unsubscribe id topic =>
    have hlen := length_mqttFormatUnsubscribe id (Nat.le_of_lt_succ hwell)
    exact .ofQueues rfl rfl (format_eval hlen) (queues_sendOrQueue env s _ id _)
  | pubrel id => exact .ofQueues (f := .ofId .pubrel id) rfl rfl rfl (queues_pubrel env s id)
  | suback id returnCode => exact .ofQuiet (quiet_writeFrame env s ⟨_, rfl, rfl⟩)
  | connect args =>
    refine .ofQuiet (quiet_connect env s fun body hbody => ⟨⟨MqttPacketType.connect.toByte, 0, body⟩, ?_, ?_⟩)
    · rw [Call.frame, hbody]; rfl
    · rw [format_eval (hwell body hbody).1]
  | connack sessionPresent returnCode => exact .ofQuiet (quiet_connack env s ⟨_, rfl, rfl⟩)
  | disconnect => exact .ofQuiet (quiet_disconnect env s ⟨_, rfl, rfl⟩)
  | writeFrame type flags body => exact .ofQuiet (quiet_writeFrame env s ⟨_, rfl, rfl⟩)
  | writeFramePacketId type id => exact .ofQuiet (quiet_writeFrame env s ⟨_, rfl, rfl⟩)
  | readFrame length => exact .ofQuiet (quiet_readFrame s length)
  | setStatus status => exact .ofQuiet (quiet_setStatus s status)
  | setObserver handler =>
    show CallEffect _ s (streamMqttSetObserver s handler)
    unfold streamMqttSetObserver
    split <;> exact ⟨rfl, rfl, .inr ⟨rfl, [], by simp, by simp⟩⟩
  | removeObserver => exact ⟨rfl, rfl, .inr ⟨rfl, [], by simp [step, streamMqttRemoveObserver], by simp⟩⟩

/-- Every call but `stream_time` adds to the history. -/
theorem CallEffect.trace {call : Call} {s s' : StreamMqtt} (h : CallEffect call s s') :
    ∃ es, s'.trace = s.trace ++ es := by
  rcases h.sends with ⟨item, f, -, -, -, q⟩ | ⟨-, es, ht, -⟩
  · rcases q.trace with ht | ht
    · exact ⟨[], by rw [ht, List.append_nil]⟩
    · exact ⟨_, ht⟩
  · exact ⟨es, ht⟩

end CMx.Mqtt
