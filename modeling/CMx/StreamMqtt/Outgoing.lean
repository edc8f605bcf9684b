/-
The outgoing queue, operation by operation: what is put into it and written, what the timer does
to its head, and what a received frame takes out of it.
-/
import CMx.StreamMqtt.Footprint

namespace CMx.Mqtt

/-! ## Sending -/

/-- A message is put at one end of the queue and written, or one of both. -/
structure Queues (item : MqttFrameItem) (s s' : StreamMqtt) : Prop where
  inbound : s'.inbound = s.inbound
  buffer : s'.buffer = s.buffer
  outgoing : s'.outgoing = s.outgoing ∨ s'.outgoing = s.outgoing ++ [item] ∨ s'.outgoing = item :: s.outgoing
  trace : s'.trace = s.trace ∨ s'.trace = s.trace ++ [.write (some item.ticket) item.buffer]

section Sending

variable (env : Env) (s : StreamMqtt)

/-- The item of a PUBLISH. -/
def publishItem (retain dup : Bool) (qos : UInt8) (id : UInt16) (topic : CString) (payload : Bytes) : MqttFrameItem :=
  mqttFrameItemNew .publish (publishFlags retain dup qos) id (publishBuffer retain dup qos id topic payload) s.nextTag

theorem queues_publish (retain dup : Bool) (qos : UInt8) (id : UInt16) (topic : CString) (payload : Bytes) :
    Queues (publishItem s retain dup qos id topic payload) s
      (streamMqttPublish env s retain dup qos id topic payload).2 := by
  unfold streamMqttPublish
  simp only
  split
  · split
    · exact ⟨rfl, rfl, .inr (.inl rfl), .inr rfl⟩
    · exact ⟨rfl, rfl, .inl rfl, .inr rfl⟩
  · exact ⟨rfl, rfl, .inr (.inl rfl), .inl rfl⟩

/-- A PUBLISH with an id is queued. -/
theorem outgoing_publish (retain dup : Bool) {qos : UInt8} (hq : qos > mqttQos0) (id : UInt16) (topic : CString)
    (payload : Bytes) :
    (streamMqttPublish env s retain dup qos id topic payload).2.outgoing =
      s.outgoing ++ [publishItem s retain dup qos id topic payload] := by
  unfold streamMqttPublish
  simp only [hq, if_true]
  split <;> rfl

theorem queues_sendOrQueue (type : MqttPacketType) (id : UInt16) (buffer : Bytes) :
    Queues (mqttFrameItemNew type (mqttQosToFlags mqttQos1) id buffer s.nextTag) s
      (streamMqttSendOrQueue env s type id buffer).2 := by
  unfold streamMqttSendOrQueue
  simp only
  split
  · exact ⟨rfl, rfl, .inr (.inl rfl), .inr rfl⟩
  · exact ⟨rfl, rfl, .inr (.inl rfl), .inl rfl⟩

/-- The item of a PUBREL. -/
def pubrelItem (id : UInt16) (tag : Nat) : MqttFrameItem :=
  mqttFrameItemNew .pubrel (mqttQosToFlags mqttQos1) id (pubrelBuffer id) tag

theorem queues_pubrel (id : UInt16) : Queues (pubrelItem id s.nextTag) s (streamMqttPubrel env s id).2 :=
  ⟨rfl, rfl, .inr (.inr rfl), .inr rfl⟩

end Sending

/-! ## The timer -/

/-- The head of the queue is written or abandoned, or nothing happens. -/
structure Ticks (s s' : StreamMqtt) : Prop where
  inbound : s'.inbound = s.inbound
  buffer : s'.buffer = s.buffer
  head : (s'.outgoing = s.outgoing ∧ s'.trace = s.trace) ∨
    ∃ item rest, s.outgoing = item :: rest ∧
      ((s'.outgoing = s.outgoing ∧ s'.trace = s.trace ++ [.write (some item.ticket) item.buffer]) ∨
        (s'.outgoing = rest ∧ s'.trace = s.trace ++ [.abandon item.tag]))

theorem Ticks.trace {s s' : StreamMqtt} (h : Ticks s s') : ∃ es, s'.trace = s.trace ++ es := by
  rcases h.head with ⟨-, ht⟩ | ⟨item, rest, -, ⟨-, ht⟩ | ⟨-, ht⟩⟩
  · exact ⟨[], by rw [ht, List.append_nil]⟩
  · exact ⟨_, ht⟩
  · exact ⟨_, ht⟩

theorem ticks_resendTime (env : Env) (s : StreamMqtt) : Ticks s (streamMqttResendTime env s) := by
  unfold streamMqttResendTime
  split
  · split
    · exact ⟨rfl, rfl, .inl ⟨rfl, rfl⟩⟩
    · rename_i item rest ho
      simp only
      split
      · exact ⟨rfl, rfl, .inr ⟨item, rest, ho, .inl ⟨rfl, rfl⟩⟩⟩
      · exact ⟨rfl, rfl, .inr ⟨item, rest, ho, .inr ⟨rfl, rfl⟩⟩⟩
  · exact ⟨rfl, rfl, .inl ⟨rfl, rfl⟩⟩

theorem ticks_sendTime (env : Env) (s : StreamMqtt) : Ticks s (streamMqttSendTime env s) := by
  unfold streamMqttSendTime
  split
  · exact ⟨rfl, rfl, .inl ⟨rfl, rfl⟩⟩
  · split
    · exact ⟨rfl, rfl, .inl ⟨rfl, rfl⟩⟩
    · rename_i item rest ho
      exact ⟨rfl, rfl, .inr ⟨item, rest, ho, .inl ⟨rfl, rfl⟩⟩⟩

/-! ## Received frames -/

section Handle

variable (env : Env) (s : StreamMqtt) (frame : MqttFixedHeader) (body : Mem)

/-- The history of an acknowledgement. -/
def ackEvents (type : MqttPacketType) (id : UInt16) : List Event :=
  if s.outgoing.any (MqttFrameItem.matches (mqttRequestType type) id) then [.acknowledge type id] else []

theorem acknowledge_spec (type : MqttPacketType) (id : UInt16) :
    (streamMqttAcknowledge s type id).outgoing = s.outgoing.filter (fun item => !item.matches (mqttRequestType type) id) ∧
      (streamMqttAcknowledge s type id).trace = s.trace ++ ackEvents s type id := by
  have hspec : streamMqttAcknowledge s type id =
      let s' := { s with outgoing := s.outgoing.filter fun item => !item.matches (mqttRequestType type) id }
      if s.outgoing.any (MqttFrameItem.matches (mqttRequestType type) id)
      then { s'.log (.acknowledge type id) with resendTimer := timerStop } else s' := rfl
  rw [hspec, ackEvents]
  by_cases h : s.outgoing.any (MqttFrameItem.matches (mqttRequestType type) id) = true
  · rw [if_pos h, if_pos h]
    exact ⟨rfl, rfl⟩
  · rw [if_neg h, if_neg h]
    exact ⟨rfl, (List.append_nil _).symm⟩

/-- The packets that answer a message in the queue. -/
def MqttPacketType.isAck : MqttPacketType → Bool
  | .suback | .unsuback | .puback | .pubrec | .pubcomp => true
  | _ => false

/-- Either the frame answers a message or it does not. -/
theorem isAck_or (type : UInt8) :
    (∃ t, MqttPacketType.ofByte type = some t ∧ t.isAck = true) ∨
      ∀ t, MqttPacketType.ofByte type = some t → t.isAck = false := by
  refine or_iff_not_imp_left.2 fun h t ht => ?_
  by_contra hack
  exact h ⟨t, ht, by simpa using hack⟩

theorem handle_ack {type : MqttPacketType} (h : MqttPacketType.ofByte frame.type = some type)
    (hack : type.isAck = true) :
    streamMqttHandleReceivedFrame env s frame body =
      streamMqttHandleAck env (s.log (.receive (recorded frame body))) frame body type := by
  unfold streamMqttHandleReceivedFrame
  rw [h]
  cases type with
  | suback | unsuback | puback | pubrec | pubcomp => rfl
  | _ => cases hack

/-- A frame that answers nothing leaves the queue alone. -/
theorem handle_unqueued {Q : Event → Prop} (hQ : Releases Q)
    (hwrite : ∀ (type : MqttPacketType) id, type = .puback ∨ type = .pubrec ∨ type = .pubcomp →
      Q (.write none (mqttFormatFrame type.toByte 0 (mqttPutShort id))))
    (hpingresp : MqttPacketType.ofByte frame.type = some .pingreq →
      Q (.write none (mqttFormatFrame MqttPacketType.pingresp.toByte 0 [])))
    (hack : ∀ type, MqttPacketType.ofByte frame.type = some type → type.isAck = false) :
    (streamMqttHandleReceivedFrame env s frame body).outgoing = s.outgoing ∧
      ∃ es, (streamMqttHandleReceivedFrame env s frame body).trace =
        (s.log (.receive (recorded frame body))).trace ++ es ∧ ∀ e ∈ es, Q e := by
  have hf := hQ.toForwards
  -- most handlers are quiet; the two with an answer of their own come first
  have quiet : ∀ {s'}, Quiet Q (s.log (.receive (recorded frame body))) s' →
      s'.outgoing = s.outgoing ∧
        ∃ es, s'.trace = (s.log (.receive (recorded frame body))).trace ++ es ∧ ∀ e ∈ es, Q e :=
    fun hq => ⟨hq.outgoing, hq.trace⟩
  by_cases hpub : MqttPacketType.ofByte frame.type = some .publish
  · rw [handle_publish env s body hpub]
    by_cases hqos : mqttQosFromFlags frame.flags = mqttQos2
    · rw [handlePublish_qos2 env _ frame body hqos]
      exact ⟨rfl, [_], rfl, by simpa using hwrite .pubrec _ (by simp)⟩
    · exact quiet (quiet_handlePublish env _ frame body hf (fun id => hwrite .puback id (by simp)) hqos)
  · by_cases hrel : MqttPacketType.ofByte frame.type = some .pubrel
    · rw [handle_pubrel env s body hrel]
      have hq := handlePubrel_quiet env (s.log (.receive (recorded frame body))) frame body hQ
      obtain ⟨es, ht, hes⟩ := hq.trace
      have hcomp := hwrite .pubcomp (shortAt body 0) (by simp)
      refine ⟨hq.outgoing, .write none _ :: es, ?_, List.forall_mem_cons.2 ⟨hcomp, hes⟩⟩
      rw [ht]
      simp [StreamMqtt.write, StreamMqtt.log]
    · unfold streamMqttHandleReceivedFrame
      simp only
      cases ht : MqttPacketType.ofByte frame.type with
      | none => exact quiet (.refl _)
      | some type =>
        cases type with
        | publish => exact absurd ht hpub
        | pubrel => exact absurd ht hrel
        | suback | unsuback | puback | pubrec | pubcomp => exact absurd (hack _ ht) (by simp [MqttPacketType.isAck])
        | connect => exact quiet (quiet_handleConnect env hf _ frame body)
        | connack => exact quiet (quiet_handleConnack env hf _ frame body)
        | subscribe => exact quiet (quiet_forward hf _ _ _ _ _ (by simp))
        | unsubscribe => exact quiet (quiet_forward hf _ _ _ _ _ (by simp))
        | pingreq => exact quiet (quiet_handlePingreq env (hpingresp ht) _)
        | pingresp => exact quiet (quiet_handlePingresp _)
        | disconnect => exact quiet (quiet_handleDisconnect hf _ frame)
        | forbidden => exact quiet (.refl _)

/-- A PUBREC: its PUBLISH goes, and a PUBREL takes the head of the queue. -/
theorem handlePubrec_spec :
    (streamMqttHandleAck env (s.log (.receive (recorded frame body))) frame body .pubrec).outgoing =
        pubrelItem (shortAt body 0) s.nextTag ::
          s.outgoing.filter (fun item => !item.matches .publish (shortAt body 0)) ∧
      (streamMqttHandleAck env (s.log (.receive (recorded frame body))) frame body .pubrec).trace =
        s.trace ++ (.receive (recorded frame body) :: ackEvents s .pubrec (shortAt body 0) ++
          [.write (some (pubrelItem (shortAt body 0) s.nextTag).ticket) (pubrelBuffer (shortAt body 0))]) := by
  obtain ⟨ho, ht⟩ := acknowledge_spec (s.log (.receive (recorded frame body))) .pubrec (shortAt body 0)
  have htag : (streamMqttAcknowledge (s.log (.receive (recorded frame body))) .pubrec (shortAt body 0)).nextTag =
      s.nextTag := by
    unfold streamMqttAcknowledge
    simp only
    split <;> rfl
  rw [handleAck_pubrec]
  constructor
  · show pubrelItem _ _ :: (streamMqttAcknowledge _ _ _).outgoing = _
    rw [ho, htag]
    rfl
  · show (streamMqttAcknowledge _ _ _).trace ++ [.write (some (pubrelItem _ _).ticket) (pubrelBuffer _)] = _
    rw [ht, htag]
    simp [StreamMqtt.log, ackEvents]

/-- No frame puts anything but a PUBREL into the queue. -/
theorem outgoing_handle :
    ∀ item ∈ (streamMqttHandleReceivedFrame env s frame body).outgoing,
      item ∈ s.outgoing ∨ ∃ id tag, item = pubrelItem id tag := by
  intro item hm
  rcases isAck_or frame.type with ⟨type, ht, hack⟩ | hother
  · rw [handle_ack env s frame body ht hack] at hm
    by_cases hrec : type = .pubrec
    · subst hrec
      rw [(handlePubrec_spec env s frame body).1] at hm
      rcases List.mem_cons.1 hm with hm | hm
      · exact .inr ⟨_, _, hm⟩
      · exact .inl (List.mem_of_mem_filter hm)
    · have hq := handleAck_quiet env releases_true.toForwards (s.log (.receive (recorded frame body))) frame body hrec
      rw [hq.outgoing, (acknowledge_spec _ _ _).1] at hm
      exact .inl (List.mem_of_mem_filter hm)
  · rw [(handle_unqueued env s frame body releases_true (fun _ _ _ => trivial) (fun _ => trivial) hother).1] at hm
    exact .inl hm

end Handle

end CMx.Mqtt
