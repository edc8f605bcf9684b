/-
What a received packet does to the outgoing queue: which messages it removes, and whether the
PUBREL it may cause is the only one with its id. A packet removes by packet type and id alone, so it
can remove a message it does not answer, and every PUBREC inserts a PUBREL, so a repeated one
inserts a second.
-/
import CMx.StreamMqtt.Outgoing
import CMx.StreamMqtt.Sending

namespace CMx.Mqtt

/-! ## Removal -/

/-- Messages in the queue have been numbered. -/
theorem tag_lt_nextTag {s : StreamMqtt} (h : Reachable s) {item : MqttFrameItem} (hm : item ∈ s.outgoing) :
    item.tag < s.nextTag :=
  (window_reachable h).issued item.entry (List.mem_map_of_mem hm)

/-- A PUBREL is written when it enters the queue. -/
theorem transmitted_pubrel {s : StreamMqtt} (h : Reachable s) {item : MqttFrameItem} (hm : item ∈ s.outgoing)
    (ht : item.type = .pubrel) : item.tag ∈ transmitted s.trace := by
  obtain ⟨calls, rfl⟩ := h
  have hu := ResendQueue.run_urgentSent mqttResendAttempts (runActs streamMqttInit calls)
  rw [← sendQueue_init, ← sendQueue_run] at hu
  rw [← sentTags_queueEvent]
  exact hu item.entry (List.mem_map_of_mem hm) (by simp [MqttFrameItem.entry, ht])

/-- A transmitted message of the application is the first one in the queue. -/
theorem find_of_transmitted {s : StreamMqtt} (h : Reachable s) {item : MqttFrameItem} (hm : item ∈ s.outgoing)
    (ht : item.type ≠ .pubrel) (hsent : item.tag ∈ transmitted s.trace) :
    s.outgoing.find? (·.type ≠ .pubrel) = some item := by
  obtain ⟨calls, rfl⟩ := h
  obtain ⟨front, behind, ho⟩ := List.append_of_mem hm
  rw [List.find?_eq_some_iff_append]
  refine ⟨by simpa using ht, front, behind, ho, fun other hother => ?_⟩
  -- behind another one it would be waiting
  by_contra hne
  obtain ⟨front', behind', rfl⟩ := List.append_of_mem hother
  have hw := (sendWindow calls).1 front' other (behind' ++ item :: behind) (by rw [ho]; simp) (by simpa using hne)
  exact hw item (by simp) hsent

section Removal

variable {s : StreamMqtt} (env : Env) {frame : MqttFixedHeader} (body : Mem) {type : MqttPacketType}

/-- A message leaves the queue on a packet exactly if the type and the id match. -/
theorem not_mem_handle_ack (h : Reachable s) (ht : MqttPacketType.ofByte frame.type = some type)
    (hack : type.isAck = true) {item : MqttFrameItem} (hm : item ∈ s.outgoing) :
    item ∉ (streamMqttHandleReceivedFrame env s frame body).outgoing ↔
      item.type = mqttRequestType type ∧ item.id = shortAt body 0 := by
  rw [handle_ack env s frame body ht hack]
  by_cases hrec : type = .pubrec
  · subst hrec
    rw [(handlePubrec_spec env s frame body).1]
    have hne : item ≠ pubrelItem (shortAt body 0) s.nextTag := fun he =>
      Nat.lt_irrefl _ (he ▸ tag_lt_nextTag h hm : (pubrelItem (shortAt body 0) s.nextTag).tag < s.nextTag)
    simp [List.mem_filter, hm, hne, mqttRequestType, MqttFrameItem.matches]
  · have hq := handleAck_quiet env releases_true.toForwards (s.log (.receive (recorded frame body))) frame body hrec
    rw [hq.outgoing, (acknowledge_spec _ _ _).1]
    simp [List.mem_filter, StreamMqtt.log, hm, MqttFrameItem.matches]

end Removal

/-- The QoS of the PUBLISH that a packet answers. -/
def answeredQos : MqttPacketType → Option UInt8
  | .puback => some mqttQos1
  | .pubrec => some mqttQos2
  | _ => none

/-- A packet answers the messages with a type and a QoS that the response to has its type. -/
theorem mqttResponseType_iff {type : MqttPacketType} (hack : type.isAck = true) (qos : UInt8) :
    mqttResponseType (mqttRequestType type) qos = type ↔ ∀ q, answeredQos type = some q → qos = q := by
  cases type with
  | puback =>
    simp only [mqttResponseType, mqttRequestType, answeredQos, Option.some.injEq, forall_eq']
    split
    · simpa
    · split <;> simpa
  | pubrec =>
    simp only [mqttResponseType, mqttRequestType, answeredQos, Option.some.injEq, forall_eq']
    split
    · rename_i hq
      simp [hq, mqttQos1, mqttQos2]
    · split <;> simpa
  | suback | unsuback | pubcomp => simp [mqttResponseType, mqttRequestType, answeredQos]
  | _ => cases hack

/-- Of the messages with the type and the id that a packet answers, the queue holds none but the
first message of the application, and that one has been transmitted, with the answered QoS. -/
def AnswersFirst (s : StreamMqtt) (type : MqttPacketType) (id : UInt16) : Prop :=
  ∀ item ∈ s.outgoing, item.type = mqttRequestType type → item.id = id →
    s.outgoing.find? (·.type ≠ .pubrel) = some item ∧ item.tag ∈ transmitted s.trace ∧
      ∀ qos, answeredQos type = some qos → mqttQosFromFlags item.flags = qos

/-- Whatever a received SUBACK, UNSUBACK, PUBACK, PUBREC or PUBCOMP removes has its id, has been
transmitted and is answered by it, exactly if it is a PUBCOMP or answers the first message. -/
theorem removes_answered_iff {s : StreamMqtt} (h : Reachable s) (env : Env) {frame : MqttFixedHeader} (body : Mem)
    {type : MqttPacketType} (ht : MqttPacketType.ofByte frame.type = some type) (hack : type.isAck = true) :
    (∀ item ∈ s.outgoing, item ∉ (streamMqttHandleReceivedFrame env s frame body).outgoing →
      item.id = shortAt body 0 ∧ item.tag ∈ transmitted s.trace ∧
        mqttResponseType item.type (mqttQosFromFlags item.flags) = type) ↔
    type = .pubcomp ∨ AnswersFirst s type (shortAt body 0) := by
  constructor
  · intro hall
    refine or_iff_not_imp_left.2 fun hcomp item hm htype hid => ?_
    obtain ⟨-, hsent, hresp⟩ := hall item hm ((not_mem_handle_ack env body h ht hack hm).2 ⟨htype, hid⟩)
    rw [htype] at hresp
    have hrel : item.type ≠ .pubrel := by
      rw [htype]
      cases type <;> simp_all [mqttRequestType]
    exact ⟨find_of_transmitted h hm hrel hsent, hsent, (mqttResponseType_iff hack _).1 hresp⟩
  · intro hcond item hm hout
    obtain ⟨htype, hid⟩ := (not_mem_handle_ack env body h ht hack hm).1 hout
    rcases hcond with rfl | hfirst
    · exact ⟨hid, transmitted_pubrel h hm htype, by rw [htype]; rfl⟩
    · obtain ⟨-, hsent, hqos⟩ := hfirst item hm htype hid
      refine ⟨hid, hsent, ?_⟩
      rw [htype]
      exact (mqttResponseType_iff hack _).2 hqos

/-- A SUBACK of the only message. -/
theorem removes_answered_suback :
    let s := run streamMqttInit (timed [(0, .subscribe 1 topicA 0)])
    ∀ item ∈ s.outgoing,
      item ∉ (streamMqttHandleReceivedFrame (Env.at 1) s ⟨9, 0, 3⟩ (memOf [0, 1, 0] fun _ => 0)).outgoing →
      item.id = 1 ∧ item.tag ∈ transmitted s.trace ∧
        mqttResponseType item.type (mqttQosFromFlags item.flags) = .suback := by
  intro s
  have hiff := @removes_answered_iff s ⟨_, rfl⟩ (Env.at 1) ⟨9, 0, 3⟩ (memOf [0, 1, 0] fun _ => 0) .suback rfl rfl
  refine hiff.2 (.inr fun item hm _ _ => ?_)
  obtain rfl := List.mem_singleton.1 (show item ∈ [s.outgoing.head (by decide)] from hm)
  exact ⟨by decide, by decide, fun qos hq => by cases hq⟩

/-- A PUBACK removes a QoS 0 message that waits behind a SUBSCRIBE. -/
theorem removes_waiting : ¬ ∀ (s : StreamMqtt), Reachable s → ∀ (env : Env) (frame : MqttFixedHeader) (body : Mem)
    (type : MqttPacketType), MqttPacketType.ofByte frame.type = some type → type.isAck = true →
      ∀ item ∈ s.outgoing, item ∉ (streamMqttHandleReceivedFrame env s frame body).outgoing →
        item.id = shortAt body 0 ∧ item.tag ∈ transmitted s.trace ∧
          mqttResponseType item.type (mqttQosFromFlags item.flags) = type := by
  intro h
  have hremoved := h (run streamMqttInit (timed [(0, .subscribe 1 topicA 0), (0, .publish false false 0 7 topicA [0x78])]))
    ⟨_, rfl⟩ (Env.at 1) ⟨4, 0, 2⟩ (memOf [0, 7] fun _ => 0) .puback rfl rfl
  exact absurd hremoved (by decide +kernel)

/-! ## Repeated PUBRECs -/

/-- The types and ids in the outgoing queue. -/
def queuedKeys (s : StreamMqtt) : List Key := s.outgoing.map fun item => (item.type, item.id)

/-- The application submits no message whose type and id are in the queue. -/
def SubmitsNew (s : StreamMqtt) (_ : Env) : Call → Prop
  | .publish _ _ _ id _ _ => (.publish, id) ∉ queuedKeys s
  | .subscribe id _ _ => (.subscribe, id) ∉ queuedKeys s
  | .unsubscribe id _ => (.unsubscribe, id) ∉ queuedKeys s
  | .pubrel id => (.pubrel, id) ∉ queuedKeys s
  | _ => True

/-- No PUBREC comes while a PUBREL with its id is in the queue. -/
def PubrecNew (s : StreamMqtt) (_ : Env) : Call → Prop
  | .receive header body =>
    MqttPacketType.ofByte header.type = some .pubrec → (.pubrel, shortAt body 0) ∉ queuedKeys s
  | _ => True

theorem keys_sendQueue (s : StreamMqtt) : (sendQueue s).entries.map (·.key) = queuedKeys s := by
  simp [sendQueue, queuedKeys, MqttFrameItem.entry]

theorem distinct_sendQueue (s : StreamMqtt) : ResendQueue.Distinct (sendQueue s) ↔ (queuedKeys s).Nodup := by
  rw [ResendQueue.Distinct, keys_sendQueue]

/-- A PUBREC removes no PUBREL. -/
theorem newKey_pubrec (s : StreamMqtt) (id : UInt16) :
    ResendQueue.NewKey (sendQueue s) (.exchange (ackKey .pubrec id) (.pubrel, id)) ↔
      (.pubrel, id) ∉ queuedKeys s := by
  have hkeys : (.pubrel, id) ∈ ((sendQueue s).acknowledge (ackKey .pubrec id)).entries.map (·.key) ↔
      (.pubrel, id) ∈ (sendQueue s).entries.map (·.key) := by
    simp only [ResendQueue.State.acknowledge, List.mem_map, List.mem_filter]
    constructor
    · rintro ⟨e, ⟨he, -⟩, hk⟩
      exact ⟨e, he, hk⟩
    · rintro ⟨e, he, hk⟩
      exact ⟨e, ⟨he, by simp [hk, ackKey, mqttRequestType]⟩, hk⟩
  rw [ResendQueue.NewKey, hkeys, keys_sendQueue]

/-- A step keeps the keys distinct exactly if it is no repeated PUBREC. -/
theorem distinct_step_iff {s : StreamMqtt} (env : Env) {call : Call} (d : ResendQueue.Distinct (sendQueue s))
    (hnew : SubmitsNew s env call) :
    ResendQueue.Distinct (sendQueue (step s env call)) ↔ PubrecNew s env call := by
  rw [sendQueue_step]
  have keeps : ∀ a, ResendQueue.NewKey (sendQueue s) a →
      ResendQueue.Distinct (ResendQueue.run mqttResendAttempts (sendQueue s) [a]) :=
    fun a ha => ResendQueue.distinct_step _ _ a d ha
  cases call with
  | publish retain dup qos id topic payload =>
    exact iff_of_true (keeps _ (by rw [ResendQueue.NewKey, keys_sendQueue]; exact hnew)) trivial
  | subscribe id topic qos =>
    exact iff_of_true (keeps _ (by rw [ResendQueue.NewKey, keys_sendQueue]; exact hnew)) trivial
  | unsubscribe id topic =>
    exact iff_of_true (keeps _ (by rw [ResendQueue.NewKey, keys_sendQueue]; exact hnew)) trivial
  | pubrel id =>
    exact iff_of_true (keeps _ (by rw [ResendQueue.NewKey, keys_sendQueue]; exact hnew)) trivial
  | time =>
    refine iff_of_true ?_ trivial
    simp only [acts]
    split
    · exact ResendQueue.distinct_step mqttResendAttempts _ .kick (keeps .timeout trivial) trivial
    · exact keeps .kick trivial
  | receive header body =>
    simp only [acts, PubrecNew]
    cases ht : MqttPacketType.ofByte header.type with
    | none => simpa [receiveActs] using d
    | some type =>
      cases type with
      | pubrec =>
        refine (ResendQueue.distinct_exchange_iff mqttResendAttempts d _ _).trans ((newKey_pubrec s _).trans ?_)
        exact ⟨fun hn _ => hn, fun hn => hn rfl⟩
      | suback | unsuback | puback | pubcomp => exact iff_of_true (keeps (.ack _) trivial) (by simp)
      | _ => exact iff_of_true d (by simp)
  | _ => exact iff_of_true d trivial

/-- If the application submits no message whose type and id are in the queue, all types and ids in
the queue differ at every moment of a run, exactly if no PUBREC comes while a PUBREL with its id is
in the queue. -/
theorem queuedKeys_nodup_iff {calls : List (Env × Call)} (h : RunAll SubmitsNew streamMqttInit calls) :
    (∀ calls', calls' <+: calls → (queuedKeys (run streamMqttInit calls')).Nodup) ↔
      RunAll PubrecNew streamMqttInit calls := by
  have hiff := runAll_iff (I := fun s => ResendQueue.Distinct (sendQueue s))
    (fun s env call hnew d => distinct_step_iff env d hnew) h List.nodup_nil
  simpa only [distinct_sendQueue] using hiff

/-- A QoS 2 message, its PUBREC and its PUBCOMP. -/
theorem queuedKeys_nodup_pubcomp :
    let calls := timed [(0, .publish false false 2 7 topicA [0x78]), (1, .receive ⟨5, 0, 2⟩ (memOf [0, 7] fun _ => 0)),
      (2, .receive ⟨7, 0, 2⟩ (memOf [0, 7] fun _ => 0))]
    ∀ calls', calls' <+: calls → (queuedKeys (run streamMqttInit calls')).Nodup := by
  intro calls
  have hnew : RunAll SubmitsNew streamMqttInit calls := ⟨List.not_mem_nil, trivial, trivial, trivial⟩
  refine (queuedKeys_nodup_iff hnew).2 ⟨trivial, fun _ => ?_, fun h => ?_, trivial⟩
  · decide +kernel
  · cases h

/-- A PUBREC that comes twice. -/
def repeatedPubrec : List (Env × Call) :=
  timed [(0, .publish false false 2 7 topicA [0x78]), (1, .receive ⟨5, 0, 2⟩ (memOf [0, 7] fun _ => 0)),
    (2, .receive ⟨5, 0, 2⟩ (memOf [0, 7] fun _ => 0))]

theorem queuedKeys_repeated : ¬ ∀ calls : List (Env × Call), RunAll SubmitsNew streamMqttInit calls →
    (queuedKeys (run streamMqttInit calls)).Nodup := by
  intro h
  exact absurd (h repeatedPubrec ⟨List.not_mem_nil, trivial, trivial, trivial⟩) (by decide +kernel)

end CMx.Mqtt
