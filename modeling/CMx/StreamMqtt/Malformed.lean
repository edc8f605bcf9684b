/-
Frames with an invalid body. The handler ignores what the parsers return, so such a frame is
handled like any other: it leaves the stream alone only where a valid frame of its type, with the
id that was read, would leave it alone too.
-/
import CMx.StreamMqtt.Sending

namespace CMx.Mqtt

/-- The queues, both timers and the status are as they were, and no observer has been called. -/
structure Untouched (s s' : StreamMqtt) : Prop where
  incoming : s'.incoming = s.incoming
  outgoing : s'.outgoing = s.outgoing
  inbound : s'.inbound = s.inbound
  keepAliveTimer : s'.keepAliveTimer = s.keepAliveTimer
  resendTimer : s'.resendTimer = s.resendTimer
  status : s'.status = s.status
  silent : ∀ note, .notify note ∉ s'.trace.drop s.trace.length

/-- A frame that finds nothing to do, by the id that its parser reads: an acknowledgement that no
outgoing message waits for, a PUBREL of nothing inbound, a QoS 2 PUBLISH that stands last in
`inbound` already. Every other type with fields always does something. -/
def FindsNothing (s : StreamMqtt) (header : MqttFixedHeader) (body : Mem) : Prop :=
  match MqttPacketType.ofByte header.type with
  | some .puback => ∀ item ∈ s.outgoing, item.matches .publish (shortAt body 0) = false
  | some .pubcomp => ∀ item ∈ s.outgoing, item.matches .pubrel (shortAt body 0) = false
  | some .pubrel => ∀ item ∈ s.inbound, item.id ≠ shortAt body 0
  | some .publish =>
    mqttQosFromFlags header.flags = mqttQos2 ∧
      ∃ front, s.inbound = front ++ [mqttFrameItemNew .publish header.flags (publishIdAt body) (frameBody header body)] ∧
        ∀ item ∈ front, item.matches .publish (publishIdAt body) = false
  | _ => False

/-! ## What touches a stream -/

/-- Forwarding calls the observer or queues the frame. -/
theorem touched_forward {s t : StreamMqtt} {type : MqttPacketType} {flags : UInt8} {msg : Msg} {body : Bytes}
    (u : Untouched s (streamMqttForward t type flags msg body)) (hi : t.incoming = s.incoming)
    (ht : s.trace <+: t.trace) : False := by
  obtain ⟨es, he⟩ := ht
  cases hobs : t.mqttObserver with
  | none =>
    have hin := u.incoming
    simp [streamMqttForward, streamMqttNotifyObserver, hobs, streamMqttDeliver, StreamMqtt.log, streamMqttAppendFrame,
      hi] at hin
  | some handler =>
    refine u.silent ⟨type, flags, msg, body⟩ ?_
    have hnotify : ∀ r : Bool × StreamMqtt, ∀ item, r.2.trace = s.trace ++ (es ++ [.notify ⟨type, flags, msg, body⟩]) →
        .notify ⟨type, flags, msg, body⟩ ∈ (streamMqttDeliver r item).trace.drop s.trace.length := by
      rintro ⟨handled, r⟩ item hr
      simp only at hr
      have htrace : (streamMqttDeliver (handled, r) item).trace =
          s.trace ++ (es ++ [.notify ⟨type, flags, msg, body⟩] ++ [.deliver item handled]) := by
        cases handled <;> simp [streamMqttDeliver, StreamMqtt.log, hr]
      rw [htrace, List.drop_left]
      simp
    refine hnotify _ _ ?_
    simp [streamMqttNotifyObserver, hobs, StreamMqtt.log, ← he]

/-- A SUBACK or UNSUBACK is forwarded in any case. -/
theorem touched_handleAck {s : StreamMqtt} (env : Env) (header : MqttFixedHeader) (body : Mem) (e : Event)
    {type : MqttPacketType} (ht : type = .suback ∨ type = .unsuback) :
    ¬ Untouched s (streamMqttHandleAck env (s.log e) header body type) := by
  have hi := acknowledge_incoming (s.log e) type (shortAt body 0)
  obtain ⟨es, he, -⟩ := (keeps_acknowledge (Q := fun _ => True) (s.log e) type (shortAt body 0) trivial).trace
  have hp' : s.trace <+: (streamMqttAcknowledge (s.log e) type (shortAt body 0)).trace :=
    (List.prefix_append _ _).trans ⟨es, he.symm⟩
  intro u
  rcases ht with rfl | rfl
  · exact touched_forward u hi hp'
  · exact touched_forward u hi hp'

/-- A PUBREC puts a new message in front of the outgoing queue. -/
theorem touched_pubrec {s : StreamMqtt} (h : Reachable s) (env : Env) (header : MqttFixedHeader) (body : Mem)
    (e : Event) (he : e.unqueued) : ¬ Untouched s (streamMqttHandleAck env (s.log e) header body .pubrec) := by
  intro u
  have hq := sendQueue_handlePubrec env (s.log e) header body
  have hlog : sendQueue (s.log e) = sendQueue s := by
    unfold Event.unqueued at he
    simp [sendQueue, StreamMqtt.log, he]
  rw [hlog] at hq
  -- the new message is the head, and its number is new
  have hhead : ⟨s.nextTag, true, (.pubrel, shortAt body 0)⟩ ∈ (sendQueue s).entries := by
    rw [show (sendQueue s).entries = s.outgoing.map MqttFrameItem.entry from rfl, ← u.outgoing]
    show _ ∈ (sendQueue (streamMqttHandleAck env (s.log e) header body .pubrec)).entries
    rw [hq]
    exact List.mem_cons_self ..
  exact absurd ((window_reachable h).issued _ hhead) (Nat.lt_irrefl _)

/-! ## What leaves a stream alone -/

/-- An acknowledgement that is not forwarded touches the stream exactly if it removes a message. -/
theorem untouched_acknowledge_iff {s : StreamMqtt} {e : Event} (he : ∀ note, e ≠ .notify note) (type : MqttPacketType)
    (id : UInt16) :
    Untouched s (streamMqttAcknowledge (s.log e) type id) ↔
      ∀ item ∈ s.outgoing, item.matches (mqttRequestType type) id = false := by
  constructor
  · intro u item hm
    have hout : (streamMqttAcknowledge (s.log e) type id).outgoing =
        s.outgoing.filter fun item => !item.matches (mqttRequestType type) id := by
      unfold streamMqttAcknowledge
      simp only
      split <;> rfl
    have hall := hout.symm.trans u.outgoing
    rw [List.filter_eq_self] at hall
    simpa using hall item hm
  · intro hno
    have hnone : s.outgoing.any (MqttFrameItem.matches (mqttRequestType type) id) = false := by
      rw [List.any_eq_false]
      intro item hm
      simp [hno item hm]
    have hsame : s.outgoing.filter (fun item => !item.matches (mqttRequestType type) id) = s.outgoing := by
      rw [List.filter_eq_self]
      intro item hm
      simp [hno item hm]
    have hs : streamMqttAcknowledge (s.log e) type id = s.log e := by
      simp only [streamMqttAcknowledge, streamMqttRemoveFrame, StreamMqtt.log, hnone, hsame, Bool.false_eq_true,
        if_false]
    rw [hs]
    refine ⟨rfl, rfl, rfl, rfl, rfl, rfl, fun note hm => ?_⟩
    simp only [StreamMqtt.log, List.drop_left, List.mem_singleton] at hm
    exact he note hm.symm

/-- A QoS 2 PUBLISH touches the stream unless it stands last in `inbound` already. -/
theorem untouched_publish_iff {s : StreamMqtt} (env : Env) (header : MqttFixedHeader) (body : Mem) {e : Event}
    (he : ∀ note, e ≠ .notify note) (hq : mqttQosFromFlags header.flags = mqttQos2) :
    Untouched s (streamMqttHandlePublish env (s.log e) header body) ↔
      ∃ front, s.inbound = front ++ [mqttFrameItemNew .publish header.flags (publishIdAt body) (frameBody header body)] ∧
        ∀ item ∈ front, item.matches .publish (publishIdAt body) = false := by
  rw [handlePublish_qos2 env _ header body hq]
  constructor
  · intro u
    refine ⟨_, u.inbound.symm, fun item hm => ?_⟩
    simpa using (List.mem_filter.1 hm).2
  · rintro ⟨front, hin, hfront⟩
    have hkept : (s.inbound.filter fun item => !item.matches .publish (publishIdAt body)) = front := by
      rw [hin, List.filter_append, List.filter_eq_self.2 fun item hm => by simp [hfront item hm]]
      simp [MqttFrameItem.matches, mqttFrameItemNew]
    refine ⟨rfl, rfl, ?_, rfl, rfl, rfl, fun note hm => ?_⟩
    · simp only [StreamMqtt.log]
      rw [hkept]
      exact hin.symm
    · simp only [StreamMqtt.write, StreamMqtt.log, List.append_assoc, List.drop_left, List.cons_append,
        List.nil_append, List.mem_cons, List.not_mem_nil, or_false, reduceCtorEq] at hm
      exact he note hm.symm

/-- A PUBREL touches the stream exactly if something inbound has its id. -/
theorem untouched_pubrel_iff {s : StreamMqtt} (env : Env) (header : MqttFixedHeader) (body : Mem) {e : Event}
    (he : ∀ note, e ≠ .notify note) :
    Untouched s (streamMqttHandlePubrel env (s.log e) header body) ↔ ∀ item ∈ s.inbound, item.id ≠ shortAt body 0 := by
  have loop : ∀ (kept rest : List MqttFrameItem) (t : StreamMqtt), (∀ item ∈ rest, item.id ≠ shortAt body 0) →
      streamMqttReleaseLoop env (shortAt body 0) kept rest t = t := by
    intro kept rest t hno
    induction rest generalizing kept with
    | nil => rfl
    | cons item rest ih =>
      unfold streamMqttReleaseLoop
      rw [if_neg (hno item (List.mem_cons_self ..))]
      exact ih (kept ++ [item]) fun x hx => hno x (List.mem_cons_of_mem _ hx)
  constructor
  · intro u item hm
    have hin := (handlePubrel_quiet env (s.log e) header body releases_unqueued).inbound
    have hall := hin.symm.trans u.inbound
    simp only [StreamMqtt.log] at hall
    rw [List.filter_eq_self] at hall
    simpa using hall item hm
  · intro hno
    have hs : streamMqttHandlePubrel env (s.log e) header body =
        (s.log e).write none (mqttFormatFrame MqttPacketType.pubcomp.toByte 0 (mqttPutShort (shortAt body 0))) :=
      loop [] s.inbound _ hno
    rw [hs]
    refine ⟨rfl, rfl, rfl, rfl, rfl, rfl, fun note hm => ?_⟩
    simp only [StreamMqtt.write, StreamMqtt.log, List.append_assoc, List.drop_left, List.cons_append,
      List.nil_append, List.mem_cons, List.not_mem_nil, or_false, reduceCtorEq] at hm
    exact he note hm.symm

/-! ## Invalid bodies -/

/-- A frame with an invalid body leaves the stream alone exactly if it finds nothing to do. -/
theorem malformed_untouched_iff {s : StreamMqtt} (h : Reachable s) (env : Env) {header : MqttFixedHeader} {body : Mem}
    (hv : validBody header body = false) :
    Untouched s (streamMqttHandleReceivedFrame env s header body) ↔ FindsNothing s header body := by
  have hp : s.trace <+: (s.log (.receive (recorded header body))).trace := List.prefix_append _ _
  have hlog : ∀ note, Event.receive (recorded header body) ≠ .notify note := by simp
  unfold streamMqttHandleReceivedFrame FindsNothing
  unfold validBody at hv
  simp only
  cases ht : MqttPacketType.ofByte header.type with
  | none => rw [ht] at hv; cases hv
  | some type =>
    rw [ht] at hv
    cases type with
    -- no fields, so no invalid body
    | forbidden => cases hv
    | pingreq => cases hv
    | pingresp => cases hv
    | disconnect => cases hv
    -- always forwarded
    | connect =>
      refine iff_of_false (fun u => ?_) id
      unfold streamMqttHandleConnect at u
      simp only at u
      split at u
      · exact touched_forward u rfl hp
      · exact touched_forward u rfl hp
    | connack =>
      refine iff_of_false (fun u => ?_) id
      unfold streamMqttHandleConnack at u
      simp only at u
      split at u
      · exact touched_forward u rfl hp
      · exact touched_forward u rfl hp
    | subscribe => exact iff_of_false (fun u => touched_forward u rfl hp) id
    | unsubscribe => exact iff_of_false (fun u => touched_forward u rfl hp) id
    | suback => exact iff_of_false (touched_handleAck env header body _ (.inl rfl)) id
    | unsuback => exact iff_of_false (touched_handleAck env header body _ (.inr rfl)) id
    | pubrec => exact iff_of_false (touched_pubrec h env header body _ rfl) id
    -- only where there is something to do
    | puback => exact untouched_acknowledge_iff hlog .puback (shortAt body 0)
    | pubcomp => exact untouched_acknowledge_iff hlog .pubcomp (shortAt body 0)
    | pubrel => exact untouched_pubrel_iff env header body hlog
    | publish =>
      by_cases hq : mqttQosFromFlags header.flags = mqttQos2
      · rw [untouched_publish_iff env header body hlog hq]
        simp only [hq, true_and]
      · refine iff_of_false (fun u => ?_) fun hn => hq hn.1
        unfold streamMqttHandlePublish at u
        simp only [hq, if_false] at u
        split at u
        · exact touched_forward u rfl (hp.trans (List.prefix_append _ _))
        · exact touched_forward u rfl hp

/-- A message waits in each queue: a PUBLISH with id 3 goes out, one with id 7 is held, one of QoS 0 has come. -/
def waitingCalls : List (Env × Call) :=
  timed [(0, .publish false false mqttQos1 3 topicA [0x78]),
    (0, .receive ⟨3, 4, 6⟩ (memOf [0, 1, 0x61, 0, 7, 0x78] fun _ => 0)),
    (0, .receive ⟨3, 0, 4⟩ (memOf [0, 1, 0x61, 0x79] fun _ => 0))]

/-- A PUBACK whose body has only the first byte of its id, and 9 behind it. -/
theorem malformed_untouched_puback :
    let s := run streamMqttInit waitingCalls
    (s.outgoing.map (·.id) = [3] ∧ s.inbound.map (·.id) = [7] ∧ s.incoming.length = 1) ∧
      Untouched s (streamMqttHandleReceivedFrame (Env.at 1) s ⟨4, 0, 1⟩ (memOf [0] fun _ => 9)) := by
  intro s
  refine ⟨⟨by decide +kernel, by decide +kernel, by decide +kernel⟩,
    (malformed_untouched_iff ⟨waitingCalls, rfl⟩ (Env.at 1) (by decide +kernel)).2 ?_⟩
  show ∀ item ∈ s.outgoing, item.matches .publish (shortAt (memOf [0] fun _ => 9) 0) = false
  decide +kernel

/-- A SUBSCRIBE with an empty body is queued for the application. -/
theorem malformed_touches : ¬ ∀ (s : StreamMqtt), Reachable s → ∀ (env : Env) (header : MqttFixedHeader) (body : Mem),
    validBody header body = false → Untouched s (streamMqttHandleReceivedFrame env s header body) := by
  intro h
  have hin := (h streamMqttInit ⟨[], rfl⟩ (Env.at 0) ⟨8, 2, 0⟩ (fun _ => 0) (by decide +kernel)).incoming
  exact absurd (congrArg List.length hin) (by decide +kernel)

end CMx.Mqtt
