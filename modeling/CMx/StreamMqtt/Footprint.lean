/-
What the operations of a stream leave alone. An operation is quiet when it keeps the exchanges in
progress (`outgoing`, `inbound`, the resend state) and only adds events of a given kind to the
history; every operation that neither sends, acknowledges nor holds a message is quiet, and a
received frame is handled in a quiet part and the few steps that are not.
-/
import CMx.Mqtt.Layout
import CMx.StreamMqtt.Receive

namespace CMx.Mqtt

/-! ## Quiet operations -/

/-- `s'` comes from `s` by quiet steps, whose events satisfy `Q`. -/
structure Quiet (Q : Event → Prop) (s s' : StreamMqtt) : Prop where
  outgoing : s'.outgoing = s.outgoing
  inbound : s'.inbound = s.inbound
  resendTimer : s'.resendTimer = s.resendTimer
  resendAttempts : s'.resendAttempts = s.resendAttempts
  nextTag : s'.nextTag = s.nextTag
  observer : s'.mqttObserver = s.mqttObserver
  buffer : s'.buffer = s.buffer
  trace : ∃ events, s'.trace = s.trace ++ events ∧ ∀ e ∈ events, Q e

section Quiet

variable {Q : Event → Prop} {s s' s'' : StreamMqtt}

theorem Quiet.refl (s : StreamMqtt) : Quiet Q s s :=
  ⟨rfl, rfl, rfl, rfl, rfl, rfl, rfl, [], by simp⟩

theorem Quiet.trans (h : Quiet Q s s') (h' : Quiet Q s' s'') : Quiet Q s s'' := by
  obtain ⟨es, he, hq⟩ := h.trace
  obtain ⟨es', he', hq'⟩ := h'.trace
  refine ⟨h'.outgoing.trans h.outgoing, h'.inbound.trans h.inbound, h'.resendTimer.trans h.resendTimer,
    h'.resendAttempts.trans h.resendAttempts, h'.nextTag.trans h.nextTag, h'.observer.trans h.observer,
    h'.buffer.trans h.buffer, es ++ es', ?_, ?_⟩
  · rw [he', he, List.append_assoc]
  · intro e hm
    exact (List.mem_append.1 hm).elim (hq e) (hq' e)

theorem quiet_log {e : Event} (h : Q e) (s : StreamMqtt) : Quiet Q s (s.log e) :=
  ⟨rfl, rfl, rfl, rfl, rfl, rfl, rfl, [e], rfl, by simpa using h⟩

end Quiet

/-! ## The quiet operations -/

section Operations

variable {Q : Event → Prop} (env : Env) (s : StreamMqtt)

theorem quiet_setStatus (status : StreamStatus) : Quiet Q s (streamMqttSetStatus s status) :=
  ⟨rfl, rfl, rfl, rfl, rfl, rfl, rfl, [], by simp [streamMqttSetStatus]⟩

theorem quiet_startKeepAliveTimer : Quiet Q s (s.startKeepAliveTimer env) :=
  ⟨rfl, rfl, rfl, rfl, rfl, rfl, rfl, [], by simp [StreamMqtt.startKeepAliveTimer]⟩

theorem quiet_readFrame (length : Nat) : Quiet Q s (streamMqttReadFrame s length).2 := by
  unfold streamMqttReadFrame
  split
  · exact .refl s
  · split
    · exact .refl s
    · exact ⟨rfl, rfl, rfl, rfl, rfl, rfl, rfl, [], by simp⟩

theorem quiet_writeFrame {type flags : UInt8} {body : Bytes}
    (h : Q (.write none (mqttFormatFrame type flags body))) :
    Quiet Q s (streamMqttWriteFrame env s type flags body).2 := quiet_log h s

theorem quiet_disconnect (h : Q (.write none (mqttFormatFrame MqttPacketType.disconnect.toByte 0 []))) :
    Quiet Q s (streamMqttDisconnect env s).2 := (quiet_writeFrame env s h).trans (quiet_setStatus _ _)

theorem quiet_connack {sessionPresent : Bool} {returnCode : UInt8}
    (h : Q (.write none (mqttFormatFrame MqttPacketType.connack.toByte 0
      (mqttFormatConnack sessionPresent returnCode)))) :
    Quiet Q s (streamMqttConnack env s sessionPresent returnCode).2 := by
  unfold streamMqttConnack
  simp only
  split
  · exact (quiet_setStatus s _).trans (quiet_writeFrame env _ h)
  · exact quiet_writeFrame env s h

theorem quiet_connect {args : MqttConnectArgs}
    (h : ∀ body, mqttFormatConnect args = some body →
      Q (.write none (mqttFormatFixedHeader MqttPacketType.connect.toByte 0 (mqttEvalConnect args) ++ body))) :
    Quiet Q s (((streamMqttConnect env s args).map (·.2)).getD s) := by
  unfold streamMqttConnect
  cases hbody : mqttFormatConnect args with
  | none => exact .refl s
  | some body => exact ⟨rfl, rfl, rfl, rfl, rfl, rfl, rfl, [_], rfl, by simpa using h body hbody⟩

theorem quiet_keepAliveTime (h : Q (.write none (mqttFormatFrame MqttPacketType.pingreq.toByte 0 []))) :
    Quiet Q s (streamMqttKeepAliveTime env s) := by
  unfold streamMqttKeepAliveTime
  split
  · split
    · split
      · exact ⟨rfl, rfl, rfl, rfl, rfl, rfl, rfl, [_], rfl, by simpa using h⟩
      · exact quiet_setStatus s _
    · exact quiet_setStatus s _
  · exact .refl s

variable {s}

/-- A QoS 2 PUBLISH. -/
def MqttFrameItem.isPublishQos2 (item : MqttFrameItem) : Prop :=
  item.type = .publish ∧ mqttQosFromFlags item.flags = mqttQos2

/-- Notes and deliveries are events of the kind, but for a QoS 2 PUBLISH, which is released. -/
structure Forwards (Q : Event → Prop) : Prop where
  notify : ∀ note, Q (.notify note)
  deliver : ∀ item byObserver, ¬ item.isPublishQos2 → Q (.deliver item byObserver)

/-- All deliveries are. -/
structure Releases (Q : Event → Prop) : Prop extends Forwards Q where
  release : ∀ item byObserver, Q (.deliver item byObserver)

theorem quiet_notifyObserver (hQ : Forwards Q) (note : Note) :
    Quiet Q s (streamMqttNotifyObserver s note).2 := by
  unfold streamMqttNotifyObserver
  split
  · exact .refl s
  · exact quiet_log (hQ.notify note) s

theorem quiet_deliver {r : Bool × StreamMqtt} (h : Quiet Q s r.2) {item : MqttFrameItem}
    (hd : ∀ byObserver, Q (.deliver item byObserver)) : Quiet Q s (streamMqttDeliver r item) := by
  obtain ⟨handled, t⟩ := r
  have hlog : Quiet Q s (t.log (.deliver item handled)) := h.trans (quiet_log (hd handled) t)
  unfold streamMqttDeliver
  cases handled with
  | true => exact hlog
  | false => exact hlog.trans ⟨rfl, rfl, rfl, rfl, rfl, rfl, rfl, [], by simp⟩

theorem quiet_forward (hQ : Forwards Q) (s : StreamMqtt) (type : MqttPacketType) (flags : UInt8) (msg : Msg)
    (body : Bytes) (h : type = .publish → mqttQosFromFlags flags ≠ mqttQos2) :
    Quiet Q s (streamMqttForward s type flags msg body) :=
  quiet_deliver (quiet_notifyObserver hQ _) fun _ => hQ.deliver _ _ fun hp => h hp.1 hp.2

theorem quiet_handleConnect (hQ : Forwards Q) (s : StreamMqtt) (frame : MqttFixedHeader) (body : Mem) :
    Quiet Q s (streamMqttHandleConnect env s frame body) := by
  unfold streamMqttHandleConnect
  simp only
  split
  · refine .trans ?_ (quiet_forward hQ _ _ _ _ _ (by simp))
    exact ⟨rfl, rfl, rfl, rfl, rfl, rfl, rfl, [], by simp [StreamMqtt.startKeepAliveTimer]⟩
  · exact quiet_forward hQ s _ _ _ _ (by simp)

theorem quiet_handleConnack (hQ : Forwards Q) (s : StreamMqtt) (frame : MqttFixedHeader) (body : Mem) :
    Quiet Q s (streamMqttHandleConnack env s frame body) := by
  unfold streamMqttHandleConnack
  simp only
  split
  · exact ((quiet_startKeepAliveTimer env s).trans (quiet_setStatus _ _)).trans (quiet_forward hQ _ _ _ _ _ (by simp))
  · exact quiet_forward hQ s _ _ _ _ (by simp)

theorem quiet_handlePingreq (h : Q (.write none (mqttFormatFrame MqttPacketType.pingresp.toByte 0 [])))
    (s : StreamMqtt) : Quiet Q s (streamMqttHandlePingreq env s) :=
  (quiet_writeFrame env s h).trans (quiet_startKeepAliveTimer env _)

theorem quiet_handlePingresp (s : StreamMqtt) : Quiet Q s (streamMqttHandlePingresp s) :=
  ⟨rfl, rfl, rfl, rfl, rfl, rfl, rfl, [], by simp [streamMqttHandlePingresp]⟩

theorem quiet_handleDisconnect (hQ : Forwards Q) (s : StreamMqtt) (frame : MqttFixedHeader) :
    Quiet Q s (streamMqttHandleDisconnect s frame) :=
  quiet_deliver (quiet_notifyObserver hQ _) fun _ => hQ.deliver _ _ (by simp [MqttFrameItem.isPublishQos2, mqttFrameItemNew])

/-- Behind the removal of the acknowledged message, and the PUBREL that answers a PUBREC, nothing
but forwarding is left. -/
theorem handleAck_quiet (hQ : Forwards Q) (s : StreamMqtt) (frame : MqttFixedHeader) (body : Mem)
    {type : MqttPacketType} (ht : type ≠ .pubrec) :
    Quiet Q (streamMqttAcknowledge s type (shortAt body 0)) (streamMqttHandleAck env s frame body type) := by
  cases type with
  | pubrec => exact absurd rfl ht
  | suback => exact quiet_forward hQ _ _ _ _ _ (by simp)
  | unsuback => exact quiet_forward hQ _ _ _ _ _ (by simp)
  | _ => exact .refl _

theorem handleAck_pubrec (s : StreamMqtt) (frame : MqttFixedHeader) (body : Mem) :
    streamMqttHandleAck env s frame body .pubrec =
      { ((streamMqttPubrel env (streamMqttAcknowledge s .pubrec (shortAt body 0)) (shortAt body 0)).2).startResendTimer
          env with resendAttempts := 0 } := rfl

end Operations

/-! ## The sending operations -/

/-- `s'` comes from `s` by steps that keep `inbound` and the reassembly buffer, with events that
satisfy `Q`. -/
structure Keeps (Q : Event → Prop) (s s' : StreamMqtt) : Prop where
  inbound : s'.inbound = s.inbound
  observer : s'.mqttObserver = s.mqttObserver
  buffer : s'.buffer = s.buffer
  trace : ∃ events, s'.trace = s.trace ++ events ∧ ∀ e ∈ events, Q e

section Sending

variable {Q : Event → Prop} {s s' s'' : StreamMqtt}

theorem Quiet.keeps (h : Quiet Q s s') : Keeps Q s s' := ⟨h.inbound, h.observer, h.buffer, h.trace⟩

theorem Keeps.trans (h : Keeps Q s s') (h' : Keeps Q s' s'') : Keeps Q s s'' := by
  obtain ⟨es, he, hq⟩ := h.trace
  obtain ⟨es', he', hq'⟩ := h'.trace
  refine ⟨h'.inbound.trans h.inbound, h'.observer.trans h.observer, h'.buffer.trans h.buffer, es ++ es', ?_, ?_⟩
  · rw [he', he, List.append_assoc]
  · intro e hm
    exact (List.mem_append.1 hm).elim (hq e) (hq' e)

theorem Keeps.refl (s : StreamMqtt) : Keeps Q s s := ⟨rfl, rfl, rfl, [], by simp⟩

/-- One event, and changes elsewhere. -/
theorem keeps_event {e : Event} (he : Q e) (hi : s'.inbound = s.inbound) (ho : s'.mqttObserver = s.mqttObserver)
    (hb : s'.buffer = s.buffer) (ht : s'.trace = s.trace ++ [e]) : Keeps Q s s' :=
  ⟨hi, ho, hb, [e], ht, by simpa using he⟩

theorem keeps_publish (env : Env) (s : StreamMqtt) (retain dup : Bool) (qos : UInt8) (id : UInt16) (topic : CString)
    (payload : Bytes) (hw : ∀ ticket, Q (.write (some ticket) (publishBuffer retain dup qos id topic payload))) :
    Keeps Q s (streamMqttPublish env s retain dup qos id topic payload).2 := by
  unfold streamMqttPublish
  simp only
  split
  · split
    · exact keeps_event (hw _) rfl rfl rfl rfl
    · exact keeps_event (hw _) rfl rfl rfl rfl
  · exact ⟨rfl, rfl, rfl, [], by simp⟩

theorem keeps_sendOrQueue (env : Env) (s : StreamMqtt) (type : MqttPacketType) (id : UInt16) (buffer : Bytes)
    (hw : ∀ ticket, Q (.write (some ticket) buffer)) :
    Keeps Q s (streamMqttSendOrQueue env s type id buffer).2 := by
  unfold streamMqttSendOrQueue
  simp only
  split
  · exact keeps_event (hw _) rfl rfl rfl rfl
  · exact ⟨rfl, rfl, rfl, [], by simp⟩

theorem keeps_pubrel (env : Env) (s : StreamMqtt) (id : UInt16)
    (hw : ∀ ticket, Q (.write (some ticket) (pubrelBuffer id))) : Keeps Q s (streamMqttPubrel env s id).2 :=
  keeps_event (hw _) rfl rfl rfl rfl

theorem keeps_acknowledge (s : StreamMqtt) (type : MqttPacketType) (id : UInt16) (hw : Q (.acknowledge type id)) :
    Keeps Q s (streamMqttAcknowledge s type id) := by
  unfold streamMqttAcknowledge
  simp only
  split
  · exact keeps_event hw rfl rfl rfl rfl
  · exact ⟨rfl, rfl, rfl, [], by simp⟩

/-- An acknowledgement leaves the queue of the application alone. -/
theorem acknowledge_incoming (s : StreamMqtt) (type : MqttPacketType) (id : UInt16) :
    (streamMqttAcknowledge s type id).incoming = s.incoming := by
  unfold streamMqttAcknowledge
  simp only
  split <;> rfl

theorem keeps_resendTime (env : Env) (s : StreamMqtt)
    (hw : ∀ item ∈ s.outgoing, Q (.write (some item.ticket) item.buffer)) (ha : ∀ tag, Q (.abandon tag)) :
    Keeps Q s (streamMqttResendTime env s) := by
  unfold streamMqttResendTime
  split
  · split
    · exact .refl s
    · rename_i item rest ho
      simp only
      split
      · exact keeps_event (hw item (by rw [ho]; exact List.mem_cons_self ..)) rfl rfl rfl rfl
      · exact keeps_event (ha _) rfl rfl rfl rfl
  · exact .refl s

theorem keeps_sendTime (env : Env) (s : StreamMqtt)
    (hw : ∀ item ∈ s.outgoing, Q (.write (some item.ticket) item.buffer)) :
    Keeps Q s (streamMqttSendTime env s) := by
  unfold streamMqttSendTime
  split
  · exact .refl s
  · split
    · exact .refl s
    · rename_i item rest ho
      exact keeps_event (hw item (by rw [ho]; exact List.mem_cons_self ..)) rfl rfl rfl rfl

/-- The timer only takes items off the queue. -/
theorem outgoing_resendTime (env : Env) (s : StreamMqtt) :
    ∀ item ∈ (streamMqttResendTime env s).outgoing, item ∈ s.outgoing := by
  unfold streamMqttResendTime
  intro item
  split
  · split
    · exact id
    · rename_i head rest ho
      simp only
      split
      · exact id
      · intro h
        rw [ho]; exact List.mem_cons_of_mem _ h
  · exact id

theorem keeps_doTime (env : Env) (s : StreamMqtt)
    (hping : Q (.write none (mqttFormatFrame MqttPacketType.pingreq.toByte 0 [])))
    (hw : ∀ item ∈ s.outgoing, Q (.write (some item.ticket) item.buffer)) (ha : ∀ tag, Q (.abandon tag)) :
    Keeps Q s (streamMqttDoTime env s).2 := by
  have hk := quiet_keepAliveTime (Q := Q) env s hping
  have hw' : ∀ item ∈ (streamMqttKeepAliveTime env s).outgoing, Q (.write (some item.ticket) item.buffer) := by
    rw [hk.outgoing]; exact hw
  refine (hk.keeps.trans (keeps_resendTime env _ hw' ha)).trans (keeps_sendTime env _ ?_)
  exact fun item hm => hw' item (outgoing_resendTime env _ item hm)

end Sending

/-! ## Publish and its release -/

section Inbound

variable {Q : Event → Prop} (env : Env) (s : StreamMqtt) (frame : MqttFixedHeader) (body : Mem)

theorem handlePublish_qos2 (h : mqttQosFromFlags frame.flags = mqttQos2) :
    streamMqttHandlePublish env s frame body =
      { s.write none (mqttFormatFrame MqttPacketType.pubrec.toByte 0 (mqttPutShort (publishIdAt body))) with
        inbound := (s.inbound.filter fun item => !item.matches .publish (publishIdAt body)) ++
          [mqttFrameItemNew .publish frame.flags (publishIdAt body) (frameBody frame body)] } := by
  have hq : mqttQos2 > mqttQos0 := by decide
  unfold streamMqttHandlePublish
  simp only [h, value_mqttParsePublish, hq, if_true]
  rfl

theorem quiet_handlePublish (hQ : Forwards Q)
    (hack : ∀ id, Q (.write none (mqttFormatFrame MqttPacketType.puback.toByte 0 (mqttPutShort id))))
    (h : mqttQosFromFlags frame.flags ≠ mqttQos2) : Quiet Q s (streamMqttHandlePublish env s frame body) := by
  unfold streamMqttHandlePublish
  simp only [h, if_false]
  split
  · exact (quiet_writeFrame env s (hack _)).trans (quiet_forward hQ _ _ _ _ _ fun _ => h)
  · exact quiet_forward hQ s _ _ _ _ fun _ => h

/-- The release of one item touches only `incoming` and the history. -/
theorem quiet_release (hQ : Releases Q) (item : MqttFrameItem) : Quiet Q s (streamMqttRelease env s item) := by
  unfold streamMqttRelease
  split
  · exact quiet_deliver (quiet_notifyObserver hQ.toForwards _) (hQ.release item)
  · exact quiet_deliver (.refl s) (hQ.release item)

/-- The release loop takes the items with the id out of `inbound` and otherwise forwards. -/
theorem releaseLoop_quiet (hQ : Releases Q) (id : UInt16) : ∀ (kept rest : List MqttFrameItem) (s : StreamMqtt),
    s.inbound = kept ++ rest →
    Quiet Q { s with inbound := kept ++ rest.filter (fun item => item.id ≠ id) }
      (streamMqttReleaseLoop env id kept rest s)
  | kept, [], s, h => by
    rw [List.append_nil] at h
    simp only [List.filter_nil, List.append_nil, ← h]
    exact .refl s
  | kept, item :: rest, s, h => by
    unfold streamMqttReleaseLoop
    by_cases hid : item.id = id
    · rw [if_pos hid, List.filter_cons_of_neg (by simpa using hid)]
      have hq : Quiet Q { s with inbound := kept ++ rest }
          (streamMqttRelease env { s with inbound := kept ++ rest } item) := quiet_release env _ hQ item
      refine .trans ?_ (releaseLoop_quiet hQ id kept rest _ hq.inbound)
      obtain ⟨es, he, hes⟩ := hq.trace
      exact ⟨hq.outgoing, rfl, hq.resendTimer, hq.resendAttempts, hq.nextTag, hq.observer, hq.buffer, es, he, hes⟩
    · rw [if_neg hid, List.filter_cons_of_pos (by simpa using hid)]
      have := releaseLoop_quiet hQ id (kept ++ [item]) rest s (by rw [h]; simp)
      simpa using this

/-- A PUBREL is answered, and what it releases leaves `inbound`. -/
theorem handlePubrel_quiet (hQ : Releases Q) :
    Quiet Q { s.write none (mqttFormatFrame MqttPacketType.pubcomp.toByte 0 (mqttPutShort (shortAt body 0))) with
        inbound := s.inbound.filter (fun item => item.id ≠ shortAt body 0) }
      (streamMqttHandlePubrel env s frame body) :=
  releaseLoop_quiet env hQ (shortAt body 0) [] s.inbound _ rfl

end Inbound

/-! ## A received frame -/

/-- The events with which a received frame is handled that neither fills nor empties `inbound`. -/
structure Answers (Q : Event → Prop) : Prop extends Forwards Q where
  puback : ∀ id, Q (.write none (mqttFormatFrame MqttPacketType.puback.toByte 0 (mqttPutShort id)))
  pubrel : ∀ ticket id, Q (.write (some ticket) (pubrelBuffer id))
  pingresp : Q (.write none (mqttFormatFrame MqttPacketType.pingresp.toByte 0 []))
  acknowledge : ∀ type id, Q (.acknowledge type id)

theorem keeps_handleAck {Q : Event → Prop} (hQ : Answers Q) (env : Env) (s : StreamMqtt) (frame : MqttFixedHeader)
    (body : Mem) (type : MqttPacketType) : Keeps Q s (streamMqttHandleAck env s frame body type) := by
  have hack := keeps_acknowledge (Q := Q) s type (shortAt body 0) (hQ.acknowledge _ _)
  by_cases ht : type = .pubrec
  · subst ht
    rw [handleAck_pubrec]
    refine (hack.trans (keeps_pubrel env _ (shortAt body 0) (hQ.pubrel · _))).trans ?_
    exact ⟨rfl, rfl, rfl, [], by simp [StreamMqtt.startResendTimer]⟩
  · exact hack.trans (handleAck_quiet env hQ.toForwards s frame body ht).keeps

theorem releases_true : Releases fun _ => True := ⟨⟨fun _ => trivial, fun _ _ _ => trivial⟩, fun _ _ => trivial⟩

theorem answers_true : Answers fun _ => True :=
  ⟨releases_true.toForwards, fun _ => trivial, fun _ _ => trivial, trivial, fun _ _ => trivial⟩

/-- A frame that is no QoS 2 PUBLISH and no PUBREL. -/
theorem keeps_handle {Q : Event → Prop} (hQ : Answers Q) (env : Env) (s : StreamMqtt) (frame : MqttFixedHeader)
    (body : Mem)
    (hpub : MqttPacketType.ofByte frame.type = some .publish → mqttQosFromFlags frame.flags ≠ mqttQos2)
    (hrel : MqttPacketType.ofByte frame.type ≠ some .pubrel) :
    Keeps Q (s.log (.receive (recorded frame body))) (streamMqttHandleReceivedFrame env s frame body) := by
  have hf := hQ.toForwards
  unfold streamMqttHandleReceivedFrame
  simp only
  cases ht : MqttPacketType.ofByte frame.type with
  | none => exact .refl _
  | some type =>
    cases type with
    | pubrel => exact absurd ht hrel
    | publish => exact (quiet_handlePublish env _ frame body hf hQ.puback (hpub ht)).keeps
    | connect => exact (quiet_handleConnect env hf _ frame body).keeps
    | connack => exact (quiet_handleConnack env hf _ frame body).keeps
    | subscribe => exact (quiet_forward hf _ _ _ _ _ (by simp)).keeps
    | unsubscribe => exact (quiet_forward hf _ _ _ _ _ (by simp)).keeps
    | suback => exact keeps_handleAck hQ env _ frame body _
    | unsuback => exact keeps_handleAck hQ env _ frame body _
    | puback => exact keeps_handleAck hQ env _ frame body _
    | pubrec => exact keeps_handleAck hQ env _ frame body _
    | pubcomp => exact keeps_handleAck hQ env _ frame body _
    | pingreq => exact (quiet_handlePingreq env hQ.pingresp _).keeps
    | pingresp => exact (quiet_handlePingresp _).keeps
    | disconnect => exact (quiet_handleDisconnect hf _ frame).keeps
    | forbidden => exact .refl _

theorem handle_pubrel (env : Env) (s : StreamMqtt) {frame : MqttFixedHeader} (body : Mem)
    (h : MqttPacketType.ofByte frame.type = some .pubrel) :
    streamMqttHandleReceivedFrame env s frame body =
      streamMqttHandlePubrel env (s.log (.receive (recorded frame body))) frame body := by
  unfold streamMqttHandleReceivedFrame
  rw [h]

theorem handle_publish (env : Env) (s : StreamMqtt) {frame : MqttFixedHeader} (body : Mem)
    (h : MqttPacketType.ofByte frame.type = some .publish) :
    streamMqttHandleReceivedFrame env s frame body =
      streamMqttHandlePublish env (s.log (.receive (recorded frame body))) frame body := by
  unfold streamMqttHandleReceivedFrame
  rw [h]

/-- Whatever the frame, it is recorded, and the reassembly buffer and the observer stay. -/
theorem handle_frame (env : Env) (s : StreamMqtt) (frame : MqttFixedHeader) (body : Mem) :
    (streamMqttHandleReceivedFrame env s frame body).buffer = s.buffer ∧
      (streamMqttHandleReceivedFrame env s frame body).mqttObserver = s.mqttObserver ∧
      ∃ es, (streamMqttHandleReceivedFrame env s frame body).trace = s.trace ++ .receive (recorded frame body) :: es := by
  by_cases hrel : MqttPacketType.ofByte frame.type = some .pubrel
  · rw [handle_pubrel env s body hrel]
    have hq := handlePubrel_quiet env (s.log (.receive (recorded frame body))) frame body releases_true
    obtain ⟨es, ht, -⟩ := hq.trace
    exact ⟨hq.buffer, hq.observer, _, by rw [ht]; simp [StreamMqtt.write, StreamMqtt.log]; rfl⟩
  · by_cases hpub : MqttPacketType.ofByte frame.type = some .publish ∧ mqttQosFromFlags frame.flags = mqttQos2
    · rw [handle_publish env s body hpub.1, handlePublish_qos2 env _ frame body hpub.2]
      exact ⟨rfl, rfl, _, by simp [StreamMqtt.write, StreamMqtt.log]; rfl⟩
    · have hk := keeps_handle answers_true env s frame body (fun h h' => hpub ⟨h, h'⟩) hrel
      obtain ⟨es, ht, -⟩ := hk.trace
      exact ⟨hk.buffer, hk.observer, es, by rw [ht]; simp [StreamMqtt.log]⟩

end CMx.Mqtt
