/-
One endpoint, whatever its application does and whatever frames come: it answers every request once
and in order, with the packet that belongs to it, and delivers every message of QoS 0 and 1 when it
comes.
-/
import CMx.Net.Link

namespace CMx.Mqtt

/-! ## Requests and answers -/

namespace Frame

/-- PINGREQ, PINGRESP and DISCONNECT. -/
def bare (type : MqttPacketType) : Frame := ⟨type.toByte, 0, []⟩

/-- The packet with which a frame is answered at once. -/
def answer (f : Frame) : Option Frame :=
  if f.isType .publish then
    if mqttQosFromFlags f.flags = mqttQos1 then some (ofId .puback f.publishId)
    else if mqttQosFromFlags f.flags = mqttQos2 then some (ofId .pubrec f.publishId)
    else none
  else if f.isType .pubrel then some (ofId .pubcomp f.packetId)
  else if f.isType .pingreq then some (bare .pingresp)
  else none

/-- A packet of this kind. -/
def isAnswer (f : Frame) : Bool :=
  f.isType .puback ∨ f.isType .pubrec ∨ f.isType .pubcomp ∨ f.isType .pingresp

/-- What a PUBLISH of QoS 0 or 1 is delivered as. -/
def directItem (f : Frame) : Option MqttFrameItem :=
  if f.isType .publish ∧ mqttQosFromFlags f.flags ≠ mqttQos2 then some (mqttFrameItemNew .publish f.flags 0 f.body)
  else none

/-- The packets that an exchange relies on are valid, and a PUBLISH is one of the application's. -/
structure Sound (published : Frame → Prop) (f : Frame) : Prop where
  valid : f.isType .publish ∨ f.isType .pubrel ∨ f.isType .puback → f.valid = true
  publish : f.isType .publish → published f

theorem bare_proper (type : MqttPacketType) : (bare type).Proper :=
  ⟨MqttPacketType.toByte_lt type, show (0 : UInt8) < 16 by decide, Nat.zero_le _⟩

theorem bare_isType (type : MqttPacketType) : (bare type).isType type := MqttPacketType.ofByte_toByte type

/-- Which types are answers. -/
theorem isType.isAnswer {f : Frame} {type : MqttPacketType} (h : f.isType type) :
    f.isAnswer = decide (type = .puback ∨ type = .pubrec ∨ type = .pubcomp ∨ type = .pingresp) := by
  unfold Frame.isAnswer
  simp only [h.iff]

/-- A frame of a type that has no answer. -/
theorem isType.answer {f : Frame} {type : MqttPacketType} (h : f.isType type)
    (ht : type ≠ .publish ∧ type ≠ .pubrel ∧ type ≠ .pingreq) : f.answer = none := by
  unfold Frame.answer
  rw [if_neg (h.ne ht.1), if_neg (h.ne ht.2.1), if_neg (h.ne ht.2.2)]

theorem isType.directItem {f : Frame} {type : MqttPacketType} (h : f.isType type) (ht : type ≠ .publish) :
    f.directItem = none := by
  unfold Frame.directItem
  rw [if_neg fun hc => h.ne ht hc.1]

variable {published : Frame → Prop}

/-- A frame of a type that no exchange relies on. -/
theorem isType.sound {f : Frame} {type : MqttPacketType} (h : f.isType type)
    (ht : type ≠ .publish ∧ type ≠ .pubrel ∧ type ≠ .puback) : f.Sound published := by
  constructor
  · rintro (hc | hc | hc)
    · exact absurd hc (h.ne ht.1)
    · exact absurd hc (h.ne ht.2.1)
    · exact absurd hc (h.ne ht.2.2)
  · exact fun hc => absurd hc (h.ne ht.1)

/-- So are the packets with an id. -/
theorem ofId_sound {type : MqttPacketType} (ht : ∀ flags, bodyParser type flags = some (.varHeaderId ⟨0⟩))
    (hne : type ≠ .publish) (id : UInt16) : (ofId type id).Sound published :=
  ⟨fun _ => ofId_valid id ht, fun hc => absurd hc ((ofId_isType type id).ne hne)⟩

/-- The packets with which frames are answered. -/
theorem answer_spec {f g : Frame} (h : f.answer = some g) : g.Proper ∧ g.Sound published ∧ g.isAnswer = true := by
  have ofId : ∀ {type : MqttPacketType} {id : UInt16}, type = .puback ∨ type = .pubrec ∨ type = .pubcomp →
      (Frame.ofId type id).Proper ∧ (Frame.ofId type id).Sound published ∧ (Frame.ofId type id).isAnswer = true := by
    rintro type id (rfl | rfl | rfl)
    · exact ⟨ofId_proper _ _, ofId_sound (fun _ => rfl) (by decide) _, (ofId_isType _ _).isAnswer⟩
    · exact ⟨ofId_proper _ _, ofId_sound (fun _ => rfl) (by decide) _, (ofId_isType _ _).isAnswer⟩
    · exact ⟨ofId_proper _ _, ofId_sound (fun _ => rfl) (by decide) _, (ofId_isType _ _).isAnswer⟩
  unfold Frame.answer at h
  split at h
  · split at h
    · cases h
      exact ofId (by decide)
    · split at h
      · cases h
        exact ofId (by decide)
      · cases h
  · split at h
    · cases h
      exact ofId (by decide)
    · split at h
      · cases h
        exact ⟨bare_proper _, (bare_isType _).sound (by decide), (bare_isType _).isAnswer⟩
      · cases h

theorem directItem_spec {f : Frame} {item : MqttFrameItem} (h : f.directItem = some item) :
    item.type = .publish ∧ mqttQosFromFlags item.flags ≠ mqttQos2 := by
  unfold Frame.directItem at h
  split at h
  · rename_i hdirect
    cases h
    exact ⟨rfl, hdirect.2⟩
  · cases h

end Frame

/-- The messages of QoS 0 and 1 that have been delivered. -/
def direct (es : List Event) : List MqttFrameItem :=
  ((deliveries es).map (·.1)).filter fun item => item.type = .publish ∧ mqttQosFromFlags item.flags ≠ mqttQos2

@[simp] theorem direct_append (es es' : List Event) : direct (es ++ es') = direct es ++ direct es' := by
  unfold direct
  rw [deliveries_append, List.map_append, List.filter_append]

/-! ## Handling a frame -/

/-- A frame is recorded, `answers` are written and `items` are delivered. -/
structure Handles (f : Frame) (answers : List Frame) (items : List MqttFrameItem) (s s' : StreamMqtt) : Prop where
  events : ∃ es, s'.trace = s.trace ++ .receive f :: es ∧ written es = answers.map Frame.format ∧ received es = [] ∧
    (deliveries es).map (·.1) = items

section Handles

variable {f : Frame} {answers : List Frame} {items : List MqttFrameItem} {s s' : StreamMqtt}

/-- Deliveries and nothing else. -/
theorem Delivers.handles (h : Delivers items (s.log (.receive f)) s') : Handles f [] items s s' := by
  obtain ⟨es, ht, hw, hr, hd, -⟩ := h
  exact ⟨es, by rw [ht]; simp [StreamMqtt.log], hw, hr, hd⟩

/-- One packet is written, and deliveries follow. -/
theorem Delivers.handles_write {g : Frame} {t : StreamMqtt} (ht : t.trace = s.trace ++ [.receive f, .write none g.format])
    (h : Delivers items t s') : Handles f [g] items s s' := by
  obtain ⟨es, ht', hw, hr, hd, -⟩ := h
  refine ⟨.write none g.format :: es, ?_, ?_, ?_, ?_⟩
  · rw [ht', ht]
    simp
  · show g.format :: written es = _
    rw [hw]
    rfl
  · exact hr
  · exact hd

/-- Deliveries do not look at what changes neither the history nor the incoming queue. -/
theorem Delivers.congr {t : StreamMqtt} (ht : t.trace = s.trace) (hi : t.incoming = s.incoming)
    (h : Delivers items t s') : Delivers items s s' := by
  unfold Delivers at h ⊢
  rwa [ht, hi] at h

theorem delivers_forward (s : StreamMqtt) (type : MqttPacketType) (flags : UInt8) (msg : Msg) (body : Bytes) :
    Delivers [mqttFrameItemNew type flags 0 body] s (streamMqttForward s type flags msg body) := by
  unfold streamMqttForward streamMqttNotifyObserver
  split
  · exact delivers_deliver [] _ (by simp) rfl (by simp)
  · exact delivers_deliver [_] _ rfl rfl (by simp)

end Handles

section Types

variable (env : Env) (s : StreamMqtt) {frame : MqttFixedHeader} {body : Mem}

/-- The id of a PUBLISH that has one. -/
theorem publishId_recorded (ht : (recorded frame body).isType .publish) (hq : mqttQosFromFlags frame.flags > mqttQos0)
    (hv : (recorded frame body).valid = true) : publishIdAt body = (recorded frame body).publishId := by
  obtain ⟨h, -⟩ := fields_of_valid ht rfl hv
  rw [fieldsReach_publish, recorded_length] at h
  unfold publishReach at h
  rw [if_pos (show mqttQosFromFlags (recorded frame body).flags > mqttQos0 from hq)] at h
  exact (recorded_agree.symm.publishIdAt_eq h).symm

/-- A QoS 1 PUBLISH is acknowledged and forwarded. -/
theorem handlePublish_qos1 (s : StreamMqtt) (h : mqttQosFromFlags frame.flags = mqttQos1) :
    ∃ msg, streamMqttHandlePublish env s frame body =
      streamMqttForward (s.write none (Frame.ofId .puback (publishIdAt body)).format) .publish frame.flags msg
        (frameBody frame body) := by
  have hq : mqttQos1 > mqttQos0 := by decide
  have hne : mqttQos1 ≠ mqttQos2 := by decide
  unfold streamMqttHandlePublish
  simp only [h, hne, if_false, if_true, value_mqttParsePublish, hq]
  exact ⟨_, rfl⟩

/-- One of QoS 0, or with both bits set, is forwarded. -/
theorem handlePublish_qos0 (s : StreamMqtt) (h1 : mqttQosFromFlags frame.flags ≠ mqttQos1)
    (h2 : mqttQosFromFlags frame.flags ≠ mqttQos2) :
    ∃ msg, streamMqttHandlePublish env s frame body =
      streamMqttForward s .publish frame.flags msg (frameBody frame body) := by
  unfold streamMqttHandlePublish
  simp only [h1, h2, if_false]
  exact ⟨_, rfl⟩

theorem handles_publish (ht : (recorded frame body).isType .publish) (hv : (recorded frame body).valid = true) :
    Handles (recorded frame body) (recorded frame body).answer.toList (recorded frame body).directItem.toList s
      (streamMqttHandleReceivedFrame env s frame body) := by
  rw [handle_publish env s body ht]
  unfold Frame.answer Frame.directItem
  rw [if_pos ht]
  by_cases h2 : mqttQosFromFlags frame.flags = mqttQos2
  · have hid := publishId_recorded ht (by rw [h2]; decide) hv
    have hne : mqttQos2 ≠ mqttQos1 := by decide
    rw [handlePublish_qos2 env _ frame body h2, hid]
    simp only [show (recorded frame body).flags = frame.flags from rfl, h2, hne, if_false, if_true, ne_eq,
      not_true_eq_false, and_false, Option.toList]
    refine ⟨[.write none (Frame.ofId .pubrec (recorded frame body).publishId).format], ?_, rfl, rfl, rfl⟩
    simp [StreamMqtt.log, StreamMqtt.write]
    rfl
  · have hdirect : (recorded frame body).isType .publish ∧ mqttQosFromFlags (recorded frame body).flags ≠ mqttQos2 :=
      ⟨ht, h2⟩
    rw [if_pos hdirect]
    by_cases h1 : mqttQosFromFlags frame.flags = mqttQos1
    · have hid := publishId_recorded ht (by rw [h1]; decide) hv
      obtain ⟨msg, hmsg⟩ := @handlePublish_qos1 env frame body (s.log (.receive (recorded frame body))) h1
      rw [hmsg, hid, if_pos (show mqttQosFromFlags (recorded frame body).flags = mqttQos1 from h1)]
      exact Delivers.handles_write (by simp [StreamMqtt.log, StreamMqtt.write]) (delivers_forward _ _ _ _ _)
    · obtain ⟨msg, hmsg⟩ := @handlePublish_qos0 env frame body (s.log (.receive (recorded frame body))) h1 h2
      rw [hmsg, if_neg (show mqttQosFromFlags (recorded frame body).flags ≠ mqttQos1 from h1),
        if_neg (show mqttQosFromFlags (recorded frame body).flags ≠ mqttQos2 from h2)]
      exact (delivers_forward _ _ _ _ _).handles

theorem handles_pubrel (ht : (recorded frame body).isType .pubrel) (hv : (recorded frame body).valid = true) :
    Handles (recorded frame body) [.ofId .pubcomp (recorded frame body).packetId]
      (s.inbound.filter fun item => item.id = (recorded frame body).packetId) s
      (streamMqttHandleReceivedFrame env s frame body) := by
  have hid := packetId_eq ht rfl hv
  rw [handle_pubrel env s body ht, ← hid]
  have hloop := releaseLoop_delivers env (shortAt body 0) [] s.inbound
    ((s.log (.receive (recorded frame body))).write none (Frame.ofId .pubcomp (shortAt body 0)).format)
  exact Delivers.handles_write (by simp [StreamMqtt.log, StreamMqtt.write]) hloop

/-- What a packet that answers a message leaves to write: a PUBREL behind a PUBREC. -/
theorem handles_ack {type : MqttPacketType} (ht : (recorded frame body).isType type) (hack : type.isAck = true) :
    ∃ answers items, Handles (recorded frame body) answers items s (streamMqttHandleReceivedFrame env s frame body) ∧
      (answers = [] ∨ answers = [.ofId .pubrel (shortAt body 0)]) ∧ ∀ item ∈ items, item.type ≠ .publish := by
  have hacks : ∀ type, written (ackEvents s type (shortAt body 0)) = [] ∧
      received (ackEvents s type (shortAt body 0)) = [] ∧ deliveries (ackEvents s type (shortAt body 0)) = [] := by
    intro type
    unfold ackEvents
    split <;> exact ⟨rfl, rfl, rfl⟩
  rw [handle_ack env s frame body ht hack]
  by_cases hrec : type = .pubrec
  · subst hrec
    obtain ⟨-, htrace⟩ := handlePubrec_spec env s frame body
    obtain ⟨hw, hr, hd⟩ := hacks .pubrec
    rw [List.cons_append] at htrace
    refine ⟨_, [], ⟨_, htrace, ?_, ?_, ?_⟩, .inr rfl, by simp⟩
    · rw [written_append, hw]
      rfl
    · rw [received_append, hr]
      rfl
    · rw [deliveries_append, hd]
      rfl
  -- the others remove a frame, and then forward an item or nothing
  · obtain ⟨-, htrace⟩ := acknowledge_spec (s.log (.receive (recorded frame body))) type (shortAt body 0)
    have htrace : (streamMqttAcknowledge (s.log (.receive (recorded frame body))) type (shortAt body 0)).trace =
        s.trace ++ .receive (recorded frame body) :: ackEvents s type (shortAt body 0) := by
      rw [htrace]
      simp [StreamMqtt.log, ackEvents]
    have hbehind : ∃ items, Delivers items
        (streamMqttAcknowledge (s.log (.receive (recorded frame body))) type (shortAt body 0))
          (streamMqttHandleAck env (s.log (.receive (recorded frame body))) frame body type) ∧
        ∀ item ∈ items, item.type ≠ .publish := by
      cases type with
      | pubrec => exact absurd rfl hrec
      | suback => exact ⟨_, delivers_forward _ _ _ _ _, by simp [mqttFrameItemNew]⟩
      | unsuback => exact ⟨_, delivers_forward _ _ _ _ _, by simp [mqttFrameItemNew]⟩
      | puback | pubcomp => exact ⟨[], .nil _, by simp⟩
      | _ => cases hack
    obtain ⟨items, ⟨es, hes, hw, hr, hd, -⟩, hitems⟩ := hbehind
    obtain ⟨hw', hr', hd'⟩ := hacks type
    refine ⟨[], items, ⟨ackEvents s type (shortAt body 0) ++ es, ?_, ?_, ?_, ?_⟩, .inl rfl, hitems⟩
    · rw [hes, htrace]
      simp
    · rw [written_append, hw, hw']
      rfl
    · rw [received_append, hr, hr']
      rfl
    · rw [deliveries_append, hd', List.nil_append, hd]

/-- The other types: a PINGREQ is answered, and nothing that is delivered is a PUBLISH. -/
theorem handles_other (hpub : ¬ (recorded frame body).isType .publish) (hrel : ¬ (recorded frame body).isType .pubrel)
    (hack : ∀ type, MqttPacketType.ofByte frame.type = some type → type.isAck = false) :
    ∃ items, Handles (recorded frame body) (recorded frame body).answer.toList items s
      (streamMqttHandleReceivedFrame env s frame body) ∧ ∀ item ∈ items, item.type ≠ .publish := by
  unfold Frame.answer
  rw [if_neg hpub, if_neg hrel]
  by_cases hping : (recorded frame body).isType .pingreq
  · rw [if_pos hping]
    refine ⟨[], ⟨[.write none (Frame.bare .pingresp).format], ?_, rfl, rfl, rfl⟩, by simp⟩
    unfold streamMqttHandleReceivedFrame
    rw [show MqttPacketType.ofByte frame.type = some .pingreq from hping]
    simp [streamMqttHandlePingreq, streamMqttPingresp, streamMqttWriteFrame, streamMqttRealWrite, StreamMqtt.write,
      StreamMqtt.log, StreamMqtt.startKeepAliveTimer, Frame.bare, Frame.format]
  · rw [if_neg hping]
    -- most types forward one item, which is no PUBLISH
    have forwarded : ∀ {t t' : StreamMqtt} {type : MqttPacketType} {flags : UInt8} {bytes : Bytes}, type ≠ .publish →
        t.trace = (s.log (.receive (recorded frame body))).trace →
        t.incoming = (s.log (.receive (recorded frame body))).incoming →
        Delivers [mqttFrameItemNew type flags 0 bytes] t t' →
        ∃ items, Handles (recorded frame body) [] items s t' ∧ ∀ item ∈ items, item.type ≠ .publish := by
      intro t t' type flags bytes hne htrace hincoming hd
      refine ⟨_, (hd.congr htrace hincoming).handles, fun item hm => ?_⟩
      rw [List.mem_singleton.1 hm]
      exact hne
    have nothing : ∀ {t' : StreamMqtt}, t'.trace = (s.log (.receive (recorded frame body))).trace →
        ∃ items, Handles (recorded frame body) [] items s t' ∧ ∀ item ∈ items, item.type ≠ .publish := by
      intro t' htrace
      exact ⟨[], ⟨[], htrace, rfl, rfl, rfl⟩, by simp⟩
    show ∃ items, Handles (recorded frame body) [] items s (streamMqttHandleReceivedFrame env s frame body) ∧ _
    unfold streamMqttHandleReceivedFrame
    simp only
    cases ht : MqttPacketType.ofByte frame.type with
    | none => exact nothing rfl
    | some type =>
      cases type with
      | publish => exact absurd ht hpub
      | pubrel => exact absurd ht hrel
      | pingreq => exact absurd ht hping
      | suback | unsuback | puback | pubrec | pubcomp => exact absurd (hack _ ht) (by simp [MqttPacketType.isAck])
      | connect =>
        simp only [streamMqttHandleConnect]
        split
        · exact forwarded (by decide) rfl rfl (delivers_forward _ _ _ _ _)
        · exact forwarded (by decide) rfl rfl (delivers_forward _ _ _ _ _)
      | connack =>
        simp only [streamMqttHandleConnack]
        split
        · exact forwarded (by decide) rfl rfl (delivers_forward _ _ _ _ _)
        · exact forwarded (by decide) rfl rfl (delivers_forward _ _ _ _ _)
      | subscribe => exact forwarded (by decide) rfl rfl (delivers_forward _ _ _ _ _)
      | unsubscribe => exact forwarded (by decide) rfl rfl (delivers_forward _ _ _ _ _)
      | pingresp => exact nothing rfl
      | disconnect =>
        have hd : Delivers [mqttFrameItemNew .disconnect frame.flags 0 [0]] (s.log (.receive (recorded frame body)))
            (streamMqttHandleDisconnect (s.log (.receive (recorded frame body))) frame) := by
          unfold streamMqttHandleDisconnect streamMqttNotifyObserver
          split
          · exact delivers_deliver [] _ (by simp) rfl (by simp)
          · exact delivers_deliver [_] _ rfl rfl (by simp)
        exact forwarded (by decide) rfl rfl hd
      | forbidden => exact nothing rfl

end Types

/-! ## Sending -/

/-- All that waits in the queue are frames of the kind `P`. -/
def Waiting (P : Frame → Prop) (s : StreamMqtt) : Prop :=
  ∀ item ∈ s.outgoing, ∃ f : Frame, f.Proper ∧ P f ∧ item.buffer = f.format

/-- A frame of the kind `P` is written, or a message is abandoned. -/
def Event.Sending (P : Frame → Prop) : Event → Prop
  | .write _ data => ∃ f : Frame, f.Proper ∧ P f ∧ data = f.format
  | .abandon _ => True
  | _ => False

/-- `s'` comes from `s` by writing frames of the kind `P`. -/
def SendsAll (P : Frame → Prop) (s s' : StreamMqtt) : Prop :=
  ∃ es, s'.trace = s.trace ++ es ∧ ∀ e ∈ es, e.Sending P

section Sending

variable {P : Frame → Prop} {s s' s'' : StreamMqtt}

theorem SendsAll.one {e : Event} (ht : s'.trace = s.trace ++ [e]) (he : e.Sending P) : SendsAll P s s' :=
  ⟨[e], ht, by simpa using he⟩

theorem SendsAll.nothing (ht : s'.trace = s.trace) : SendsAll P s s' := ⟨[], by rw [ht, List.append_nil], by simp⟩

theorem SendsAll.trans (h : SendsAll P s s') (h' : SendsAll P s' s'') : SendsAll P s s'' := by
  obtain ⟨es, ht, hes⟩ := h
  obtain ⟨es', ht', hes'⟩ := h'
  exact ⟨es ++ es', by rw [ht', ht, List.append_assoc], List.forall_mem_append.2 ⟨hes, hes'⟩⟩

/-- A message is queued, written, or both. -/
theorem Queues.sendsAll {item : MqttFrameItem} (q : Queues item s s') (h : Waiting P s)
    (hitem : ∃ f : Frame, f.Proper ∧ P f ∧ item.buffer = f.format) : SendsAll P s s' ∧ Waiting P s' := by
  constructor
  · rcases q.trace with ht | ht
    · exact .nothing ht
    · exact .one ht hitem
  · rintro other hm
    rcases q.outgoing with ho | ho | ho
    · exact h other (ho ▸ hm)
    · rw [ho, List.mem_append, List.mem_singleton] at hm
      rcases hm with hm | rfl
      · exact h other hm
      · exact hitem
    · rw [ho, List.mem_cons] at hm
      rcases hm with rfl | hm
      · exact hitem
      · exact h other hm

/-- The timer writes the head of the queue or drops it. -/
theorem Ticks.sendsAll (q : Ticks s s') (h : Waiting P s) : SendsAll P s s' ∧ Waiting P s' := by
  unfold Waiting at h ⊢
  rcases q.head with ⟨ho, ht⟩ | ⟨item, rest, ho, ⟨ho', ht⟩ | ⟨ho', ht⟩⟩
  · exact ⟨.nothing ht, by rwa [ho]⟩
  · have hitem := h item (by rw [ho]; exact List.mem_cons_self ..)
    exact ⟨.one ht hitem, by rwa [ho']⟩
  · refine ⟨.one ht trivial, ?_⟩
    rw [ho']
    rintro other hm
    exact h other (by rw [ho]; exact List.mem_cons_of_mem _ hm)

/-- `stream_time` writes what is queued, and PINGREQs. -/
theorem doTime_sendsAll (env : Env) (hping : P (.bare .pingreq)) (h : Waiting P s) :
    SendsAll P s (streamMqttDoTime env s).2 ∧ Waiting P (streamMqttDoTime env s).2 := by
  have hquiet := quiet_keepAliveTime (Q := fun e => e.Sending P) env s
    ⟨.bare .pingreq, Frame.bare_proper .pingreq, hping, rfl⟩
  obtain ⟨es, ht, hes⟩ := hquiet.trace
  have hkeep : Waiting P (streamMqttKeepAliveTime env s) := by
    unfold Waiting
    rwa [hquiet.outgoing]
  obtain ⟨hresend, hwait⟩ := (ticks_resendTime env _).sendsAll hkeep
  obtain ⟨hsend, hwait⟩ := (ticks_sendTime env _).sendsAll hwait
  exact ⟨SendsAll.trans ⟨es, ht, hes⟩ (hresend.trans hsend), hwait⟩

/-- A call writes and queues its frame. -/
theorem call_sendsAll (env : Env) {call : Call} (hwell : call.WellFormed) (hP : ∀ f, call.frame = some f → P f)
    (hping : P (.bare .pingreq)) (h : Waiting P s) : SendsAll P s (step s env call) ∧ Waiting P (step s env call) := by
  by_cases htime : call = .time
  · subst htime
    exact doTime_sendsAll env hping h
  · rcases (call_effect s env hwell htime).sends with ⟨item, f, -, hf, hbuffer, q⟩ | ⟨ho, es, ht, hes⟩
    · exact q.sendsAll h ⟨f, (call_frame hwell hf).1, hP f hf, hbuffer⟩
    · constructor
      · refine ⟨es, ht, ?_⟩
        rintro e he
        obtain ⟨f, hf, rfl⟩ := hes e he
        exact ⟨f, (call_frame hwell hf).1, hP f hf, rfl⟩
      · unfold Waiting
        rwa [ho]

end Sending

/-! ## One endpoint -/

/-- The frames that a stream has written. -/
def sent (s : StreamMqtt) : List Frame := framesOf (written s.trace).flatten

/-- What holds of an endpoint at any time: it queues no answers, the messages it holds are of QoS 2, it has
written sound frames, it has answered each request once and in order, it has delivered each message of QoS 0
and 1 when it came, and a PUBACK has come for what it has acknowledged. -/
structure Endpoint (published : Frame → Prop) (s : StreamMqtt) : Prop where
  waiting : Waiting (fun f => f.Sound published ∧ f.isAnswer = false) s
  holds : ∀ item ∈ s.inbound, item.isPublishQos2
  writes : ∃ fs : List Frame, written s.trace = fs.map Frame.format ∧ ∀ f ∈ fs, f.Proper ∧ f.Sound published
  answers : (sent s).filter Frame.isAnswer = (received s.trace).filterMap Frame.answer
  delivers : direct s.trace = (received s.trace).filterMap Frame.directItem
  acknowledges : ∀ id, .acknowledge .puback id ∈ s.trace → ∃ f ∈ received s.trace, f.isType .puback ∧ f.packetId = id

section Endpoint

variable {published : Frame → Prop} {s s' : StreamMqtt}

theorem framesOf_format {fs : List Frame} (h : ∀ f ∈ fs, f.Proper) : framesOf (fs.map Frame.format).flatten = fs := by
  unfold framesOf
  rw [← List.flatMap_def, drain_format h]

/-- Frames that are written behind the others. -/
theorem sent_append {fs gs : List Frame} (hs : written s.trace = fs.map Frame.format) (hfs : ∀ f ∈ fs, f.Proper)
    (h : Sends gs s s') : sent s' = sent s ++ gs := by
  obtain ⟨⟨es, ht, hw⟩, hgs⟩ := h
  unfold sent
  rw [ht, written_append, hs, hw, ← List.map_append, framesOf_format hfs,
    framesOf_format (List.forall_mem_append.2 ⟨hfs, hgs⟩)]

theorem Endpoint.idle (h : s.Idle) : Endpoint published s where
  waiting := by
    unfold Waiting
    rw [h.outgoing]
    simp
  holds := by
    rw [h.inbound]
    simp
  writes := ⟨[], by rw [h.trace]; rfl, by simp⟩
  answers := by
    unfold sent
    rw [h.trace, show framesOf (written []).flatten = [] from @framesOf_format [] (by simp)]
    rfl
  delivers := by
    rw [h.trace]
    rfl
  acknowledges := by
    rw [h.trace]
    simp

/-- The new frames of a step: the answers among them are those to the frames that have come. -/
structure Advances (published : Frame → Prop) (s s' : StreamMqtt) (fs heard : List Frame) : Prop where
  sends : Sends fs s s'
  sound : ∀ f ∈ fs, f.Sound published
  answers : fs.filter Frame.isAnswer = heard.filterMap Frame.answer
  received : received s'.trace = received s.trace ++ heard
  direct : direct s'.trace = direct s.trace ++ heard.filterMap Frame.directItem
  acknowledges : ∀ id, .acknowledge .puback id ∈ s'.trace → .acknowledge .puback id ∈ s.trace ∨
    ∃ f ∈ heard, f.isType .puback ∧ f.packetId = id

/-- It is a matter of the history. -/
theorem Advances.congr {fs heard : List Frame} {s'' : StreamMqtt} (a : Advances published s s' fs heard)
    (ht : s''.trace = s'.trace) : Advances published s s'' fs heard := by
  obtain ⟨⟨hsends, hproper⟩, hsound, hanswers, hreceived, hdirect, hack⟩ := a
  rw [← ht] at hsends hreceived hdirect hack
  exact ⟨⟨hsends, hproper⟩, hsound, hanswers, hreceived, hdirect, hack⟩

theorem Endpoint.advance (h : Endpoint published s) {fs heard : List Frame} (a : Advances published s s' fs heard)
    (hwait : Waiting (fun f => f.Sound published ∧ f.isAnswer = false) s')
    (hholds : ∀ item ∈ s'.inbound, item.isPublishQos2) : Endpoint published s' := by
  obtain ⟨gs, hw, hgs⟩ := h.writes
  obtain ⟨es, ht, hes⟩ := a.sends.1
  have hproper : ∀ f ∈ fs, f.Proper := a.sends.2
  refine ⟨hwait, hholds, ⟨gs ++ fs, ?_, ?_⟩, ?_, ?_, ?_⟩
  · rw [ht, written_append, hw, hes, List.map_append]
  · exact List.forall_mem_append.2 ⟨hgs, fun f hf => ⟨hproper f hf, a.sound f hf⟩⟩
  · rw [sent_append hw (fun f hf => (hgs f hf).1) a.sends, List.filter_append, h.answers, a.answers, a.received,
      List.filterMap_append]
  · rw [a.direct, h.delivers, a.received, List.filterMap_append]
  · rintro id hm
    rw [a.received]
    rcases a.acknowledges id hm with hold | ⟨f, hf, hid⟩
    · obtain ⟨f, hf, hid⟩ := h.acknowledges id hold
      exact ⟨f, List.mem_append_left _ hf, hid⟩
    · exact ⟨f, List.mem_append_right _ hf, hid⟩

/-- What is written without being asked for is no answer. -/
theorem SendsAll.advances (h : SendsAll (fun f => f.Sound published ∧ f.isAnswer = false) s s') :
    ∃ fs, Advances published s s' fs [] := by
  obtain ⟨es, ht, hes⟩ := h
  have hwrites : ∀ e ∈ es, e.Writes fun f => f.Sound published ∧ f.isAnswer = false := by
    rintro e he
    have hsending := hes e he
    cases e with
    | write ticket data => exact hsending
    | _ => trivial
  have hnone : ∀ {α : Type} (g : Event → Option α), (∀ ticket data, g (.write ticket data) = none) →
      (∀ tag, g (.abandon tag) = none) → es.filterMap g = [] := by
    intro α g hw ha
    refine List.filterMap_eq_nil_iff.2 fun e he => ?_
    have hsending := hes e he
    cases e with
    | write ticket data => exact hw ticket data
    | abandon tag => exact ha tag
    | _ => exact hsending.elim
  obtain ⟨fs, hw, hfs⟩ := written_frames hwrites
  refine ⟨fs, ⟨⟨es, ht, hw⟩, fun f hf => (hfs f hf).1⟩, fun f hf => (hfs f hf).2.1, ?_, ?_, ?_, ?_⟩
  · exact List.filter_eq_nil_iff.2 fun f hf => by simp [(hfs f hf).2.2]
  · rw [ht, received_append, show received es = [] from hnone _ (fun _ _ => rfl) fun _ => rfl]
  · have hdeliveries : deliveries es = [] := hnone _ (fun _ _ => rfl) fun _ => rfl
    rw [ht, direct_append, direct, direct, hdeliveries]
    rfl
  · rintro id hm
    rw [ht, List.mem_append] at hm
    rcases hm with hm | hm
    · exact .inl hm
    · exact (hes _ hm).elim

/-- An acknowledgement comes with its packet. -/
theorem acknowledge_handle (env : Env) (s : StreamMqtt) (frame : MqttFixedHeader) (body : Mem) {type : MqttPacketType}
    {id : UInt16} (hm : .acknowledge type id ∈ (streamMqttHandleReceivedFrame env s frame body).trace) :
    .acknowledge type id ∈ s.trace ∨ (recorded frame body).isType type ∧ shortAt body 0 = id := by
  have hQ : Releases fun e => ∀ type id, e ≠ .acknowledge type id := ⟨⟨by simp, by simp⟩, by simp⟩
  have hacked : ∀ {type' : MqttPacketType} {id' : UInt16}, .acknowledge type id ∈ ackEvents s type' id' →
      type' = type ∧ id' = id := by
    intro type' id' hm
    unfold ackEvents at hm
    split at hm
    · cases List.mem_singleton.1 hm
      exact ⟨rfl, rfl⟩
    · cases hm
  rcases isAck_or frame.type with ⟨type', ht, hack⟩ | hother
  · have came : .acknowledge type id ∈ ackEvents s type' (shortAt body 0) →
        (recorded frame body).isType type ∧ shortAt body 0 = id := by
      intro hm
      obtain ⟨rfl, hid⟩ := hacked hm
      exact ⟨ht, hid⟩
    rw [handle_ack env s frame body ht hack] at hm
    by_cases hrec : type' = .pubrec
    · subst hrec
      rw [(handlePubrec_spec env s frame body).2] at hm
      simp only [List.mem_append, List.mem_cons, List.not_mem_nil, or_false, reduceCtorEq, false_or] at hm
      exact hm.imp_right came
    · obtain ⟨es, htrace, hes⟩ :=
        (handleAck_quiet env hQ.toForwards (s.log (.receive (recorded frame body))) frame body hrec).trace
      rw [htrace, (acknowledge_spec _ _ _).2] at hm
      simp only [StreamMqtt.log, List.mem_append, List.mem_singleton, reduceCtorEq, or_false] at hm
      rcases hm with (hm | hm) | hm
      · exact .inl hm
      · exact .inr (came hm)
      · exact absurd rfl (hes _ hm type id)
  -- the other frames acknowledge nothing
  · obtain ⟨-, es, htrace, hes⟩ := handle_unqueued env s frame body hQ (by simp) (by simp) hother
    rw [htrace] at hm
    simp only [StreamMqtt.log, List.mem_append, List.mem_singleton, reduceCtorEq, or_false] at hm
    rcases hm with hm | hm
    · exact .inl hm
    · exact absurd rfl (hes _ hm type id)

/-- What is held stays of QoS 2. -/
theorem holds_handle (env : Env) (frame : MqttFixedHeader) (body : Mem) (h : ∀ item ∈ s.inbound, item.isPublishQos2) :
    ∀ item ∈ (streamMqttHandleReceivedFrame env s frame body).inbound, item.isPublishQos2 := by
  by_cases hpub : (recorded frame body).isPublishQos2
  · rw [handle_publish env s body hpub.1, handlePublish_qos2 env _ frame body hpub.2]
    rintro item hm
    rcases List.mem_append.1 hm with hm | hm
    · exact h item (List.mem_of_mem_filter hm)
    · rw [List.mem_singleton.1 hm]
      exact ⟨rfl, hpub.2⟩
  · by_cases hrel : (recorded frame body).isType .pubrel
    · rw [handle_pubrel env s body hrel, (handlePubrel_quiet env _ frame body releases_noReceive).inbound]
      exact fun item hm => h item (List.mem_of_mem_filter hm)
    · rw [inbound_other env hpub hrel]
      exact h

/-- Deliveries that are no PUBLISH of QoS 0 or 1. -/
theorem filter_direct_eq_nil {items : List MqttFrameItem} (h : ∀ item ∈ items, item.type ≠ .publish ∨ item.isPublishQos2) :
    items.filter (fun item => item.type = .publish ∧ mqttQosFromFlags item.flags ≠ mqttQos2) = [] := by
  refine List.filter_eq_nil_iff.2 fun item hm => ?_
  rcases h item hm with hne | hqos2
  · simp [hne]
  · simp [hqos2.2]

/-- From how a frame is handled to what it does to the endpoint. -/
theorem Handles.advances {peer : Frame → Prop} {env : Env} {frame : MqttFixedHeader} {body : Mem} {answers : List Frame}
    {items : List MqttFrameItem}
    (h : Handles (recorded frame body) answers items s (streamMqttHandleReceivedFrame env s frame body))
    (hsound : (recorded frame body).Sound peer) (hanswers : ∀ f ∈ answers, f.Proper ∧ f.Sound published)
    (hfilter : answers.filter Frame.isAnswer = (recorded frame body).answer.toList)
    (hdirect : items.filter (fun item => item.type = .publish ∧ mqttQosFromFlags item.flags ≠ mqttQos2) =
      (recorded frame body).directItem.toList) :
    Advances published s (streamMqttHandleReceivedFrame env s frame body) answers [recorded frame body] := by
  obtain ⟨es, ht, hw, -, hd⟩ := h
  have hone : ∀ {α : Type} (g : Frame → Option α), (g (recorded frame body)).toList = [recorded frame body].filterMap g := by
    intro α g
    cases hg : g (recorded frame body) <;> simp [hg]
  refine ⟨⟨⟨.receive (recorded frame body) :: es, ht, hw⟩, fun f hf => (hanswers f hf).1⟩, fun f hf => (hanswers f hf).2,
    hfilter.trans (hone _), handle_received env s frame body, ?_, ?_⟩
  · rw [ht, direct_append, ← hone, ← hdirect, ← hd]
    rfl
  · rintro id hm
    refine (acknowledge_handle env s frame body hm).imp_right ?_
    rintro ⟨htype, hid⟩
    exact ⟨_, List.mem_singleton_self _, htype, (packetId_eq htype rfl (hsound.valid (.inr (.inr htype)))).symm.trans hid⟩

/-- A frame that comes is answered. -/
theorem Endpoint.handle {peer : Frame → Prop} (h : Endpoint published s) (env : Env) (frame : MqttFixedHeader)
    (body : Mem) (hsound : (recorded frame body).Sound peer) :
    ∃ fs, Advances published s (streamMqttHandleReceivedFrame env s frame body) fs [recorded frame body] := by
  have hanswer : ∀ f ∈ (recorded frame body).answer.toList, f.Proper ∧ f.Sound published ∧ f.isAnswer = true :=
    fun f hf => Frame.answer_spec (Option.mem_toList.1 hf)
  have hproper : ∀ f ∈ (recorded frame body).answer.toList, f.Proper ∧ f.Sound published :=
    fun f hf => ⟨(hanswer f hf).1, (hanswer f hf).2.1⟩
  -- an answer is an answer, not a frame of the application
  have hkept : (recorded frame body).answer.toList.filter Frame.isAnswer = (recorded frame body).answer.toList :=
    List.filter_eq_self.2 fun f hf => (hanswer f hf).2.2
  by_cases hpub : (recorded frame body).isType .publish
  · have hh := handles_publish env s hpub (hsound.valid (.inl hpub))
    exact ⟨_, hh.advances hsound hproper hkept (List.filter_eq_self.2 fun item hm =>
      decide_eq_true (Frame.directItem_spec (Option.mem_toList.1 hm)))⟩
  · by_cases hrel : (recorded frame body).isType .pubrel
    · have hh := handles_pubrel env s hrel (hsound.valid (.inr (.inl hrel)))
      have hans : (recorded frame body).answer = some (.ofId .pubcomp (recorded frame body).packetId) := by
        unfold Frame.answer
        rw [if_neg hpub, if_pos hrel]
      rw [hans] at hproper hkept
      refine ⟨_, hh.advances hsound hproper (hans ▸ hkept) ?_⟩
      rw [hrel.directItem (by decide)]
      exact filter_direct_eq_nil fun item hm => .inr (h.holds item (List.mem_of_mem_filter hm))
    · have hnodirect : (recorded frame body).directItem = none := by
        unfold Frame.directItem
        exact if_neg fun hc => hpub hc.1
      rcases isAck_or frame.type with ⟨type, ht, hack⟩ | hother
      · obtain ⟨answers, items, hh, hcases, hitems⟩ := @handles_ack env s frame body type ht hack
        have hnone : (recorded frame body).answer = none := by
          refine @Frame.isType.answer _ type ht ?_
          cases type <;> simp_all [MqttPacketType.isAck]
        rw [hnone] at hkept
        refine ⟨answers, hh.advances hsound ?_ ?_ ?_⟩
        · rcases hcases with rfl | rfl
          · simp
          · rintro f hf
            rw [List.mem_singleton.1 hf]
            exact ⟨Frame.ofId_proper _ _, Frame.ofId_sound (fun _ => rfl) (by decide) _⟩
        · rw [hnone]
          rcases hcases with rfl | rfl
          · rfl
          · simp [(Frame.ofId_isType .pubrel (shortAt body 0)).isAnswer]
        · rw [hnodirect]
          exact filter_direct_eq_nil fun item hm => .inl (hitems item hm)
      · obtain ⟨items, hh, hitems⟩ := @handles_other env s frame body hpub hrel hother
        refine ⟨_, hh.advances hsound hproper hkept ?_⟩
        rw [hnodirect]
        exact filter_direct_eq_nil fun item hm => .inl (hitems item hm)

/-- Nothing but a PUBREL is queued for it. -/
theorem waiting_handle (env : Env) (frame : MqttFixedHeader) (body : Mem)
    (h : Waiting (fun f => f.Sound published ∧ f.isAnswer = false) s) :
    Waiting (fun f => f.Sound published ∧ f.isAnswer = false) (streamMqttHandleReceivedFrame env s frame body) := by
  rintro item hm
  rcases outgoing_handle env s frame body item hm with hm | ⟨id, tag, rfl⟩
  · exact h item hm
  · exact ⟨.ofId .pubrel id, Frame.ofId_proper .pubrel id,
      ⟨Frame.ofId_sound (fun _ => rfl) (by decide) id, (Frame.ofId_isType .pubrel id).isAnswer⟩, rfl⟩

end Endpoint

end CMx.Mqtt
