/-
The receiving side of QoS 2: `inbound` is a store with one slot per packet id, which a PUBLISH
fills and a PUBREL empties. So whatever the peer sends, as long as its bodies are valid, a PUBREL
delivers the PUBLISH received last since the previous PUBREL with its id, and nothing else.
-/
import CMx.Lib.Slots
import CMx.StreamMqtt.Footprint

namespace CMx.Mqtt

/-! ## Reading the history -/

/-- The frames received. -/
def received (es : List Event) : List Frame :=
  es.filterMap fun
    | .receive f => some f
    | _ => none

/-- The bytes of each write. -/
def written (es : List Event) : List Bytes :=
  es.filterMap fun
    | .write _ data => some data
    | _ => none

/-- The deliveries, and whether the observer took the message. -/
def deliveries (es : List Event) : List (MqttFrameItem × Bool) :=
  es.filterMap fun
    | .deliver item byObserver => some (item, byObserver)
    | _ => none

@[simp] theorem received_append (es es' : List Event) : received (es ++ es') = received es ++ received es' :=
  List.filterMap_append
@[simp] theorem written_append (es es' : List Event) : written (es ++ es') = written es ++ written es' :=
  List.filterMap_append
@[simp] theorem deliveries_append (es es' : List Event) :
    deliveries (es ++ es') = deliveries es ++ deliveries es' := List.filterMap_append

theorem received_eq_nil {es : List Event} (h : ∀ e ∈ es, ∀ f, e ≠ .receive f) : received es = [] := by
  refine List.filterMap_eq_nil_iff.2 fun e he => ?_
  cases e with
  | receive f => exact absurd rfl (h _ he f)
  | _ => rfl

theorem deliveries_eq_nil {es : List Event} (h : ∀ e ∈ es, ∀ item byObserver, e ≠ .deliver item byObserver) :
    deliveries es = [] := by
  refine List.filterMap_eq_nil_iff.2 fun e he => ?_
  cases e with
  | deliver item byObserver => exact absurd rfl (h _ he item byObserver)
  | _ => rfl

/-- The events by which `s'` comes after `s`. -/
def eventsSince (s s' : StreamMqtt) : List Event := s'.trace.drop s.trace.length

theorem eventsSince_eq {s s' : StreamMqtt} {es : List Event} (h : s'.trace = s.trace ++ es) :
    eventsSince s s' = es := by rw [eventsSince, h, List.drop_left]

/-- The frame with a packet id that `stream_mqtt_write_frame_packet_id` writes. -/
def idFrame (type : MqttPacketType) (id : UInt16) : Bytes := mqttFormatFrame type.toByte 0 (mqttPutShort id)

/-! ## Frames of the receiver -/

namespace Frame

def header (f : Frame) : MqttFixedHeader := ⟨f.type, f.flags, f.body.length⟩

def mem (f : Frame) : Mem := memOf f.body fun _ => 0

/-- The body is a valid encoding for the packet type. -/
def valid (f : Frame) : Bool := validBody f.header f.mem

def isType (f : Frame) (type : MqttPacketType) : Prop := MqttPacketType.ofByte f.type = some type

/-- A QoS 2 PUBLISH. -/
def isPublishQos2 (f : Frame) : Prop := f.isType .publish ∧ mqttQosFromFlags f.flags = mqttQos2

/-- The packet id at the start of a body. -/
def packetId (f : Frame) : UInt16 := shortAt f.mem 0

/-- The packet id behind the topic of a PUBLISH. -/
def publishId (f : Frame) : UInt16 := publishIdAt f.mem

/-- The item a QoS 2 PUBLISH becomes. -/
def item (f : Frame) : MqttFrameItem := mqttFrameItemNew .publish f.flags f.publishId f.body

instance (f : Frame) (type : MqttPacketType) : Decidable (f.isType type) :=
  inferInstanceAs (Decidable (_ = _))

instance (f : Frame) : Decidable f.isPublishQos2 := inferInstanceAs (Decidable (_ ∧ _))

/-- What the frame does to the slots of `inbound`. -/
def slotOp (f : Frame) : Option (Slots.Op UInt16 MqttFrameItem) :=
  if f.isPublishQos2 then some (.put f.item)
  else if f.isType .pubrel then some (.take f.packetId)
  else none

end Frame

/-- The slot operations of some frames. -/
def slotOps (fs : List Frame) : List (Slots.Op UInt16 MqttFrameItem) := fs.filterMap Frame.slotOp

/-- The item of the last QoS 2 PUBLISH with an id since the last PUBREL with that id. -/
def latestPublish (fs : List Frame) (id : UInt16) : Option MqttFrameItem :=
  Slots.latest MqttFrameItem.id (slotOps fs) id

/-! ## What the memory behind a frame does not change -/

section Memory

variable {header : MqttFixedHeader} {body : Mem}

theorem recorded_length : (recorded header body).body.length = header.bodyLength := length_bytes _ _ _

theorem recorded_agree : AgreeBelow header.bodyLength body (recorded header body).mem :=
  agreeBelow_bytes body _ header.bodyLength

/-- The declared fields of a valid body lie in it. -/
theorem fields_of_valid {p : BodyParser} {f : Frame} {type : MqttPacketType} (ht : f.isType type)
    (hp : bodyParser type f.flags = some p) (hv : f.valid = true) :
    fieldsReach f.mem 0 (p.fields f.mem) ≤ f.body.length ∧
      (p.hasPayload = false → fieldsReach f.mem 0 (p.fields f.mem) = f.body.length) := by
  unfold Frame.valid validBody at hv
  rw [show MqttPacketType.ofByte f.header.type = some type from ht] at hv
  simp only [Option.bind_some, show bodyParser type f.header.flags = some p from hp] at hv
  exact valid_iff.1 hv

theorem packetId_eq {type : MqttPacketType} (ht : (recorded header body).isType type)
    (hp : bodyParser type header.flags = some (.varHeaderId ⟨0⟩)) (hv : (recorded header body).valid = true) :
    shortAt body 0 = (recorded header body).packetId := by
  obtain ⟨h, -⟩ := fields_of_valid ht hp hv
  refine recorded_agree.shortAt_eq ?_
  rw [recorded_length] at h
  simpa [BodyParser.fields, fieldsReach] using h

theorem publishId_eq (ht : (recorded header body).isPublishQos2) (hv : (recorded header body).valid = true) :
    publishIdAt body = (recorded header body).publishId := by
  obtain ⟨h, -⟩ := fields_of_valid ht.1 rfl hv
  rw [fieldsReach_publish, recorded_length] at h
  have hq : mqttQosFromFlags (recorded header body).flags > mqttQos0 := by rw [ht.2]; decide
  unfold publishReach at h
  rw [if_pos hq] at h
  exact (recorded_agree.symm.publishIdAt_eq h).symm

end Memory

/-! ## The steps that do not receive -/

/-- The calls of the application keep `inbound` and the buffer; they write and abandon. -/
theorem step_sends {Q : Event → Prop} (hwrite : ∀ ticket data, Q (.write ticket data)) (habandon : ∀ tag, Q (.abandon tag))
    (s : StreamMqtt) (env : Env) {call : Call} (h : call.isLoop = false) :
    (step s env call).inbound = s.inbound ∧ (step s env call).buffer = s.buffer ∧
      ∃ es, (step s env call).trace = s.trace ++ es ∧ ∀ e ∈ es, Q e := by
  have keeps : ∀ {s s' : StreamMqtt}, Keeps Q s s' → s'.inbound = s.inbound ∧ s'.buffer = s.buffer ∧
      ∃ es, s'.trace = s.trace ++ es ∧ ∀ e ∈ es, Q e := fun hk => ⟨hk.inbound, hk.buffer, hk.trace⟩
  cases call with
  | receive header body => cases h
  | rebuffer buffer => cases h
  | publish retain dup qos id topic payload => exact keeps (keeps_publish env s _ _ _ _ _ _ fun _ => hwrite _ _)
  | subscribe id topic qos => exact keeps (keeps_sendOrQueue env s _ _ _ fun _ => hwrite _ _)
  | unsubscribe id topic => exact keeps (keeps_sendOrQueue env s _ _ _ fun _ => hwrite _ _)
  | pubrel id => exact keeps (keeps_pubrel env s id fun _ => hwrite _ _)
  | suback id returnCode => exact keeps (quiet_writeFrame env s (hwrite _ _)).keeps
  | connect args => exact keeps (quiet_connect env s fun _ _ => hwrite _ _).keeps
  | connack sessionPresent returnCode => exact keeps (quiet_connack env s (hwrite _ _)).keeps
  | disconnect => exact keeps (quiet_disconnect env s (hwrite _ _)).keeps
  | writeFrame type flags body => exact keeps (quiet_writeFrame env s (hwrite _ _)).keeps
  | writeFramePacketId type id => exact keeps (quiet_writeFrame env s (hwrite _ _)).keeps
  | time => exact keeps (keeps_doTime env s (hwrite _ _) (fun _ _ => hwrite _ _) habandon)
  | readFrame length => exact keeps (quiet_readFrame s length).keeps
  | setStatus status => exact keeps (quiet_setStatus s status).keeps
  | setObserver handler =>
    simp only [step, streamMqttSetObserver]
    split
    · exact ⟨rfl, rfl, [], by simp⟩
    · exact ⟨rfl, rfl, [], by simp⟩
  | removeObserver => exact ⟨rfl, rfl, [], by simp [step, streamMqttRemoveObserver]⟩

/-- They receive no frame. -/
theorem step_keeps (s : StreamMqtt) (env : Env) {call : Call} (h : call.isLoop = false) :
    (step s env call).inbound = s.inbound ∧ (step s env call).buffer = s.buffer ∧
      received (step s env call).trace = received s.trace := by
  obtain ⟨hi, hb, es, ht, hes⟩ := step_sends (Q := fun e => ∀ f, e ≠ .receive f) (by simp) (by simp) s env h
  exact ⟨hi, hb, by rw [ht, received_append, received_eq_nil hes, List.append_nil]⟩

/-- They deliver nothing. -/
theorem step_deliversNothing (s : StreamMqtt) (env : Env) {call : Call} (h : call.isLoop = false) :
    deliveries (eventsSince s (step s env call)) = [] := by
  obtain ⟨-, -, es, ht, hes⟩ :=
    step_sends (Q := fun e => ∀ item byObserver, e ≠ .deliver item byObserver) (by simp) (by simp) s env h
  rw [eventsSince_eq ht]
  exact deliveries_eq_nil hes

/-! ## The steps that receive -/

/-- The step of a PUBREL on the deliveries: what left `inbound`, in order, with what the observer
took; the rest is queued. -/
def Delivers (items : List MqttFrameItem) (s s' : StreamMqtt) : Prop :=
  ∃ es, s'.trace = s.trace ++ es ∧ written es = [] ∧ received es = [] ∧ (deliveries es).map (·.1) = items ∧
    s'.incoming = s.incoming ++ (deliveries es).filterMap fun d => if d.2 then none else some d.1

theorem Delivers.nil (s : StreamMqtt) : Delivers [] s s := ⟨[], by simp, rfl, rfl, rfl, by simp [deliveries]⟩

theorem Delivers.append {items items' : List MqttFrameItem} {s s' s'' : StreamMqtt} (h : Delivers items s s')
    (h' : Delivers items' s' s'') : Delivers (items ++ items') s s'' := by
  obtain ⟨es, ht, hw, hr, hd, hi⟩ := h
  obtain ⟨es', ht', hw', hr', hd', hi'⟩ := h'
  refine ⟨es ++ es', ?_, ?_, ?_, ?_, ?_⟩
  · rw [ht', ht, List.append_assoc]
  · rw [written_append, hw, hw']; rfl
  · rw [received_append, hr, hr']; rfl
  · rw [deliveries_append, List.map_append, hd, hd']
  · rw [hi', hi, deliveries_append, List.filterMap_append, List.append_assoc]

theorem delivers_deliver {s : StreamMqtt} {r : Bool × StreamMqtt} (es : List Event) (item : MqttFrameItem)
    (ht : r.2.trace = s.trace ++ es) (hi : r.2.incoming = s.incoming) (hes : ∀ e ∈ es, ∃ note, e = .notify note) :
    Delivers [item] s (streamMqttDeliver r item) := by
  obtain ⟨handled, t⟩ := r
  simp only at ht hi
  have hnil : ∀ {α : Type} (g : Event → Option α), (∀ note, g (.notify note) = none) → es.filterMap g = [] := by
    intro α g hg
    refine List.filterMap_eq_nil_iff.2 fun e he => ?_
    obtain ⟨note, rfl⟩ := hes e he
    exact hg note
  refine ⟨es ++ [.deliver item handled], ?_, ?_, ?_, ?_, ?_⟩
  · cases handled <;> simp [streamMqttDeliver, StreamMqtt.log, ht]
  · rw [written_append, show written es = [] from hnil _ fun _ => rfl]; rfl
  · rw [received_append, show received es = [] from hnil _ fun _ => rfl]; rfl
  · rw [deliveries_append, show deliveries es = [] from hnil _ fun _ => rfl]; rfl
  · rw [deliveries_append, show deliveries es = [] from hnil _ fun _ => rfl]
    cases handled <;> simp [streamMqttDeliver, StreamMqtt.log, hi, deliveries, streamMqttAppendFrame]

theorem delivers_release (env : Env) (s : StreamMqtt) (item : MqttFrameItem) :
    Delivers [item] s (streamMqttRelease env s item) := by
  unfold streamMqttRelease
  split
  · unfold streamMqttNotifyObserver
    split
    · exact delivers_deliver [] item (by simp) rfl (by simp)
    · exact delivers_deliver [_] item rfl rfl (by simp)
  · exact delivers_deliver [] item (by simp) rfl (by simp)

theorem releaseLoop_delivers (env : Env) (id : UInt16) : ∀ (kept rest : List MqttFrameItem) (s : StreamMqtt),
    Delivers (rest.filter fun item => item.id = id) s (streamMqttReleaseLoop env id kept rest s)
  | kept, [], s => .nil s
  | kept, item :: rest, s => by
    unfold streamMqttReleaseLoop
    by_cases hid : item.id = id
    · rw [if_pos hid, List.filter_cons_of_pos (by simpa using hid)]
      have hrel := delivers_release env { s with inbound := kept ++ rest } item
      exact Delivers.append hrel (releaseLoop_delivers env id kept rest _)
    · rw [if_neg hid, List.filter_cons_of_neg (by simpa using hid)]
      exact releaseLoop_delivers env id _ rest s

theorem releases_noReceive : Releases fun e => ∀ f, e ≠ .receive f where
  notify := by simp
  deliver := by simp
  release := by simp

theorem answers_noReceive : Answers fun e => ∀ f, e ≠ .receive f where
  toForwards := releases_noReceive.toForwards
  puback := by simp
  pubrel := by simp
  pingresp := by simp
  acknowledge := by simp

/-- A received frame is one more in the history. -/
theorem handle_received (env : Env) (s : StreamMqtt) (header : MqttFixedHeader) (body : Mem) :
    received (streamMqttHandleReceivedFrame env s header body).trace =
      received s.trace ++ [recorded header body] := by
  have behind : ∀ {s' : StreamMqtt} (es : List Event),
      s'.trace = (s.log (.receive (recorded header body))).trace ++ es → (∀ e ∈ es, ∀ f, e ≠ .receive f) →
      received s'.trace = received s.trace ++ [recorded header body] := by
    intro s' es he hes
    rw [he, received_append, received_eq_nil hes, List.append_nil]
    simp only [StreamMqtt.log, received_append]
    rfl
  by_cases hrel : MqttPacketType.ofByte header.type = some .pubrel
  · rw [handle_pubrel env s body hrel]
    obtain ⟨es, he, hes⟩ := (handlePubrel_quiet env (s.log (.receive (recorded header body))) header body
      releases_noReceive).trace
    refine behind (.write none (idFrame .pubcomp (shortAt body 0)) :: es) ?_ ?_
    · rw [he]; simp [StreamMqtt.write, StreamMqtt.log, idFrame]
    · simpa using hes
  · by_cases hpub : MqttPacketType.ofByte header.type = some .publish ∧ mqttQosFromFlags header.flags = mqttQos2
    · rw [handle_publish env s body hpub.1, handlePublish_qos2 env _ header body hpub.2]
      exact behind [.write none _] rfl (by simp)
    · obtain ⟨es, he, hes⟩ := (keeps_handle answers_noReceive env s header body
        (fun h h' => hpub ⟨h, h'⟩) hrel).trace
      exact behind es he hes

/-! ## Where a delivery goes -/

/-- A call of the observer with an item; a DISCONNECT has no body there. -/
structure Note.About (note : Note) (item : MqttFrameItem) : Prop where
  type : note.type = item.type
  flags : note.flags = item.flags
  body : note.body = item.buffer ∨ item.type = .disconnect

/-- From `s` to `s'` the deliveries are what the history says: an item that the observer has taken is delivered
right behind a call of the observer with it, which answered with more than 0, and the others are put behind
`incoming`. -/
structure HandsOver (s s' : StreamMqtt) : Prop where
  observer : s'.mqttObserver = s.mqttObserver
  trace : s'.trace = s.trace ++ eventsSince s s'
  taken : ∀ before item behind, eventsSince s s' = before ++ .deliver item true :: behind →
    ∃ handler earlier note, s.mqttObserver = some handler ∧ before = earlier ++ [.notify note] ∧ note.About item ∧
      handler (s.trace ++ before) > 0
  untaken : s'.incoming = s.incoming ++ (deliveries (eventsSince s s')).filterMap fun d => if d.2 then none else some d.1

section HandsOver

variable {s s' s'' : StreamMqtt}

/-- Steps that deliver nothing and leave `incoming` alone. -/
theorem handsOver_nothing (ho : s'.mqttObserver = s.mqttObserver) (hi : s'.incoming = s.incoming) {es : List Event}
    (ht : s'.trace = s.trace ++ es) (hes : ∀ e ∈ es, ∀ item byObserver, e ≠ .deliver item byObserver) :
    HandsOver s s' := by
  refine ⟨ho, by rw [eventsSince_eq ht, ht], ?_, ?_⟩
  · intro before item behind hsplit
    rw [eventsSince_eq ht] at hsplit
    exact absurd rfl (hes (.deliver item true) (by rw [hsplit]; simp) item true)
  · rw [eventsSince_eq ht, deliveries_eq_nil hes, hi]
    exact (List.append_nil _).symm

theorem Keeps.handsOver (h : Keeps (fun e => ∀ item byObserver, e ≠ .deliver item byObserver) s s')
    (hi : s'.incoming = s.incoming) : HandsOver s s' := by
  obtain ⟨es, ht, hes⟩ := h.trace
  exact handsOver_nothing h.observer hi ht hes

/-- So is one event that is no delivery. -/
theorem handsOver_event (e : Event) (he : ∀ item byObserver, e ≠ .deliver item byObserver)
    (ho : s'.mqttObserver = s.mqttObserver) (hi : s'.incoming = s.incoming) (ht : s'.trace = s.trace ++ [e]) :
    HandsOver s s' :=
  handsOver_nothing ho hi ht (by simpa using he)

theorem HandsOver.refl (s : StreamMqtt) : HandsOver s s := (Keeps.refl s).handsOver rfl

theorem HandsOver.trans (h : HandsOver s s') (h' : HandsOver s' s'') : HandsOver s s'' := by
  have ht : s''.trace = s.trace ++ (eventsSince s s' ++ eventsSince s' s'') := by
    rw [← List.append_assoc, ← h.trace]
    exact h'.trace
  refine ⟨h'.observer.trans h.observer, by rw [eventsSince_eq ht, ht], ?_, ?_⟩
  · intro before item behind hsplit
    rw [eventsSince_eq ht] at hsplit
    rcases List.append_eq_append_iff.1 hsplit with ⟨middle, rfl, hlast⟩ | ⟨middle, hfirst, hlast⟩
    · obtain ⟨handler, earlier, note, ho, rfl, habout, hpos⟩ := h'.taken middle item behind hlast
      refine ⟨handler, eventsSince s s' ++ earlier, note, h.observer ▸ ho, (List.append_assoc ..).symm, habout, ?_⟩
      rwa [← List.append_assoc, ← h.trace]
    · cases middle with
      | nil =>
        -- nothing is delivered to the observer without a call of it
        obtain ⟨handler, earlier, note, -, hnil, -⟩ := h'.taken [] item behind hlast.symm
        exact absurd hnil.symm (List.append_ne_nil_of_right_ne_nil _ (List.cons_ne_nil _ _))
      | cons e middle =>
        obtain ⟨rfl, -⟩ := List.cons.inj hlast
        exact h.taken before item middle hfirst
  · rw [eventsSince_eq ht, deliveries_append, List.filterMap_append, ← List.append_assoc, ← h.untaken]
    exact h'.untaken

/-- What the observer has not taken goes to `incoming`. -/
theorem handsOver_untaken (s : StreamMqtt) (item : MqttFrameItem) :
    HandsOver s (streamMqttDeliver (false, s) item) := by
  have ht : (streamMqttDeliver (false, s) item).trace = s.trace ++ [.deliver item false] := rfl
  refine ⟨rfl, by rw [eventsSince_eq ht, ht], ?_, by rw [eventsSince_eq ht]; rfl⟩
  intro before item' behind hsplit
  rw [eventsSince_eq ht] at hsplit
  have hmem : Event.deliver item' true ∈ [Event.deliver item false] := by rw [hsplit]; simp
  cases List.mem_singleton.1 hmem

/-- The observer's answer decides where an item goes. -/
theorem handsOver_deliver (s : StreamMqtt) {note : Note} {item : MqttFrameItem} (h : note.About item) :
    HandsOver s (streamMqttDeliver (streamMqttNotifyObserver s note) item) := by
  unfold streamMqttNotifyObserver
  cases ho : s.mqttObserver with
  | none => exact handsOver_untaken s item
  | some handler =>
    simp only
    cases hanswer : decide (handler (s.log (.notify note)).trace > 0) with
    | false =>
      have hnote : HandsOver s (s.log (.notify note)) :=
        handsOver_event (.notify note) (by simp) rfl rfl rfl
      exact hnote.trans (handsOver_untaken _ item)
    | true =>
      have ht : (streamMqttDeliver (true, s.log (.notify note)) item).trace =
          s.trace ++ [.notify note, .deliver item true] := List.append_assoc ..
      refine ⟨rfl, by rw [eventsSince_eq ht, ht], ?_, by rw [eventsSince_eq ht]; exact (List.append_nil _).symm⟩
      intro before item' behind hsplit
      rw [eventsSince_eq ht] at hsplit
      rcases before with _ | ⟨e, _ | ⟨e', before⟩⟩
      · cases hsplit
      · cases hsplit
        exact ⟨handler, [], note, ho, rfl, h, of_decide_eq_true hanswer⟩
      · exact absurd (congrArg List.length hsplit) (by simp)

theorem handsOver_forward (s : StreamMqtt) (type : MqttPacketType) (flags : UInt8) (msg : Msg) (body : Bytes) :
    HandsOver s (streamMqttForward s type flags msg body) :=
  handsOver_deliver s ⟨rfl, rfl, .inl rfl⟩

end HandsOver

/-- An item that is no PUBLISH is released to `incoming`, unseen by the observer. -/
theorem handsOver_release (env : Env) (s : StreamMqtt) (item : MqttFrameItem) :
    HandsOver s (streamMqttRelease env s item) := by
  unfold streamMqttRelease
  split
  · exact handsOver_deliver s ⟨rfl, rfl, .inl rfl⟩
  · exact handsOver_untaken s item

theorem handsOver_releaseLoop (env : Env) (id : UInt16) : ∀ (kept rest : List MqttFrameItem) (s : StreamMqtt),
    HandsOver s (streamMqttReleaseLoop env id kept rest s)
  | kept, [], s => .refl s
  | kept, item :: rest, s => by
    unfold streamMqttReleaseLoop
    by_cases hid : item.id = id
    · rw [if_pos hid]
      have hrelease := handsOver_release env { s with inbound := kept ++ rest } item
      have hs : HandsOver s (streamMqttRelease env { s with inbound := kept ++ rest } item) :=
        ⟨hrelease.observer, hrelease.trace, hrelease.taken, hrelease.untaken⟩
      exact hs.trans (handsOver_releaseLoop env id kept rest _)
    · rw [if_neg hid]
      exact handsOver_releaseLoop env id _ rest s

/-- Every frame is handled so. -/
theorem handsOver_handle (env : Env) (s : StreamMqtt) (frame : MqttFixedHeader) (body : Mem) :
    HandsOver s (streamMqttHandleReceivedFrame env s frame body) := by
  have hack : ∀ (s : StreamMqtt) type, HandsOver s (streamMqttAcknowledge s type (shortAt body 0)) :=
    fun s type => (keeps_acknowledge s type _ (by simp)).handsOver (acknowledge_incoming s type _)
  have hrecord : HandsOver s (s.log (.receive (recorded frame body))) :=
    handsOver_event (.receive (recorded frame body)) (by simp) rfl rfl rfl
  have hwrite : ∀ (s : StreamMqtt) ticket data, HandsOver s (s.write ticket data) :=
    fun s ticket data => handsOver_event (.write ticket data) (by simp) rfl rfl rfl
  have same : ∀ {s s' : StreamMqtt}, s'.mqttObserver = s.mqttObserver → s'.incoming = s.incoming →
      s'.trace = s.trace → HandsOver s s' :=
    fun ho hi ht => handsOver_nothing ho hi (ht.trans (List.append_nil _).symm) (by simp)
  -- behind the record each branch acknowledges, writes, or notifies the observer last
  refine hrecord.trans ?_
  unfold streamMqttHandleReceivedFrame
  simp only
  cases MqttPacketType.ofByte frame.type with
  | none => exact .refl _
  | some type =>
    cases type with
    | pubrel => exact (hwrite _ none _).trans (handsOver_releaseLoop env _ [] _ _)
    | publish =>
      unfold streamMqttHandlePublish
      simp only
      split
      · refine .trans ?_ (hwrite _ none _)
        exact same rfl rfl rfl
      · split
        · exact (hwrite _ none _).trans (handsOver_forward ..)
        · exact handsOver_forward ..
    | connect =>
      unfold streamMqttHandleConnect
      simp only
      split
      · refine .trans ?_ (handsOver_forward ..)
        exact same rfl rfl rfl
      · exact handsOver_forward ..
    | connack =>
      unfold streamMqttHandleConnack
      simp only
      split
      · refine .trans ?_ (handsOver_forward ..)
        exact same rfl rfl rfl
      · exact handsOver_forward ..
    | subscribe => exact handsOver_forward ..
    | unsubscribe => exact handsOver_forward ..
    | suback => exact (hack _ _).trans (handsOver_forward ..)
    | unsuback => exact (hack _ _).trans (handsOver_forward ..)
    | puback => exact hack _ _
    | pubrec => exact (hack _ _).trans (handsOver_event (.write _ _) (by simp) rfl rfl rfl)
    | pubcomp => exact hack _ _
    | pingreq => exact handsOver_event (.write none _) (by simp) rfl rfl rfl
    | pingresp => exact same rfl rfl rfl
    | disconnect => exact handsOver_deliver _ ⟨rfl, rfl, .inr rfl⟩
    | forbidden => exact .refl _

/-! ## The invariant -/

/-- `inbound` holds what the history says, PUBLISH items only. -/
structure InboundInv (s : StreamMqtt) : Prop where
  slots : s.inbound = (slotOps (received s.trace)).foldl (Slots.apply MqttFrameItem.id) []
  publishes : ∀ item ∈ s.inbound, item.type = .publish

theorem InboundInv.congr {s s' : StreamMqtt} (i : InboundInv s) (hi : s'.inbound = s.inbound)
    (hr : received s'.trace = received s.trace) : InboundInv s' := by
  refine ⟨?_, ?_⟩
  · rw [hi, i.slots, hr]
  · rw [hi]; exact i.publishes

/-- Removing by type and id removes by id where all types are alike. -/
theorem filter_matches {l : List MqttFrameItem} (h : ∀ item ∈ l, item.type = .publish) (id : UInt16) :
    (l.filter fun item => !item.matches .publish id) = l.filter fun item => item.id ≠ id := by
  refine List.filter_congr fun item hm => ?_
  simp [MqttFrameItem.matches, h item hm]

section Handle

variable (env : Env) {s : StreamMqtt} {header : MqttFixedHeader} {body : Mem}

theorem inbound_publish (h : (recorded header body).isPublishQos2) (hv : (recorded header body).valid = true)
    (hp : ∀ item ∈ s.inbound, item.type = .publish) :
    (streamMqttHandleReceivedFrame env s header body).inbound =
      Slots.put MqttFrameItem.id s.inbound (recorded header body).item := by
  rw [handle_publish env s body h.1, handlePublish_qos2 env _ header body h.2, publishId_eq h hv]
  simp only [StreamMqtt.log, filter_matches hp, Slots.put]
  rfl

theorem inbound_pubrel (h : (recorded header body).isType .pubrel) (hv : (recorded header body).valid = true) :
    (streamMqttHandleReceivedFrame env s header body).inbound =
      Slots.drop MqttFrameItem.id s.inbound (recorded header body).packetId := by
  rw [handle_pubrel env s body h, (handlePubrel_quiet env _ header body releases_noReceive).inbound,
    packetId_eq h rfl hv]
  rfl

theorem inbound_other (hpub : ¬ (recorded header body).isPublishQos2) (hrel : ¬ (recorded header body).isType .pubrel) :
    (streamMqttHandleReceivedFrame env s header body).inbound = s.inbound :=
  (keeps_handle answers_noReceive env s header body (fun h h' => hpub ⟨h, h'⟩) hrel).inbound

/-- A valid frame does to `inbound` what the history records. -/
theorem inboundInv_handle (i : InboundInv s) (hv : (recorded header body).valid = true) :
    InboundInv (streamMqttHandleReceivedFrame env s header body) := by
  have hops : ∀ ops, (recorded header body).slotOp.toList = ops →
      slotOps (received (streamMqttHandleReceivedFrame env s header body).trace) =
        slotOps (received s.trace) ++ ops := by
    rintro ops rfl
    rw [slotOps, handle_received, List.filterMap_append, slotOps]
    cases h : (recorded header body).slotOp <;> simp [h]
  by_cases hpub : (recorded header body).isPublishQos2
  · have hin := inbound_publish env hpub hv i.publishes
    refine ⟨?_, ?_⟩
    · rw [hops [.put (recorded header body).item] (by rw [Frame.slotOp, if_pos hpub]; rfl), List.foldl_append, ← i.slots]
      exact hin
    · rw [hin]
      intro item hm
      rcases List.mem_append.1 hm with hm | hm
      · exact i.publishes item (List.mem_of_mem_filter hm)
      · rw [List.mem_singleton] at hm; subst hm; rfl
  · by_cases hrel : (recorded header body).isType .pubrel
    · have hin := inbound_pubrel env (s := s) hrel hv
      refine ⟨?_, ?_⟩
      · rw [hops [.take (recorded header body).packetId] (by rw [Frame.slotOp, if_neg hpub, if_pos hrel]; rfl),
          List.foldl_append, ← i.slots]
        exact hin
      · rw [hin]
        exact fun item hm => i.publishes item (List.mem_of_mem_filter hm)
    · have hin := inbound_other env (s := s) hpub hrel
      refine ⟨?_, ?_⟩
      · rw [hops [] (by rw [Frame.slotOp, if_neg hpub, if_neg hrel]; rfl), List.append_nil, ← i.slots]
        exact hin
      · rw [hin]; exact i.publishes

end Handle

/-- As long as every received body is valid. -/
theorem inboundInv_reachable {s : StreamMqtt} (h : Reachable s) :
    (∀ f ∈ received s.trace, f.valid = true) → InboundInv s := by
  refine h.inv (P := fun s => (∀ f ∈ received s.trace, f.valid = true) → InboundInv s) ?_ ?_
  · exact fun _ => ⟨rfl, by simp [streamMqttInit]⟩
  · intro s env call ih hv
    cases hc : call.isLoop with
    | false =>
      obtain ⟨hi, -, hr⟩ := step_keeps s env hc
      rw [hr] at hv
      exact (ih hv).congr hi hr
    | true =>
      cases call with
      | receive header body =>
        simp only [step] at hv ⊢
        rw [handle_received] at hv
        exact inboundInv_handle env (ih fun f hf => hv f (List.mem_append_left _ hf)) (hv _ (by simp))
      | rebuffer buffer => exact (ih hv).congr rfl rfl
      | _ => cases hc

/-! ## Delivery -/

/-- Whatever a peer sends in any order, with valid bodies: in every state the items of `inbound`
have distinct ids and are PUBLISH items; and when the next valid frame is handled, a QoS 2 PUBLISH
writes one PUBREC and delivers nothing, and a PUBREL writes one PUBCOMP and delivers the QoS 2
PUBLISH with its id received last since the last PUBREL with its id, if there is one: to the
observer, whose answer takes it, or to the incoming queue. -/
theorem inbound_exactlyLatest {s : StreamMqtt} (h : Reachable s) (hv : ∀ f ∈ received s.trace, f.valid = true) :
    (s.inbound.map (·.id)).Nodup ∧ (∀ item ∈ s.inbound, item.type = .publish) ∧
      ∀ (env : Env) (header : MqttFixedHeader) (body : Mem), (recorded header body).valid = true →
        ((recorded header body).isPublishQos2 →
          written (eventsSince s (streamMqttHandleReceivedFrame env s header body)) =
              [idFrame .pubrec (recorded header body).publishId] ∧
            deliveries (eventsSince s (streamMqttHandleReceivedFrame env s header body)) = []) ∧
        ((recorded header body).isType .pubrel →
          written (eventsSince s (streamMqttHandleReceivedFrame env s header body)) =
              [idFrame .pubcomp (recorded header body).packetId] ∧
            (deliveries (eventsSince s (streamMqttHandleReceivedFrame env s header body))).map (·.1) =
              (latestPublish (received s.trace) (recorded header body).packetId).toList ∧
            (streamMqttHandleReceivedFrame env s header body).incoming =
              s.incoming ++ (deliveries (eventsSince s (streamMqttHandleReceivedFrame env s header body))).filterMap
                fun d => if d.2 then none else some d.1) ∧
        HandsOver s (streamMqttHandleReceivedFrame env s header body) := by
  have i := inboundInv_reachable h hv
  obtain ⟨hnd, hunder⟩ := Slots.foldl_apply_spec MqttFrameItem.id (slotOps (received s.trace))
  rw [← i.slots] at hnd hunder
  refine ⟨hnd, i.publishes, fun env header body hvalid => ⟨fun hpub => ?_, fun hrel => ?_,
    handsOver_handle env s header body⟩⟩
  · have htrace : (streamMqttHandleReceivedFrame env s header body).trace =
        s.trace ++ [.receive (recorded header body), .write none (idFrame .pubrec (recorded header body).publishId)] := by
      rw [handle_publish env s body hpub.1, handlePublish_qos2 env _ header body hpub.2, publishId_eq hpub hvalid]
      simp [StreamMqtt.write, StreamMqtt.log, idFrame]
    rw [eventsSince_eq htrace]
    exact ⟨rfl, rfl⟩
  -- the loop over `inbound` runs behind the PUBCOMP
  · have hdel := releaseLoop_delivers env (shortAt body 0) [] s.inbound
      ((s.log (.receive (recorded header body))).write none (idFrame .pubcomp (shortAt body 0)))
    rw [packetId_eq hrel rfl hvalid] at hdel
    obtain ⟨es, ht, hw, -, hd, hin⟩ := hdel
    have hs' : streamMqttHandleReceivedFrame env s header body =
        streamMqttReleaseLoop env (recorded header body).packetId [] s.inbound
          ((s.log (.receive (recorded header body))).write none (idFrame .pubcomp (recorded header body).packetId)) := by
      rw [handle_pubrel env s body hrel, ← packetId_eq hrel rfl hvalid]
      rfl
    rw [← hs'] at ht hin
    have htrace : (streamMqttHandleReceivedFrame env s header body).trace =
        s.trace ++ ([.receive (recorded header body), .write none (idFrame .pubcomp (recorded header body).packetId)]
          ++ es) := by
      rw [ht]; simp [StreamMqtt.write, StreamMqtt.log]
    rw [eventsSince_eq htrace]
    refine ⟨?_, ?_, ?_⟩
    · rw [written_append, hw]; rfl
    · rw [deliveries_append, latestPublish, ← hunder]
      exact hd
    · rw [hin, deliveries_append]; rfl

/-- The calls that receive frames as they were sent. -/
def receiving (fs : List Frame) : List (Env × Call) := fs.map fun f => (Env.at 0, .receive f.header f.mem)

/-- A PUBLISH with id 7, sent twice with different payloads, and its PUBREL. -/
theorem inbound_exactlyLatest_twice :
    let first : Frame := ⟨3, 4, [0, 1, 0x61, 0, 7, 0x78]⟩
    let second : Frame := ⟨3, 12, [0, 1, 0x61, 0, 7, 0x79]⟩
    let release : Frame := ⟨6, 2, [0, 7]⟩
    let s := run streamMqttInit (receiving [first, second])
    let s' := streamMqttHandleReceivedFrame (Env.at 0) s release.header release.mem
    deliveries (eventsSince s s') = [(second.item, false)] ∧ s'.incoming = [second.item] := by
  intro first second release s s'
  have hv : ∀ f ∈ received s.trace, f.valid = true := by decide +kernel
  obtain ⟨-, -, h⟩ := inbound_exactlyLatest ⟨receiving [first, second], rfl⟩ hv
  obtain ⟨-, -, hover⟩ := h (Env.at 0) release.header release.mem (by decide +kernel)
  have hdelivered : deliveries (eventsSince s s') = [(second.item, false)] := by decide +kernel
  refine ⟨hdelivered, ?_⟩
  rw [hover.untaken, hdelivered]
  decide +kernel

end CMx.Mqtt
