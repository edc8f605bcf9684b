/-
The incoming queue. What a received frame puts there is its body, unless the observer takes the
message; so a frame with an empty body makes an empty item, which `stream_mqtt_peek_frame` reports
as the end of the connection. Only the body of a DISCONNECT is replaced by a dummy byte.
-/
import CMx.StreamMqtt.Inbound
import CMx.StreamMqtt.Outgoing

namespace CMx.Mqtt

/-! ## The observer's answer -/

/-- Whether the observer takes the message that it is called with behind some events. -/
def StreamMqtt.takes (s : StreamMqtt) (es : List Event) (note : Note) : Bool :=
  s.mqttObserver.any fun handler => handler (s.trace ++ es ++ [.notify note]) > 0

/-- What is delivered goes to the observer or behind the incoming queue. -/
theorem deliver_adds {s t : StreamMqtt} {es : List Event} (hobserver : t.mqttObserver = s.mqttObserver)
    (hincoming : t.incoming = s.incoming) (htrace : t.trace = s.trace ++ es) (note : Note) (item : MqttFrameItem) :
    (streamMqttDeliver (streamMqttNotifyObserver t note) item).incoming =
      s.incoming ++ if s.takes es note then [] else [item] := by
  unfold streamMqttNotifyObserver StreamMqtt.takes
  rw [hobserver]
  cases s.mqttObserver with
  | none => simp [streamMqttDeliver, StreamMqtt.log, hincoming, streamMqttAppendFrame]
  | some handler =>
    simp only [Option.any_some, StreamMqtt.log, htrace, streamMqttDeliver]
    split
    · rw [List.append_nil, hincoming]
    · rw [streamMqttAppendFrame, hincoming]

theorem forward_adds (s : StreamMqtt) {t : StreamMqtt} (es : List Event) (hobserver : t.mqttObserver = s.mqttObserver)
    (hincoming : t.incoming = s.incoming) (htrace : t.trace = s.trace ++ es) (type : MqttPacketType) (flags : UInt8)
    (msg : Msg) (body : Bytes) :
    (streamMqttForward t type flags msg body).incoming =
      s.incoming ++ if s.takes es ⟨type, flags, msg, body⟩ then [] else [mqttFrameItemNew type flags 0 body] :=
  deliver_adds hobserver hincoming htrace _ _

section Frames

variable (env : Env) (s : StreamMqtt) (frame : MqttFixedHeader) (body : Mem)

/-- The message of a frame that is forwarded at once, with the events before the call of the
observer. -/
def forwardedNote : Option (List Event × Note) :=
  let recv := Event.receive (recorded frame body)
  let note (type : MqttPacketType) (msg : Msg) : Note := ⟨type, frame.flags, msg, frameBody frame body⟩
  match MqttPacketType.ofByte frame.type with
  | some .connect =>
    some ([recv], note .connect (.connect ((mqttParseConnect env.connect frame.bodyLength).value body).2))
  | some .connack => some ([recv], note .connack (.connack ((mqttParseConnack {} frame.bodyLength).value body).2))
  | some .subscribe =>
    some ([recv], note .subscribe (.subscribe ((mqttParseSubscribe {} frame.bodyLength).value body).2))
  | some .unsubscribe =>
    some ([recv], note .unsubscribe (.unsubscribe ((mqttParseUnsubscribe {} frame.bodyLength).value body).2))
  | some .publish =>
    let qos := mqttQosFromFlags frame.flags
    let msg := ((mqttParsePublish env.publish frame.bodyLength qos).value body).2
    if qos = mqttQos2 then none
    else if qos = mqttQos1 then some ([recv, .write none (idFrame .puback msg.id)], note .publish (.publish msg))
    else some ([recv], note .publish (.publish msg))
  | some .suback =>
    some (recv :: ackEvents s .suback (shortAt body 0),
      note .suback (.suback ((mqttParseSuback {} frame.bodyLength).value body).2))
  | some .unsuback =>
    some (recv :: ackEvents s .unsuback (shortAt body 0),
      note .unsuback (.unsuback ((mqttParseUnsuback {} frame.bodyLength).value body).2))
  | _ => none

theorem forwardedNote_body {es : List Event} {note : Note} (h : forwardedNote env s frame body = some (es, note)) :
    note.body = frameBody frame body := by
  unfold forwardedNote at h
  simp only at h
  split at h
  case h_5 =>
    split at h
    · cases h
    · split at h <;> cases h <;> rfl
  all_goals cases h
  all_goals rfl

/-- A released message as the observer sees it, `moment` events into the history. -/
def releaseNote (moment : Nat) (item : MqttFrameItem) : Note :=
  ⟨.publish, item.flags, .publish ((mqttParsePublish env.publish item.buffer.length
    (mqttQosFromFlags item.flags)).value (memOf item.buffer (env.stale moment))).2, item.buffer⟩

/-- What a PUBREL does before it releases anything. -/
def pubrelEvents : List Event := [.receive (recorded frame body), .write none (idFrame .pubcomp (shortAt body 0))]

/-- What a received frame puts behind the incoming queue. -/
def arrivals : List MqttFrameItem :=
  match MqttPacketType.ofByte frame.type with
  | some .pubrel =>
    s.inbound.filter fun item => item.id = shortAt body 0 &&
      !s.takes (pubrelEvents frame body) (releaseNote env (s.trace.length + 2) item)
  | some .disconnect =>
    if s.takes [.receive (recorded frame body)] ⟨.disconnect, frame.flags, .null, []⟩ then []
    else [mqttFrameItemNew .disconnect frame.flags 0 [0]]
  | _ =>
    match forwardedNote env s frame body with
    | none => []
    | some (es, note) => if s.takes es note then [] else [mqttFrameItemNew note.type note.flags 0 note.body]

end Frames

/-! ## Releases -/

/-- The items of `inbound` are PUBLISH items with distinct ids, whatever frames they come from. -/
structure InboundIds (s : StreamMqtt) : Prop where
  publishes : ∀ item ∈ s.inbound, item.type = .publish
  nodup : (s.inbound.map (·.id)).Nodup

theorem inboundIds_step (s : StreamMqtt) (env : Env) (call : Call) (i : InboundIds s) :
    InboundIds (step s env call) := by
  have same : ∀ {s'}, s'.inbound = s.inbound → InboundIds s' := by
    intro s' h
    refine ⟨?_, ?_⟩
    · rw [h]; exact i.publishes
    · rw [h]; exact i.nodup
  cases hc : call.isLoop with
  | false => exact same (step_keeps s env hc).1
  | true =>
    cases call with
    | rebuffer buffer => exact same rfl
    | receive frame body =>
      simp only [step]
      -- two frames touch `inbound`: a QoS 2 PUBLISH puts an id in, a PUBREL drops one
      by_cases hpub : (recorded frame body).isPublishQos2
      · have hin : (streamMqttHandleReceivedFrame env s frame body).inbound = Slots.put MqttFrameItem.id s.inbound
            (mqttFrameItemNew .publish frame.flags (publishIdAt body) (frameBody frame body)) := by
          rw [handle_publish env s body hpub.1, handlePublish_qos2 env _ frame body hpub.2]
          simp only [StreamMqtt.log, filter_matches i.publishes, Slots.put]
          rfl
        refine ⟨?_, ?_⟩
        · rw [hin]
          intro item hm
          rcases List.mem_append.1 hm with hm | hm
          · exact i.publishes item (List.mem_of_mem_filter hm)
          · rw [List.mem_singleton.1 hm]
            rfl
        · rw [hin]
          exact Slots.nodup_put MqttFrameItem.id i.nodup _
      · by_cases hrel : (recorded frame body).isType .pubrel
        · have hin : (streamMqttHandleReceivedFrame env s frame body).inbound =
              Slots.drop MqttFrameItem.id s.inbound (shortAt body 0) := by
            rw [handle_pubrel env s body hrel, (handlePubrel_quiet env _ frame body releases_noReceive).inbound]
            rfl
          refine ⟨?_, ?_⟩
          · rw [hin]
            exact fun item hm => i.publishes item (List.mem_of_mem_filter hm)
          · rw [hin]
            exact Slots.nodup_drop MqttFrameItem.id i.nodup _
        · exact same (inbound_other env hpub hrel)
    | _ => cases hc

theorem releaseLoop_absent (env : Env) {id : UInt16} : ∀ (kept : List MqttFrameItem) {rest : List MqttFrameItem}
    (t : StreamMqtt), (∀ item ∈ rest, item.id ≠ id) → streamMqttReleaseLoop env id kept rest t = t
  | _, [], _, _ => rfl
  | kept, item :: rest, t, h => by
    unfold streamMqttReleaseLoop
    rw [if_neg (h item List.mem_cons_self)]
    exact releaseLoop_absent env _ t fun item' hm => h item' (List.mem_cons_of_mem _ hm)

/-- Where the ids differ, at most one item is released. -/
theorem releaseLoop_adds (env : Env) {s : StreamMqtt} {es : List Event} (id : UInt16) :
    ∀ (kept rest : List MqttFrameItem) {t : StreamMqtt},
      t.mqttObserver = s.mqttObserver → t.incoming = s.incoming → t.trace = s.trace ++ es →
      (∀ item ∈ rest, item.type = .publish) → (rest.map (·.id)).Nodup →
      (streamMqttReleaseLoop env id kept rest t).incoming = s.incoming ++
        rest.filter fun item => item.id = id && !s.takes es (releaseNote env (s.trace.length + es.length) item)
  | kept, [], t, _, hincoming, _, _, _ => by simpa [streamMqttReleaseLoop] using hincoming
  | kept, item :: rest, t, hobserver, hincoming, htrace, htype, hnodup => by
    obtain ⟨hnew, hnodup⟩ := List.nodup_cons.1 hnodup
    have hrest : ∀ item ∈ rest, item.type = .publish := fun item' hm => htype item' (List.mem_cons_of_mem _ hm)
    unfold streamMqttReleaseLoop
    by_cases hid : item.id = id
    · have habsent : ∀ item' ∈ rest, item'.id ≠ id := by
        rintro item' hm rfl
        exact hnew (List.mem_map.2 ⟨item', hm, hid.symm⟩)
      have hnone : (rest.filter fun item => item.id = id &&
          !s.takes es (releaseNote env (s.trace.length + es.length) item)) = [] :=
        List.filter_eq_nil_iff.2 fun item' hm => by simp [habsent item' hm]
      rw [if_pos hid, releaseLoop_absent env kept _ habsent, List.filter_cons, hnone]
      have hrelease : streamMqttRelease env { t with inbound := kept ++ rest } item =
          streamMqttDeliver (streamMqttNotifyObserver { t with inbound := kept ++ rest }
            (releaseNote env (s.trace.length + es.length) item)) item := by
        have hlength : t.trace.length = s.trace.length + es.length := by rw [htrace, List.length_append]
        rw [streamMqttRelease, if_pos (htype item List.mem_cons_self), releaseNote, ← hlength,
          htype item List.mem_cons_self]
      rw [hrelease]
      refine (deliver_adds (t := { t with inbound := kept ++ rest }) hobserver hincoming htrace _ item).trans ?_
      cases s.takes es (releaseNote env (s.trace.length + es.length) item) <;> simp [hid]
    · rw [if_neg hid, List.filter_cons_of_neg (by simp [hid])]
      exact releaseLoop_adds env id _ rest hobserver hincoming htrace hrest hnodup

/-! ## A received frame -/

/-- What a received frame adds to the incoming queue. -/
theorem handle_adds (env : Env) {s : StreamMqtt} (i : InboundIds s) (frame : MqttFixedHeader) (body : Mem) :
    (streamMqttHandleReceivedFrame env s frame body).incoming = s.incoming ++ arrivals env s frame body := by
  have hobserver : ∀ type, (streamMqttAcknowledge (s.log (.receive (recorded frame body))) type
      (shortAt body 0)).mqttObserver = s.mqttObserver :=
    fun type => (keeps_acknowledge (Q := fun _ => True) _ type _ trivial).observer
  have hincoming : ∀ type, (streamMqttAcknowledge (s.log (.receive (recorded frame body))) type
      (shortAt body 0)).incoming = s.incoming := fun type => acknowledge_incoming _ type _
  have htrace : ∀ type, (streamMqttAcknowledge (s.log (.receive (recorded frame body))) type (shortAt body 0)).trace =
      s.trace ++ .receive (recorded frame body) :: ackEvents s type (shortAt body 0) := by
    intro type
    rw [(acknowledge_spec _ _ _).2]
    simp [StreamMqtt.log, ackEvents]
  -- each branch of the switch forwards one item or none
  unfold streamMqttHandleReceivedFrame arrivals forwardedNote
  simp only
  cases ht : MqttPacketType.ofByte frame.type with
  | none => simp [StreamMqtt.log]
  | some type =>
    cases type with
    | pubrel =>
      have htrace : (s.trace ++ [.receive (recorded frame body)]) ++ [.write none (idFrame .pubcomp (shortAt body 0))] =
          s.trace ++ pubrelEvents frame body := List.append_assoc _ _ _
      exact releaseLoop_adds env _ [] s.inbound rfl rfl htrace i.publishes i.nodup
    | disconnect =>
      refine deliver_adds ?_ ?_ ?_ _ _ <;> rfl
    | connect =>
      unfold streamMqttHandleConnect
      simp only
      split <;> refine forward_adds s _ ?_ ?_ ?_ _ _ _ _ <;> rfl
    | connack =>
      unfold streamMqttHandleConnack
      simp only
      split <;> refine forward_adds s _ ?_ ?_ ?_ _ _ _ _ <;> rfl
    | subscribe => refine forward_adds s _ ?_ ?_ ?_ _ _ _ _ <;> rfl
    | unsubscribe => refine forward_adds s _ ?_ ?_ ?_ _ _ _ _ <;> rfl
    | publish =>
      unfold streamMqttHandlePublish
      simp only
      split
      · simp [StreamMqtt.log, streamMqttPubrec, streamMqttWriteFramePacketId, streamMqttWriteFrame, streamMqttRealWrite,
          StreamMqtt.write]
      · split
        · refine forward_adds s _ ?_ ?_ ?_ _ _ _ _
          · rfl
          · rfl
          · exact List.append_assoc _ _ _
        · refine forward_adds s _ ?_ ?_ ?_ _ _ _ _ <;> rfl
    | suback =>
      refine forward_adds s _ ?_ ?_ ?_ _ _ _ _
      · exact hobserver .suback
      · exact hincoming .suback
      · exact htrace .suback
    | unsuback =>
      refine forward_adds s _ ?_ ?_ ?_ _ _ _ _
      · exact hobserver .unsuback
      · exact hincoming .unsuback
      · exact htrace .unsuback
    | puback | pubcomp => exact (hincoming _).trans (List.append_nil _).symm
    | pubrec => exact (hincoming _).trans (List.append_nil _).symm
    | pingreq | pingresp | forbidden => exact (List.append_nil _).symm

/-! ## The other steps -/

theorem incoming_sendOrQueue (env : Env) (s : StreamMqtt) (type : MqttPacketType) (id : UInt16) (buffer : Bytes) :
    (streamMqttSendOrQueue env s type id buffer).2.incoming = s.incoming := by
  unfold streamMqttSendOrQueue
  simp only
  split
  · rfl
  · rfl

theorem incoming_keepAliveTime (env : Env) (s : StreamMqtt) :
    (streamMqttKeepAliveTime env s).incoming = s.incoming := by
  unfold streamMqttKeepAliveTime
  split
  · split
    · simp only
      split
      · rfl
      · rfl
    · rfl
  · rfl

theorem incoming_resendTime (env : Env) (s : StreamMqtt) : (streamMqttResendTime env s).incoming = s.incoming := by
  unfold streamMqttResendTime
  split
  · split
    · rfl
    · simp only
      split
      · rfl
      · rfl
  · rfl

theorem incoming_sendTime (env : Env) (s : StreamMqtt) : (streamMqttSendTime env s).incoming = s.incoming := by
  unfold streamMqttSendTime
  split
  · rfl
  · split
    · rfl
    · rfl

/-- The calls of the application put nothing into the incoming queue. -/
theorem step_incoming (s : StreamMqtt) (env : Env) {call : Call} (h : call.isLoop = false) :
    (step s env call).incoming <:+ s.incoming := by
  have same : ∀ {s' : StreamMqtt}, s'.incoming = s.incoming → s'.incoming <:+ s.incoming := by
    intro s' h
    rw [h]
  cases call with
  | receive frame body => cases h
  | rebuffer buffer => cases h
  | publish retain dup qos id topic payload =>
    refine same ?_
    simp only [step, streamMqttPublish]
    split
    · split <;> rfl
    · rfl
  | subscribe id topic qos => exact same (incoming_sendOrQueue env s _ _ _)
  | unsubscribe id topic => exact same (incoming_sendOrQueue env s _ _ _)
  | connect args =>
    refine same ?_
    simp only [step, streamMqttConnect]
    cases mqttFormatConnect args <;> rfl
  | connack sessionPresent returnCode =>
    refine same ?_
    simp only [step, streamMqttConnack]
    split <;> rfl
  | time =>
    exact same ((incoming_sendTime env _).trans ((incoming_resendTime env _).trans (incoming_keepAliveTime env s)))
  -- the one call that takes an item
  | readFrame length =>
    simp only [step, streamMqttReadFrame]
    split
    · exact List.suffix_refl _
    · rename_i item incoming hincoming
      split
      · exact List.suffix_refl _
      · rw [hincoming]
        exact List.suffix_cons _ _
  | setObserver handler =>
    refine same ?_
    simp only [step, streamMqttSetObserver]
    split <;> rfl
  | _ => exact same rfl

/-! ## Empty bodies -/

/-- Every queued item has a body. -/
def Filled (s : StreamMqtt) : Prop := ∀ item ∈ s.incoming, item.buffer ≠ []

/-- If a frame with an empty body is forwarded, the observer takes it; so it does with an inbound
item with an empty body that a PUBREL releases. -/
def EmptyTaken (s : StreamMqtt) (env : Env) : Call → Prop
  | .receive frame body =>
    (∀ es note, forwardedNote env s frame body = some (es, note) → frame.bodyLength = 0 → s.takes es note) ∧
      (MqttPacketType.ofByte frame.type = some .pubrel → ∀ item ∈ s.inbound, item.id = shortAt body 0 →
        item.buffer = [] → s.takes (pubrelEvents frame body) (releaseNote env (s.trace.length + 2) item))
  | _ => True

theorem forwardedNote_pubrel (env : Env) (s : StreamMqtt) {frame : MqttFixedHeader} (body : Mem)
    (h : MqttPacketType.ofByte frame.type = some .pubrel) : forwardedNote env s frame body = none := by
  unfold forwardedNote
  rw [h]

theorem forwardedNote_disconnect (env : Env) (s : StreamMqtt) {frame : MqttFixedHeader} (body : Mem)
    (h : MqttPacketType.ofByte frame.type = some .disconnect) : forwardedNote env s frame body = none := by
  unfold forwardedNote
  rw [h]

/-- A frame adds an item with an empty body unless the observer takes what is empty. -/
theorem arrivals_filled_iff (env : Env) (s : StreamMqtt) (frame : MqttFixedHeader) (body : Mem) :
    (∀ item ∈ arrivals env s frame body, item.buffer ≠ []) ↔ EmptyTaken s env (.receive frame body) := by
  unfold EmptyTaken
  -- a PUBREL releases what is in `inbound`
  by_cases hrel : MqttPacketType.ofByte frame.type = some .pubrel
  · have hnone := forwardedNote_pubrel env s body hrel
    simp only [arrivals, hrel, hnone, true_implies]
    constructor
    · refine fun h => ⟨fun es note hn => (nomatch hn), fun item hm hid hempty => ?_⟩
      by_contra htakes
      exact h item (List.mem_filter.2 ⟨hm, by simp [hid, htakes]⟩) hempty
    · rintro ⟨-, h⟩ item hm hempty
      obtain ⟨hm, hkept⟩ := List.mem_filter.1 hm
      simp only [Bool.and_eq_true, decide_eq_true_eq, Bool.not_eq_true'] at hkept
      rw [h item hm hkept.1 hempty] at hkept
      cases hkept.2
  -- the item of a DISCONNECT has one byte
  · by_cases hdis : MqttPacketType.ofByte frame.type = some .disconnect
    · have hnone := forwardedNote_disconnect env s body hdis
      simp only [arrivals, hdis, hnone]
      refine iff_of_true (fun item hm => ?_) ⟨fun es note hn => (nomatch hn), fun h => nomatch h⟩
      split at hm
      · cases hm
      · rw [List.mem_singleton.1 hm]
        exact List.cons_ne_nil _ _
    · have harrivals : arrivals env s frame body = match forwardedNote env s frame body with
          | none => []
          | some (es, note) => if s.takes es note then [] else [mqttFrameItemNew note.type note.flags 0 note.body] := by
        unfold arrivals
        split
        · exact absurd ‹_› hrel
        · exact absurd ‹_› hdis
        · rfl
      rw [harrivals]
      cases hnote : forwardedNote env s frame body with
      | none =>
        refine iff_of_true (fun item hm => nomatch hm) ⟨fun es note hn => ?_, fun h => absurd h hrel⟩
        rw [hnote] at hn
        cases hn
      | some sent =>
        obtain ⟨es, note⟩ := sent
        have hempty : note.body = [] ↔ frame.bodyLength = 0 := by
          rw [forwardedNote_body env s frame body hnote, ← List.length_eq_zero_iff, frameBody, length_bytes]
        constructor
        · intro h
          refine ⟨fun es' note' hn hlength => ?_, fun h' => absurd h' hrel⟩
          rw [hnote] at hn
          cases hn
          by_contra htakes
          simp only [htakes] at h
          exact h _ List.mem_cons_self (hempty.2 hlength)
        · rintro ⟨h, -⟩ item hm hitem
          simp only at hm
          split at hm
          · cases hm
          · rename_i htakes
            rw [List.mem_singleton.1 hm] at hitem
            exact htakes (h es note hnote (hempty.1 hitem))

/-- A step keeps every body non-empty exactly if the observer takes what is empty. -/
theorem filled_step_iff {s : StreamMqtt} (env : Env) (call : Call) (i : InboundIds s) (hs : Filled s) :
    Filled (step s env call) ↔ EmptyTaken s env call := by
  have kept : (step s env call).incoming ⊆ s.incoming → Filled (step s env call) := fun h item hm => hs item (h hm)
  cases hc : call.isLoop with
  | false =>
    refine iff_of_true (kept (step_incoming s env hc).subset) ?_
    cases call with
    | receive frame body => cases hc
    | _ => trivial
  | true =>
    cases call with
    | rebuffer buffer => exact iff_of_true (kept fun _ hm => hm) trivial
    | receive frame body =>
      rw [← arrivals_filled_iff, Filled]
      simp only [step, handle_adds env i]
      constructor
      · exact fun h item hm => h item (List.mem_append_right _ hm)
      · exact fun h item hm => (List.mem_append.1 hm).elim (hs item) (h item)
    | _ => cases hc

/-! ## The steps of a peek -/

/-- The steps that the inner loop of `stream_mqtt_peek_frame` makes. -/
def parseCalls (env : Env) : (rounds : Nat) → StreamMqtt → List (Env × Call)
  | 0, _ => []
  | rounds + 1, s =>
    if s.buffer.isEmpty then []
    else
      match mqttParseFrame s.buffer with
      | .more _ => []
      | .error => (env, .rebuffer []) :: parseCalls env rounds { s with buffer := [] }
      | .frame bodyOffset frame frameLength =>
        let body := memOf (s.buffer.drop bodyOffset) (env.stale s.trace.length)
        let s := streamMqttHandleReceivedFrame env s frame body
        (env, .receive frame body) :: (env, .rebuffer (s.buffer.drop frameLength)) ::
          parseCalls env rounds { s with buffer := s.buffer.drop frameLength }

/-- The steps that a call of `stream_mqtt_peek_frame` makes. -/
def peekCalls (env : Env) : List Chunk → StreamMqtt → List (Env × Call)
  | [], _ => []
  | chunk :: reads, s =>
    if s.incoming.isEmpty then
      let buffer := s.buffer ++ chunk.data
      (env, .rebuffer buffer) :: parseCalls env buffer.length { s with buffer } ++
        peekCalls env reads (streamMqttReceiveChunk env s chunk.data)
    else []

theorem run_parseCalls (env : Env) : ∀ (rounds : Nat) (s : StreamMqtt),
    run s (parseCalls env rounds s) = streamMqttParseLoop env rounds s
  | 0, _ => rfl
  | rounds + 1, s => by
    unfold parseCalls streamMqttParseLoop
    split
    · rfl
    · cases mqttParseFrame s.buffer with
      | more frameLength => rfl
      | error => exact run_parseCalls env rounds _
      | frame bodyOffset frame frameLength => exact run_parseCalls env rounds _

theorem run_peekCalls (env : Env) : ∀ (reads : List Chunk) (s : StreamMqtt),
    run s (peekCalls env reads s) = (streamMqttPeekLoop env reads s).2.2
  | [], _ => rfl
  | chunk :: reads, s => by
    unfold peekCalls streamMqttPeekLoop
    split
    · have hchunk : run s ((env, .rebuffer (s.buffer ++ chunk.data)) :: parseCalls env (s.buffer ++ chunk.data).length
          { s with buffer := s.buffer ++ chunk.data }) = streamMqttReceiveChunk env s chunk.data :=
        run_parseCalls env _ _
      rw [run_append, hchunk]
      exact run_peekCalls env reads _
    · rfl

/-- A loop that comes to the end of the reads has made them all. -/
theorem peekLoop_ended (env : Env) : ∀ (reads : List Chunk) (s : StreamMqtt),
    (streamMqttPeekLoop env reads s).2.1 = true → (streamMqttPeekLoop env reads s).1 = []
  | [], _, _ => rfl
  | chunk :: reads, s, h => by
    unfold streamMqttPeekLoop at h ⊢
    split at h
    · rw [if_pos ‹_›]
      exact peekLoop_ended env reads _ h
    · cases h

/-- A peek that leaves only bodies in the queue returns 0 for the end of the connection alone. -/
theorem peekFrame_zero {env : Env} {s : StreamMqtt} {reads : List Chunk} {last : ReadEnd}
    (hfilled : Filled (streamMqttPeekFrame env s reads last).2.2)
    (h : (streamMqttPeekFrame env s reads last).1 = .ok 0) :
    last = .closed ∧ (streamMqttPeekFrame env s reads last).2.1 = [] := by
  have hpeeked : ∀ {t : StreamMqtt}, Filled t → streamMqttPeeked t ≠ .ok 0 := by
    intro t ht hzero
    unfold streamMqttPeeked at hzero
    split at hzero
    · cases hzero
    · rename_i item incoming hincoming
      refine ht item (by rw [hincoming]; exact List.mem_cons_self) (List.length_eq_zero_iff.1 ?_)
      exact Except.ok.inj hzero
  unfold streamMqttPeekFrame at h hfilled ⊢
  simp only at h hfilled ⊢
  split at h
  · rename_i hended
    cases last with
    | again => exact absurd h (hpeeked hfilled)
    | closed => exact ⟨rfl, peekLoop_ended env reads s hended⟩
    | error => cases h
  · exact absurd h (hpeeked hfilled)

/-- In a run that ends with a peek, every queued item has a body at every moment, and the peek
returns 0 only for a read that found the connection closed, exactly if the observer takes whatever
is forwarded or released with an empty body. -/
theorem incoming_filled_iff (calls : List (Env × Call)) (env : Env) (reads : List Chunk) (last : ReadEnd) :
    let s := run streamMqttInit calls
    let steps := calls ++ peekCalls env reads s
    let peek := streamMqttPeekFrame env s reads last
    ((∀ steps', steps' <+: steps → Filled (run streamMqttInit steps')) ∧
      (peek.1 = .ok 0 → last = .closed ∧ peek.2.1 = [])) ↔ RunAll EmptyTaken streamMqttInit steps := by
  intro s steps peek
  have hinit : InboundIds streamMqttInit := ⟨fun item hm => (nomatch hm), List.nodup_nil⟩
  have hids : RunAll (fun s _ _ => InboundIds s) streamMqttInit steps :=
    runAll_of_inv inboundIds_step (fun _ _ _ i => i) steps hinit
  have hiff := runAll_iff (I := Filled) (fun s env call i hs => filled_step_iff env call i hs) hids
    (fun item hm => nomatch hm)
  constructor
  · exact fun h => hiff.1 h.1
  · intro h
    have hfilled := hiff.2 h
    refine ⟨hfilled, peekFrame_zero ?_⟩
    have hlast := hfilled steps (List.prefix_refl _)
    rw [run_append, run_peekCalls] at hlast
    exact hlast

/-- A SUBSCRIBE without a body, behind which there is nothing to read yet. -/
theorem incoming_emptySubscribe :
    let peek := streamMqttPeekFrame (Env.at 0) streamMqttInit [⟨[0x82, 0], by decide, by decide⟩] .again
    ¬ Filled peek.2.2 ∧ peek.1 = .ok 0 := by
  refine ⟨fun h => ?_, by rfl⟩
  exact h ⟨[], .subscribe, 2, 0, 0⟩ (by decide +kernel) rfl

end CMx.Mqtt
