/-
What two endpoints hear of each other, whatever they do and however the bytes between them are cut:
the frames that one has been handed are the first that the other has written, the rest is on its
way, and every request is answered once, in order. So an acknowledged QoS 1 message has been
delivered, and messages of QoS 0 and 1 are delivered in the order in which they were written.
-/
import CMx.Net.Endpoint
import CMx.Net.ExactlyOnce

namespace CMx.Mqtt

open Framing (Conveys)

/-! ## Two endpoints -/

/-- The calls of an application that leaves the answers to the stream. -/
structure Call.Plain (call : Call) : Prop where
  wellFormed : call.WellFormed
  noAnswer : ∀ f, call.frame = some f → f.isAnswer = false

/-- All calls are. -/
def Plain (ops : List NetOp) : Prop :=
  ∀ op ∈ ops, ∀ call, op.sCall = some call ∨ op.rCall = some call → call.Plain

/-- The PUBLISH frames of some calls. -/
def Published (calls : List Call) (f : Frame) : Prop :=
  ∃ retain dup qos id topic payload, Call.publish retain dup qos id topic payload ∈ calls ∧
    f = .ofPublish retain dup qos id topic payload

/-- What `a` has written is what `b` has been handed, and then what it has in its buffer and on its way to it. -/
def Heard (published : Frame → Prop) (a b : StreamMqtt) (channel : Bytes) : Prop :=
  ∃ pending, Carries (Frame.Sound published) some (b.buffer ++ channel) pending ∧ sent a = received b.trace ++ pending

/-- Both endpoints, and both directions between them. -/
structure Talks (sPublished rPublished : Frame → Prop) (n : Net) : Prop where
  s : Endpoint sPublished n.s
  r : Endpoint rPublished n.r
  toR : Heard sPublished n.s n.r n.toR
  toS : Heard rPublished n.r n.s n.toS

section Talks

variable {sPublished rPublished : Frame → Prop} {n : Net}

theorem Talks.swap (i : Talks sPublished rPublished n) : Talks rPublished sPublished n.swap := ⟨i.r, i.s, i.toS, i.toR⟩

/-- The first endpoint has made a step. -/
theorem Talks.update (i : Talks sPublished rPublished n) {s' : StreamMqtt} {rest : Bytes}
    (hs : Heard rPublished n.r s' rest) {fs heard : List Frame} (a : Advances sPublished n.s s' fs heard)
    (hwait : Waiting (fun f => f.Sound sPublished ∧ f.isAnswer = false) s')
    (hholds : ∀ item ∈ s'.inbound, item.isPublishQos2) :
    Talks sPublished rPublished (n.update s' rest) := by
  refine ⟨i.s.advance a hwait hholds, i.r, ?_, hs⟩
  obtain ⟨pending, hcarries, hsent⟩ := i.toR
  obtain ⟨gs, hw, hgs⟩ := i.s.writes
  obtain ⟨⟨es, ht, hes⟩, hproper⟩ := a.sends
  have hforward := @Carries.append _ _ _ _ _ hcarries fs fun f hf => ⟨hproper f hf, a.sound f hf⟩
  rw [List.filterMap_some, List.append_assoc] at hforward
  refine ⟨pending ++ fs, ?_, ?_⟩
  · show Carries _ _ (n.r.buffer ++ (n.toR ++ (written (eventsSince n.s s')).flatten)) _
    rw [eventsSince_eq ht, hes]
    exact hforward
  · show sent s' = received n.r.trace ++ (pending ++ fs)
    rw [sent_append hw (fun f hf => (hgs f hf).1) a.sends, hsent, List.append_assoc]

theorem talks_call (i : Talks sPublished rPublished n) (env : Env) {call : Call} (hcall : call.Plain)
    (hpublished : ∀ f, call.frame = some f → f.isType .publish → sPublished f) :
    Talks sPublished rPublished (n.act (.call env call)) := by
  have hloop : call.isLoop = false := hcall.wellFormed.isLoop
  have hsound : ∀ f, call.frame = some f → f.Sound sPublished ∧ f.isAnswer = false := by
    intro f hf
    refine ⟨⟨?_, hpublished f hf⟩, hcall.noAnswer f hf⟩
    obtain ⟨-, ⟨retain, dup, qos, id, topic, payload, rfl, rfl⟩ | ⟨id, -, rfl⟩ | hbeside⟩ := call_frame hcall.wellFormed hf
    · obtain ⟨hqos, htopic, hpayload⟩ := hcall.wellFormed
      exact fun _ => Frame.ofPublish_valid retain dup id hqos htopic hpayload
    · exact fun _ => Frame.ofId_valid id fun _ => rfl
    · rintro (hc | hc | hc)
      · exact absurd hc hbeside.1
      · exact absurd hc hbeside.2.2.1
      · have hanswer := hcall.noAnswer f hf
        rw [hc.isAnswer] at hanswer
        cases hanswer
  have hping : (Frame.bare .pingreq).Sound sPublished ∧ (Frame.bare .pingreq).isAnswer = false :=
    ⟨(Frame.bare_isType .pingreq).sound (by decide), (Frame.bare_isType .pingreq).isAnswer⟩
  obtain ⟨hsends, hwait⟩ := call_sendsAll env hcall.wellFormed hsound hping i.s.waiting
  obtain ⟨fs, ha⟩ := hsends.advances
  obtain ⟨hinbound, hbuffer, hreceived⟩ := step_keeps n.s env hloop
  have hheard : Heard rPublished n.r (step n.s env call) n.toS := by
    unfold Heard
    rw [hbuffer, hreceived]
    exact i.toS
  exact i.update hheard ha hwait (by rw [hinbound]; exact i.s.holds)

theorem talks_peek (i : Talks sPublished rPublished n) (env : Env) (cuts : List Nat) (last : ReadEnd) :
    Talks sPublished rPublished (n.act (.peek env cuts last)) := by
  refine Net.act_peek (R := fun n n' => Talks sPublished rPublished n → Talks sPublished rPublished n')
    (fun _ i => i) (fun h h' i => h' (h i)) ?_ ?_ ?_ n env cuts last i
  · intro n data rest hn i
    have hnothing : SendsAll (fun f => f.Sound sPublished ∧ f.isAnswer = false) n.s
        { n.s with buffer := n.s.buffer ++ data } := .nothing rfl
    obtain ⟨fs, ha⟩ := hnothing.advances
    obtain ⟨pending, hcarries, hsent⟩ := i.toS
    rw [hn, ← List.append_assoc] at hcarries
    exact i.update ⟨pending, hcarries, hsent⟩ ha i.s.waiting i.s.holds
  · intro n env bodyOffset header frameLength stale hp i
    obtain ⟨pending, hcarries, hsent⟩ := i.toS
    obtain ⟨hsound, rest, hpending, hrest⟩ := hcarries.receive hp stale
    obtain ⟨fs, ha⟩ := i.s.handle env header _ hsound
    have hheard : Heard rPublished n.r
        { streamMqttHandleReceivedFrame env n.s header (memOf (n.s.buffer.drop bodyOffset) stale) with
          buffer := n.s.buffer.drop frameLength } n.toS := by
      refine ⟨rest, hrest, ?_⟩
      show sent n.r = received (streamMqttHandleReceivedFrame env n.s header _).trace ++ rest
      rw [hsent, handle_received, hpending, List.append_assoc]
      rfl
    exact i.update hheard (ha.congr rfl) (waiting_handle env header _ i.s.waiting) (holds_handle env header _ i.s.holds)
  · intro n hp i
    obtain ⟨pending, hcarries, -⟩ := i.toS
    exact absurd hp hcarries.noError

end Talks

/-! ## Runs -/

/-- The calls of the first endpoint's application, and of the second's. -/
def sCalls (ops : List NetOp) : List Call := ops.filterMap NetOp.sCall

def rCalls (ops : List NetOp) : List Call := ops.filterMap NetOp.rCall

/-- A well-formed call whose frame is a PUBLISH publishes it. -/
theorem published_of_frame {call : Call} (hwell : call.WellFormed) {f : Frame} (hf : call.frame = some f)
    (ht : f.isType .publish) {calls : List Call} (hm : call ∈ calls) : Published calls f := by
  obtain ⟨-, ⟨retain, dup, qos, id, topic, payload, rfl, rfl⟩ | ⟨id, -, rfl⟩ | hbeside⟩ := call_frame hwell hf
  · exact ⟨retain, dup, qos, id, topic, payload, hm, rfl⟩
  · exact absurd ht ((Frame.ofId_isType .pubrel id).ne (by decide))
  · exact absurd ht hbeside.1

theorem talks_run {s r : StreamMqtt} (hs : s.Idle) (hr : r.Idle) {ops : List NetOp} (h : Plain ops) :
    Talks (Published (sCalls ops)) (Published (rCalls ops)) ((Net.start s r).run ops) := by
  have hstart : ∀ {published : Frame → Prop} {a b : StreamMqtt}, a.Idle → b.Idle → Heard published a b [] := by
    intro published a b ha hb
    refine ⟨[], ?_, ?_⟩
    · rw [hb.buffer]
      exact .nil
    · unfold sent
      rw [ha.trace, hb.trace]
      exact @framesOf_format [] (by simp)
  refine List.foldlRecOn ops _ ⟨.idle hs, .idle hr, hstart hs hr, hstart hr hs⟩ fun n i op hop => ?_
  cases op with
  | s action =>
    cases action with
    | peek env cuts last => exact talks_peek i env cuts last
    | call env call =>
      have hcall := h _ hop call (.inl rfl)
      have hm : call ∈ sCalls ops := List.mem_filterMap.2 ⟨_, hop, rfl⟩
      exact talks_call i env hcall fun f hf ht => published_of_frame hcall.wellFormed hf ht hm
  | r action =>
    cases action with
    | peek env cuts last => exact (talks_peek i.swap env cuts last).swap
    | call env call =>
      have hcall := h _ hop call (.inr rfl)
      have hm : call ∈ rCalls ops := List.mem_filterMap.2 ⟨_, hop, rfl⟩
      exact (talks_call i.swap env hcall fun f hf ht => published_of_frame hcall.wellFormed hf ht hm).swap

/-- Between two steps the buffer of an endpoint holds the beginning of a frame at most. -/
theorem begun_act {n : Net} {action : Action} (hcall : ∀ env call, action = .call env call → call.Plain)
    (h : frameParser n.s.buffer = .more) : frameParser (n.act action).s.buffer = .more := by
  cases action with
  | call env call =>
    have hloop : call.isLoop = false := (hcall env call rfl).wellFormed.isLoop
    show frameParser (step n.s env call).buffer = .more
    rw [(step_keeps n.s env hloop).2.1]
    exact h
  | peek env cuts last =>
    obtain ⟨fed, -, hfed⟩ := receiver_peekLoop env (cutChunks cuts n.toS).1 n.s
    have hbuffer := congrArg Framing.Receiver.buffer hfed
    show frameParser (streamMqttPeekLoop env (cutChunks cuts n.toS).1 n.s).2.2.buffer = .more
    rw [show (streamMqttPeekLoop env (cutChunks cuts n.toS).1 n.s).2.2.buffer = _ from hbuffer]
    exact Framing.parse_foldl_feed frameParser_stable (r := receiver n.s) h _

theorem Net.act_other (n : Net) (action : Action) : (n.act action).r = n.r := by cases action <;> rfl

theorem begun_run {s r : StreamMqtt} (hs : s.Idle) (hr : r.Idle) {ops : List NetOp} (h : Plain ops) :
    frameParser ((Net.start s r).run ops).s.buffer = .more ∧ frameParser ((Net.start s r).run ops).r.buffer = .more := by
  have hstart : frameParser s.buffer = .more ∧ frameParser r.buffer = .more := by
    rw [hs.buffer, hr.buffer]
    exact ⟨rfl, rfl⟩
  refine List.foldlRecOn ops _ (motive := fun n : Net => frameParser n.s.buffer = .more ∧ frameParser n.r.buffer = .more)
    hstart fun n hn op hop => ?_
  cases op with
  | s action =>
    refine ⟨begun_act ?_ hn.1, (congrArg (frameParser ·.buffer) (n.act_other action)).trans hn.2⟩
    rintro env call rfl
    exact h _ hop call (.inl rfl)
  | r action =>
    refine ⟨(congrArg (frameParser ·.buffer) (n.swap.act_other action)).trans hn.1, @begun_act n.swap action ?_ hn.2⟩
    rintro env call rfl
    exact h _ hop call (.inr rfl)

/-- What one endpoint has been handed and what is on its way to it is what the other has written. -/
theorem Heard.conveys {published : Frame → Prop} {a b : StreamMqtt} {channel : Bytes} (h : Heard published a b channel)
    (hb : frameParser b.buffer = .more) :
    ∃ pending, Conveys frameParser b.buffer channel pending ∧ sent a = received b.trace ++ pending := by
  obtain ⟨pending, ⟨fs, hdrain, -, hfs⟩, hsent⟩ := h
  rw [List.filterMap_some] at hfs
  subst hfs
  exact ⟨fs, ⟨hb, hdrain⟩, hsent⟩

/-- The answers that an endpoint has been handed are the first to its requests. -/
theorem answers_prefix {a b : StreamMqtt} {toB toA : List Frame} (hb : sent a = received b.trace ++ toB)
    (ha : sent b = received a.trace ++ toA)
    (hanswers : (sent b).filter Frame.isAnswer = (received b.trace).filterMap Frame.answer) :
    (received a.trace).filter Frame.isAnswer <+: (sent a).filterMap Frame.answer := by
  refine ⟨toA.filter Frame.isAnswer ++ toB.filterMap Frame.answer, ?_⟩
  rw [hb, List.filterMap_append, ← hanswers, ha, List.filter_append, List.append_assoc]

theorem resentTopic_noNul : (0 : UInt8) ∉ ([0x61] : Bytes) := by decide

/-- A message of QoS 1. -/
def resentMessage : Call := .publish false false mqttQos1 7 ⟨[0x61], resentTopic_noNul⟩ [0x78]

/-- Its exchange, in which the sender transmits it twice. -/
def resentExchange : List NetOp :=
  let peek (seconds : Int) : Action := .peek (Env.at seconds) [4, 1000, 1000] .again
  [.s (.call (Env.at 0) resentMessage), .s (.call (Env.at 31) .time), .r (peek 32),
    .s (peek 33)]

theorem plain_resentMessage : resentMessage.Plain := by
  refine ⟨⟨by decide, by decide, by decide⟩, ?_⟩
  rintro f hf
  cases hf
  decide

theorem plain_resentExchange : Plain resentExchange := by
  have hpublish := plain_resentMessage
  have htime : Call.time.Plain := ⟨trivial, fun f hf => by cases hf⟩
  rintro op hop call hcall
  simp only [resentExchange, List.mem_cons, List.not_mem_nil, or_false] at hop
  rcases hop with rfl | rfl | rfl | rfl
  · rcases hcall with hcall | hcall
    · cases hcall
      exact hpublish
    · cases hcall
  · rcases hcall with hcall | hcall
    · cases hcall
      exact htime
    · cases hcall
  · rcases hcall with hcall | hcall <;> cases hcall
  · rcases hcall with hcall | hcall <;> cases hcall

/-- What a PUBLISH that a call has made is delivered as. -/
def deliveredItem (retain dup : Bool) (qos : UInt8) (id : UInt16) (topic : CString) (payload : Bytes) : MqttFrameItem :=
  mqttFrameItemNew .publish (publishFlags retain dup qos) 0 (mqttFormatPublish qos id topic payload)

/-- A PUBACK answers a QoS 1 PUBLISH with its id. -/
theorem answer_puback {f g : Frame} (h : f.answer = some g) (ht : g.isType .puback) :
    f.isType .publish ∧ mqttQosFromFlags f.flags = mqttQos1 ∧ g.packetId = f.publishId := by
  have other : ∀ {type : MqttPacketType}, g.isType type → type ≠ .puback → False := fun hg hne => hg.ne hne ht
  unfold Frame.answer at h
  split at h
  · rename_i hpublish
    split at h
    · rename_i hqos
      cases h
      exact ⟨hpublish, hqos, Frame.ofId_packetId .puback _⟩
    · split at h
      · cases h
        exact (other (Frame.ofId_isType .pubrec _) (by decide)).elim
      · cases h
  · split at h
    · cases h
      exact (other (Frame.ofId_isType .pubcomp _) (by decide)).elim
    · split at h
      · cases h
        exact (other (Frame.bare_isType .pingresp) (by decide)).elim
      · cases h

/-- The frames that an endpoint has been handed are sound. -/
theorem Talks.sound {sPublished rPublished : Frame → Prop} {n : Net} (i : Talks sPublished rPublished n) {f : Frame}
    (hf : f ∈ received n.r.trace) : f.Sound sPublished := by
  obtain ⟨pending, -, hsent⟩ := i.toR
  obtain ⟨fs, hw, hfs⟩ := i.s.writes
  have heq : sent n.s = fs := by
    unfold sent
    rw [hw]
    exact framesOf_format fun f hf => (hfs f hf).1
  exact (hfs f (by rw [← heq, hsent]; exact List.mem_append_left _ hf)).2

/-- What is delivered of QoS 0 or 1 is what the peer's application has published. -/
theorem directItem_published {calls : List Call} (hwell : ∀ call ∈ calls, call.WellFormed) {f : Frame}
    (hsound : f.Sound (Published calls)) {item : MqttFrameItem} (hitem : f.directItem = some item) :
    ∃ retain dup qos id topic payload, Call.publish retain dup qos id topic payload ∈ calls ∧ qos ≠ mqttQos2 ∧
      f = .ofPublish retain dup qos id topic payload ∧ item = deliveredItem retain dup qos id topic payload := by
  unfold Frame.directItem at hitem
  split at hitem
  · rename_i hdirect
    cases hitem
    obtain ⟨retain, dup, qos, id, topic, payload, hm, rfl⟩ := hsound.publish hdirect.1
    have hflags : mqttQosFromFlags (publishFlags retain dup qos) = qos :=
      (publishFlags_spec retain dup (hwell _ hm).1).2
    exact ⟨retain, dup, qos, id, topic, payload, hm, fun hqos => hdirect.2 (hflags.trans hqos), rfl, rfl⟩
  · cases hitem

end CMx.Mqtt
