/-
The steps of the sender: whatever its application calls, its timer does and the receiver answers,
its queue and its channel stay the sender's part of the handshake.
-/
import CMx.Net.Calls
import CMx.Net.Simulation

namespace CMx.Mqtt

open Handshake (Request Response Step Steps)

variable {msg : Message}

/-! ## Items of the queue -/

/-- Taking out the items with one type and id leaves the others. -/
theorem countP_filter_matches (l : List MqttFrameItem) (type type' : MqttPacketType) (id id' : UInt16) :
    (l.filter fun item => !item.matches type id).countP (MqttFrameItem.matches type' id') =
      if type = type' ∧ id = id' then 0 else l.countP (MqttFrameItem.matches type' id') := by
  rw [List.countP_filter]
  split
  · rename_i h
    obtain ⟨rfl, rfl⟩ := h
    simp
  · rename_i h
    refine List.countP_congr fun item _ => ?_
    simp only [MqttFrameItem.matches, Bool.and_eq_true, decide_eq_true_eq, Bool.not_eq_true', Bool.and_eq_false_iff,
      decide_eq_false_iff_not]
    constructor
    · exact And.left
    · rintro ⟨rfl, rfl⟩
      refine ⟨⟨rfl, rfl⟩, ?_⟩
      by_contra hboth
      push Not at hboth
      exact h ⟨hboth.1.symm, hboth.2.symm⟩

theorem MqttFrameItem.request_none {item : MqttFrameItem} {id : UInt16}
    (h : item.request id = none) : item.matches .publish id = false ∧ item.matches .pubrel id = false := by
  unfold MqttFrameItem.request at h
  split at h
  · cases h
  · split at h
    · cases h
    · simp_all

theorem MqttFrameItem.request_of_id {item : MqttFrameItem} {id : UInt16} (h : item.id ≠ id) :
    item.request id = none := by
  simp [MqttFrameItem.request, MqttFrameItem.matches, h]

theorem MqttFrameItem.request_of_type {item : MqttFrameItem} (hpub : item.type ≠ .publish) (hrel : item.type ≠ .pubrel)
    (id : UInt16) : item.request id = none := by
  simp [MqttFrameItem.request, MqttFrameItem.matches, hpub, hrel]

/-- The frame of an item of the queue. -/
theorem SenderItem.ofFrame {f : Frame} {item : MqttFrameItem} (hproper : f.Proper) (hf : ToReceiver msg f)
    (hb : item.buffer = f.format) (hr : f.request msg.id = item.request msg.id) : SenderItem msg item :=
  ⟨f, hproper, hf, hb, hr⟩

theorem toReceiver_other {f : Frame} (hpub : ¬ f.isPublishQos2) (hrel : ¬ f.isType .pubrel) : ToReceiver msg f :=
  ⟨fun h => absurd h (not_or.2 ⟨hpub, hrel⟩), fun h => absurd h hpub⟩

/-! ## Events beside the exchange -/

/-- No packet of the sender is written, and no release is complete. -/
def Aside (msg : Message) (e : Event) : Prop :=
  e.Writes (fun f => ToReceiver msg f ∧ f.request msg.id = none) ∧ e ≠ .acknowledge .pubcomp msg.id

theorem aside_frame {f : Frame} (hproper : f.Proper) (hpub : ¬ f.isPublishQos2) (hrel : ¬ f.isType .pubrel)
    (ticket : Option Ticket) : Aside msg (.write ticket f.format) :=
  ⟨⟨f, hproper, ⟨toReceiver_other hpub hrel, Frame.request_none hpub hrel _⟩, rfl⟩, by simp⟩

/-- A raw frame of another type. -/
theorem aside_type {f : Frame} (hproper : f.Proper) {type : MqttPacketType} (ht : f.isType type)
    (hpub : type ≠ .publish) (hrel : type ≠ .pubrel) (ticket : Option Ticket) : Aside msg (.write ticket f.format) :=
  aside_frame hproper (fun h => ht.ne hpub h.1) (ht.ne hrel) ticket

theorem aside_ofId {type : MqttPacketType} (hpub : type ≠ .publish) (hrel : type ≠ .pubrel) (id : UInt16)
    (ticket : Option Ticket) : Aside msg (.write ticket (Frame.ofId type id).format) :=
  aside_type (Frame.ofId_proper type id) (Frame.ofId_isType type id) hpub hrel ticket

theorem aside_empty {type : MqttPacketType} (hpub : type ≠ .publish) (hrel : type ≠ .pubrel)
    (ticket : Option Ticket) : Aside msg (.write ticket (mqttFormatFrame type.toByte 0 [])) :=
  aside_type (f := ⟨type.toByte, 0, []⟩) ⟨MqttPacketType.toByte_lt type, show (0 : UInt8) < 16 by decide, Nat.zero_le _⟩
    (MqttPacketType.ofByte_toByte type) hpub hrel ticket

theorem releases_aside : Releases (Aside msg) where
  notify := fun _ => ⟨trivial, by simp⟩
  deliver := fun _ _ _ => ⟨trivial, by simp⟩
  release := fun _ _ => ⟨trivial, by simp⟩

/-! ## One step -/

/-- The sender's step from `s` to `s'` is some steps of the handshake, after which the responses
on the way to it are `backward`. -/
structure SenderStep (msg : Message) (s s' : StreamMqtt) (h h' : Handshake.State) (backward : List Response) :
    Prop where
  steps : Steps h h'
  submitted : h'.submitted = h.submitted
  sim : SenderSim msg s' h'
  receiver : h'.held = h.held ∧ h'.delivered = h.delivered
  backward : h'.backward = backward
  sent : ∃ (es : List Event) (fs : List Frame), s'.trace = s.trace ++ es ∧ written es = fs.map Frame.format ∧
    (∀ f ∈ fs, f.Proper ∧ ToReceiver msg f) ∧ h'.forward = h.forward ++ fs.filterMap (Frame.request msg.id)

/-- A step that keeps the reassembly buffer. -/
theorem tracks_sender {n : Net} {s' : StreamMqtt} (hb : s'.buffer = n.s.buffer)
    (hstep : ∀ h, SenderSim msg n.s h → ∃ h', SenderStep msg n.s s' h h' h.backward) :
    Tracks msg n (n.update s' n.toS) := by
  intro h i
  obtain ⟨h', hs⟩ := hstep h i.sender
  obtain ⟨es, fs, ht, hw, hfs, hforward⟩ := hs.sent
  refine ⟨h', hs.steps, hs.submitted, i.sends ht hw hfs hs.sim hs.receiver hforward ?_⟩
  rw [hb, hs.backward]
  exact i.backward

/-- A step beside the exchange: the packets in the queue stay as many. -/
theorem SenderSim.aside {s s' : StreamMqtt} {h : Handshake.State} (i : SenderSim msg s h) {es : List Event}
    (hp : s'.outgoing.countP (MqttFrameItem.matches .publish msg.id) =
      s.outgoing.countP (MqttFrameItem.matches .publish msg.id))
    (hr : s'.outgoing.countP (MqttFrameItem.matches .pubrel msg.id) =
      s.outgoing.countP (MqttFrameItem.matches .pubrel msg.id))
    (hq : ∀ item ∈ s'.outgoing, SenderItem msg item) (ht : s'.trace = s.trace ++ es) (hes : ∀ e ∈ es, Aside msg e) :
    SenderStep msg s s' h h h.backward := by
  obtain ⟨fs, hw, hfs⟩ := written_frames fun e he => (hes e he).1
  refine ⟨.refl, rfl, ⟨hp.trans i.publishes, hr.trans i.releases, hq, ?_⟩, ⟨rfl, rfl⟩, rfl, es, fs, ht, hw,
    fun f hf => ⟨(hfs f hf).1, (hfs f hf).2.1⟩, ?_⟩
  · rw [ht, List.mem_append, ← i.completed]
    exact or_iff_left fun he => (hes _ he).2 rfl
  · rw [List.filterMap_eq_nil_iff.2 fun f hf => (hfs f hf).2.2, List.append_nil]

/-! ## Calls of the application -/

section Calls

variable {n : Net}

theorem tracks_unqueued {s' : StreamMqtt} (ho : s'.outgoing = n.s.outgoing) (hb : s'.buffer = n.s.buffer)
    (ht : ∃ es, s'.trace = n.s.trace ++ es ∧ ∀ e ∈ es, Aside msg e) : Tracks msg n (n.update s' n.toS) := by
  refine tracks_sender hb fun h i => ⟨h, ?_⟩
  obtain ⟨es, ht, hes⟩ := ht
  exact i.aside (by rw [ho]) (by rw [ho]) (by rw [ho]; exact i.queued) ht hes

theorem tracks_quiet {s' : StreamMqtt} (q : Quiet (Aside msg) n.s s') : Tracks msg n (n.update s' n.toS) :=
  tracks_unqueued q.outgoing q.buffer q.trace

/-- A message that is no packet of the exchange is queued. -/
theorem tracks_queues {item : MqttFrameItem} {s' : StreamMqtt} (q : Queues item n.s s')
    (hitem : SenderItem msg item) (hnone : item.request msg.id = none) : Tracks msg n (n.update s' n.toS) := by
  refine tracks_sender q.buffer fun h i => ⟨h, ?_⟩
  obtain ⟨hpub, hrel⟩ := MqttFrameItem.request_none hnone
  obtain ⟨f, hproper, hf, hbuffer, hreq⟩ := hitem
  have hwrite : Aside msg (.write (some item.ticket) item.buffer) :=
    ⟨⟨f, hproper, ⟨hf, hreq.trans hnone⟩, hbuffer⟩, by simp⟩
  have hitem : SenderItem msg item := ⟨f, hproper, hf, hbuffer, hreq⟩
  obtain ⟨es, ht, hes⟩ : ∃ es, s'.trace = n.s.trace ++ es ∧ ∀ e ∈ es, Aside msg e := by
    rcases q.trace with ht | ht
    · exact ⟨[], by rw [ht, List.append_nil], by simp⟩
    · exact ⟨[_], ht, by simpa using hwrite⟩
  rcases q.outgoing with ho | ho | ho
  · exact i.aside (by rw [ho]) (by rw [ho]) (by rw [ho]; exact i.queued) ht hes
  · refine i.aside ?_ ?_ ?_ ht hes <;> rw [ho]
    · rw [List.countP_append, List.countP_singleton, hpub]; rfl
    · rw [List.countP_append, List.countP_singleton, hrel]; rfl
    · intro item' hm
      rcases List.mem_append.1 hm with hm | hm
      · exact i.queued item' hm
      · rw [List.mem_singleton.1 hm]; exact hitem
  · refine i.aside ?_ ?_ ?_ ht hes <;> rw [ho]
    · rw [List.countP_cons_of_neg (by simp [hpub])]
    · rw [List.countP_cons_of_neg (by simp [hrel])]
    · exact List.forall_mem_cons.2 ⟨hitem, i.queued⟩

end Calls

/-! ## The timer -/

/-- The head of the queue, written again. -/
theorem SenderSim.resend {s s' : StreamMqtt} {h : Handshake.State} (i : SenderSim msg s h) {item : MqttFrameItem}
    (hm : item ∈ s.outgoing) (ho : s'.outgoing = s.outgoing) {ticket : Option Ticket}
    (ht : s'.trace = s.trace ++ [.write ticket item.buffer]) : ∃ h', SenderStep msg s s' h h' h.backward := by
  obtain ⟨f, hproper, hf, hbuffer, hreq⟩ := i.queued item hm
  have hsteps : Steps h { h with forward := h.forward ++ (item.request msg.id).toList } := by
    unfold MqttFrameItem.request
    split
    · rename_i hmatch
      have hpos : 0 < h.publishes := i.publishes ▸ List.countP_pos_iff.2 ⟨item, hm, hmatch⟩
      exact Relation.ReflTransGen.single (.resendPublish hpos)
    · split
      · rename_i hmatch
        have hpos : 0 < h.releases := i.releases ▸ List.countP_pos_iff.2 ⟨item, hm, hmatch⟩
        exact Relation.ReflTransGen.single (.resendRelease hpos)
      · simp only [Option.toList_none, List.append_nil]
        exact .refl
  refine ⟨_, hsteps, rfl, ⟨?_, ?_, ?_, ?_⟩, ⟨rfl, rfl⟩, rfl, _, [f], ht, by rw [hbuffer]; rfl, ?_, ?_⟩
  · rw [ho]; exact i.publishes
  · rw [ho]; exact i.releases
  · rw [ho]; exact i.queued
  · rw [ht, List.mem_append, ← i.completed]
    exact or_iff_left (by simp)
  · simpa using ⟨hproper, hf⟩
  · rw [← hreq]
    cases hfr : f.request msg.id <;> simp [hfr]

/-- The head of the queue, abandoned. -/
theorem SenderSim.drop {s s' : StreamMqtt} {h : Handshake.State} (i : SenderSim msg s h) {item : MqttFrameItem}
    {rest : List MqttFrameItem} (hcons : s.outgoing = item :: rest) (ho : s'.outgoing = rest)
    (ht : s'.trace = s.trace ++ [.abandon item.tag]) : ∃ h', SenderStep msg s s' h h' h.backward := by
  have hq : ∀ item ∈ s'.outgoing, SenderItem msg item := by
    intro item' hm
    refine i.queued item' ?_
    rw [hcons]
    exact List.mem_cons_of_mem _ (ho ▸ hm)
  have hcompleted : .acknowledge .pubcomp msg.id ∈ s'.trace ↔ h.completed = true := by
    rw [ht, List.mem_append, ← i.completed]
    exact or_iff_left (by simp)
  have hsent : ∃ (es : List Event) (fs : List Frame), s'.trace = s.trace ++ es ∧ written es = fs.map Frame.format ∧
      (∀ f ∈ fs, f.Proper ∧ ToReceiver msg f) ∧ h.forward = h.forward ++ fs.filterMap (Frame.request msg.id) :=
    ⟨_, [], ht, rfl, by simp, by simp⟩
  have hp := i.publishes
  have hr := i.releases
  rw [hcons] at hp hr
  -- what is abandoned is a copy of the PUBLISH, one of the PUBREL, or of another message
  by_cases hpub : item.matches .publish msg.id
  · have hrel : item.matches .pubrel msg.id = false := by
      unfold MqttFrameItem.matches at *
      simp_all
    rw [List.countP_cons_of_pos hpub] at hp
    rw [List.countP_cons_of_neg (by simp [hrel])] at hr
    refine ⟨{ h with publishes := h.publishes - 1 }, .single .dropPublish, rfl, ⟨?_, ?_, hq, hcompleted⟩, ⟨rfl, rfl⟩,
      rfl, hsent⟩
    · rw [ho]; exact Nat.eq_sub_of_add_eq hp
    · rw [ho]; exact hr
  · rw [List.countP_cons_of_neg hpub] at hp
    by_cases hrel : item.matches .pubrel msg.id
    · rw [List.countP_cons_of_pos hrel] at hr
      refine ⟨{ h with releases := h.releases - 1 }, .single .dropRelease, rfl, ⟨?_, ?_, hq, hcompleted⟩, ⟨rfl, rfl⟩,
        rfl, hsent⟩
      · rw [ho]; exact hp
      · rw [ho]; exact Nat.eq_sub_of_add_eq hr
    · rw [List.countP_cons_of_neg hrel] at hr
      refine ⟨h, .refl, rfl, ⟨?_, ?_, hq, hcompleted⟩, ⟨rfl, rfl⟩, rfl, hsent⟩
      · rw [ho]; exact hp
      · rw [ho]; exact hr

theorem tracks_ticks {n : Net} {s' : StreamMqtt} (q : Ticks n.s s') : Tracks msg n (n.update s' n.toS) := by
  rcases q.head with ⟨ho, ht⟩ | ⟨item, rest, hcons, ⟨ho, ht⟩ | ⟨ho, ht⟩⟩
  · exact tracks_unqueued ho q.buffer ⟨[], by rw [ht, List.append_nil], by simp⟩
  · refine tracks_sender q.buffer fun h i => i.resend ?_ ho ht
    rw [hcons]
    exact List.mem_cons_self ..
  · exact tracks_sender q.buffer fun h i => i.drop hcons ho ht

/-! ## Received frames -/

theorem request_pubrel (id other : UInt16) :
    (Frame.ofId .pubrel id).request other = if id = other then some .release else none := by
  rw [Frame.request_pubrel (Frame.ofId_isType .pubrel id), Frame.ofId_packetId]

theorem toReceiver_pubrel (id : UInt16) : ToReceiver msg (Frame.ofId .pubrel id) := by
  have hrel := Frame.ofId_isType .pubrel id
  exact ⟨fun _ => Frame.ofId_valid id fun _ => rfl, fun h => absurd h.1 (hrel.ne (by decide))⟩

theorem format_pubrel (id : UInt16) : (Frame.ofId .pubrel id).format = pubrelBuffer id := rfl

theorem request_pubrelItem (id other : UInt16) (tag : Nat) :
    (pubrelItem id tag).request other = if id = other then some .release else none := by
  by_cases h : id = other <;> simp [MqttFrameItem.request, MqttFrameItem.matches, pubrelItem, mqttFrameItemNew, h]

theorem senderItem_pubrel (id : UInt16) (tag : Nat) : SenderItem msg (pubrelItem id tag) :=
  .ofFrame (Frame.ofId_proper .pubrel id) (toReceiver_pubrel id) (format_pubrel id).symm
    ((request_pubrel id msg.id).trans (request_pubrelItem id msg.id tag).symm)

section Handle

variable (env : Env) {s : StreamMqtt} {h : Handshake.State} {header : MqttFixedHeader} {body : Mem}
  {backward : List Response}

theorem aside_receive (f : Frame) : Aside msg (.receive f) := ⟨trivial, by simp⟩

/-- A frame that answers nothing. -/
theorem SenderSim.other (i : SenderSim msg s h)
    (hack : ∀ type, MqttPacketType.ofByte header.type = some type → type.isAck = false) :
    SenderStep msg s (streamMqttHandleReceivedFrame env s header body) h h h.backward := by
  have hwrite : ∀ (type : MqttPacketType) id, type = .puback ∨ type = .pubrec ∨ type = .pubcomp →
      Aside msg (.write none (mqttFormatFrame type.toByte 0 (mqttPutShort id))) := by
    rintro type id (rfl | rfl | rfl) <;> exact aside_ofId (by decide) (by decide) id none
  have hping : Aside msg (.write none (mqttFormatFrame MqttPacketType.pingresp.toByte 0 [])) :=
    aside_empty (by decide) (by decide) none
  obtain ⟨ho, es, ht, hes⟩ := handle_unqueued env s header body releases_aside hwrite (fun _ => hping) hack
  have htrace : (streamMqttHandleReceivedFrame env s header body).trace =
      s.trace ++ (.receive (recorded header body) :: es) := by
    rw [ht]
    simp [StreamMqtt.log]
  exact i.aside (by rw [ho]) (by rw [ho]) (by rw [ho]; exact i.queued) htrace
    (List.forall_mem_cons.2 ⟨aside_receive _, hes⟩)

/-- What is left of the queue behind an acknowledgement, and its events. -/
theorem handleAck_spec (msg : Message) (s : StreamMqtt) (header : MqttFixedHeader) (body : Mem)
    {type : MqttPacketType} (hrec : type ≠ .pubrec) :
    (streamMqttHandleAck env (s.log (.receive (recorded header body))) header body type).outgoing =
        s.outgoing.filter (fun item => !item.matches (mqttRequestType type) (shortAt body 0)) ∧
      ∃ es, (streamMqttHandleAck env (s.log (.receive (recorded header body))) header body type).trace =
          s.trace ++ (.receive (recorded header body) :: ackEvents s type (shortAt body 0) ++ es) ∧
        ∀ e ∈ es, Aside msg e := by
  have hq : Quiet (Aside msg) _ _ :=
    handleAck_quiet env releases_aside.toForwards (s.log (.receive (recorded header body))) header body hrec
  obtain ⟨ho, ht⟩ := acknowledge_spec (s.log (.receive (recorded header body))) type (shortAt body 0)
  obtain ⟨es, he, hes⟩ := hq.trace
  refine ⟨hq.outgoing.trans ho, es, ?_, hes⟩
  rw [he, ht]
  simp [StreamMqtt.log, ackEvents]

theorem aside_ackEvents {type : MqttPacketType} {id : UInt16} (hid : ¬ (type = .pubcomp ∧ id = msg.id)) :
    ∀ e ∈ ackEvents s type id, Aside msg e := by
  intro e he
  unfold ackEvents at he
  split at he
  · rw [List.mem_singleton] at he
    subst he
    refine ⟨trivial, fun heq => hid ?_⟩
    simpa using heq
  · cases he

/-- An acknowledgement that takes no packet out of the queue. -/
theorem SenderSim.ackAside (i : SenderSim msg s h) {type : MqttPacketType} (hrec : type ≠ .pubrec)
    (hpub : ¬ (mqttRequestType type = .publish ∧ shortAt body 0 = msg.id))
    (hrel : ¬ (mqttRequestType type = .pubrel ∧ shortAt body 0 = msg.id)) :
    SenderStep msg s (streamMqttHandleAck env (s.log (.receive (recorded header body))) header body type) h h
      h.backward := by
  obtain ⟨ho, es, ht, hes⟩ := handleAck_spec env msg s header body hrec
  have hside : ¬ (type = .pubcomp ∧ shortAt body 0 = msg.id) := fun hc => hrel ⟨by rw [hc.1]; rfl, hc.2⟩
  refine i.aside ?_ ?_ ?_ ht ?_
  · rw [ho, countP_filter_matches, if_neg hpub]
  · rw [ho, countP_filter_matches, if_neg hrel]
  · rw [ho]
    exact fun item hm => i.queued item (List.mem_of_mem_filter hm)
  · refine List.forall_mem_append.2 ⟨List.forall_mem_cons.2 ⟨aside_receive _, aside_ackEvents hside⟩, hes⟩

/-- A PUBACK with the id of the message makes the sender give up publishing it. -/
theorem SenderSim.puback (i : SenderSim msg s h) (hid : shortAt body 0 = msg.id) :
    ∃ h', SenderStep msg s (streamMqttHandleAck env (s.log (.receive (recorded header body))) header body .puback) h h'
      h.backward := by
  obtain ⟨ho, es, ht, hes⟩ := handleAck_spec env msg s header body (show MqttPacketType.puback ≠ .pubrec by decide)
  have hall : ∀ e ∈ .receive (recorded header body) :: ackEvents s .puback (shortAt body 0) ++ es, Aside msg e :=
    List.forall_mem_append.2
      ⟨List.forall_mem_cons.2 ⟨aside_receive _, aside_ackEvents fun hc => by cases hc.1⟩, hes⟩
  obtain ⟨fs, hw, hfs⟩ := written_frames fun e he => (hall e he).1
  refine ⟨_, Handshake.steps_dropPublishes h h.publishes, rfl, ⟨?_, ?_, ?_, ?_⟩, ⟨rfl, rfl⟩, rfl, _, fs, ht, hw,
    fun f hf => ⟨(hfs f hf).1, (hfs f hf).2.1⟩, ?_⟩
  · rw [ho, countP_filter_matches, if_pos ⟨rfl, hid⟩, Nat.sub_self]
  · rw [ho, countP_filter_matches, if_neg fun hc => by cases hc.1]
    exact i.releases
  · rw [ho]
    exact fun item hm => i.queued item (List.mem_of_mem_filter hm)
  · rw [ht, List.mem_append, ← i.completed]
    exact or_iff_left fun he => (hall _ he).2 rfl
  · rw [List.filterMap_eq_nil_iff.2 fun f hf => (hfs f hf).2.2, List.append_nil]

/-- A PUBCOMP for the message. -/
theorem SenderSim.pubcomp (i : SenderSim msg s h) (hid : shortAt body 0 = msg.id)
    (hback : h.backward = .complete :: backward) :
    ∃ h', SenderStep msg s (streamMqttHandleAck env (s.log (.receive (recorded header body))) header body .pubcomp) h
      h' backward := by
  obtain ⟨ho, es, ht, hes⟩ := handleAck_spec env msg s header body (show MqttPacketType.pubcomp ≠ .pubrec by decide)
  have hack : ∀ e ∈ ackEvents s .pubcomp (shortAt body 0), e.Writes fun f => ToReceiver msg f ∧ f.request msg.id = none := by
    intro e he
    unfold ackEvents at he
    split at he
    · rw [List.mem_singleton.1 he]; trivial
    · cases he
  have hall : ∀ e ∈ .receive (recorded header body) :: ackEvents s .pubcomp (shortAt body 0) ++ es,
      e.Writes fun f => ToReceiver msg f ∧ f.request msg.id = none :=
    List.forall_mem_append.2 ⟨List.forall_mem_cons.2 ⟨trivial, hack⟩, fun e he => (hes e he).1⟩
  obtain ⟨fs, hw, hfs⟩ := written_frames hall
  refine ⟨_, .single (.complete hback), rfl, ⟨?_, ?_, ?_, ?_⟩, ⟨rfl, rfl⟩, rfl, _, fs, ht, hw,
    fun f hf => ⟨(hfs f hf).1, (hfs f hf).2.1⟩, ?_⟩
  · rw [ho, countP_filter_matches, if_neg fun hc => by cases hc.1]
    exact i.publishes
  · rw [ho, countP_filter_matches, if_pos ⟨rfl, hid⟩]
  · rw [ho]
    exact fun item hm => i.queued item (List.mem_of_mem_filter hm)
  · -- the acknowledgement is logged exactly if a release was queued
    have hfound : .acknowledge .pubcomp msg.id ∈ ackEvents s .pubcomp (shortAt body 0) ↔ 0 < h.releases := by
      rw [← i.releases, List.countP_pos_iff, ← List.any_eq_true, ackEvents, hid]
      show _ ∈ (if s.outgoing.any (MqttFrameItem.matches .pubrel msg.id) then _ else _) ↔ _
      split <;> rename_i hany <;> simp [hany]
    have hes' : ¬ .acknowledge .pubcomp msg.id ∈ es := fun he => (hes _ he).2 rfl
    rw [ht, List.mem_append, List.mem_append, List.mem_cons, hfound, i.completed]
    simp [hes']
  · rw [List.filterMap_eq_nil_iff.2 fun f hf => (hfs f hf).2.2, List.append_nil]

/-- The writes of a PUBREC are one PUBREL. -/
theorem sent_pubrec (s : StreamMqtt) (header : MqttFixedHeader) (body : Mem) :
    written (.receive (recorded header body) :: ackEvents s .pubrec (shortAt body 0) ++
        [.write (some (pubrelItem (shortAt body 0) s.nextTag).ticket) (pubrelBuffer (shortAt body 0))]) =
      [Frame.ofId .pubrel (shortAt body 0)].map Frame.format := by
  unfold ackEvents
  split <;> rfl

/-- A PUBREC for the message. -/
theorem SenderSim.pubrec (i : SenderSim msg s h) (hid : shortAt body 0 = msg.id)
    (hback : h.backward = .received :: backward) :
    ∃ h', SenderStep msg s (streamMqttHandleAck env (s.log (.receive (recorded header body))) header body .pubrec) h
      h' backward := by
  obtain ⟨ho, ht⟩ := handlePubrec_spec env s header body
  refine ⟨_, .single (.received hback), rfl, ⟨?_, ?_, ?_, ?_⟩, ⟨rfl, rfl⟩, rfl, _, _, ht, sent_pubrec s header body, ?_, ?_⟩
  · rw [ho, List.countP_cons_of_neg (by simp [MqttFrameItem.matches, pubrelItem, mqttFrameItemNew]),
      countP_filter_matches, if_pos ⟨rfl, hid⟩]
  · rw [ho, List.countP_cons_of_pos (by simp [MqttFrameItem.matches, pubrelItem, mqttFrameItemNew, hid]),
      countP_filter_matches, if_neg fun hc => by cases hc.1]
    exact congrArg (· + 1) i.releases
  · rw [ho]
    exact List.forall_mem_cons.2 ⟨senderItem_pubrel _ _, fun item hm => i.queued item (List.mem_of_mem_filter hm)⟩
  · rw [ht, List.mem_append, ← i.completed]
    refine or_iff_left ?_
    unfold ackEvents
    split <;> simp
  · simpa using ⟨Frame.ofId_proper .pubrel _, toReceiver_pubrel _⟩
  · rw [List.filterMap_cons, request_pubrel, if_pos hid]
    rfl

/-- A PUBREC for another message. -/
theorem SenderSim.pubrecAside (i : SenderSim msg s h) (hid : shortAt body 0 ≠ msg.id) :
    SenderStep msg s (streamMqttHandleAck env (s.log (.receive (recorded header body))) header body .pubrec) h h
      h.backward := by
  obtain ⟨ho, ht⟩ := handlePubrec_spec env s header body
  refine i.aside ?_ ?_ ?_ ht ?_
  · rw [ho, List.countP_cons_of_neg (by simp [MqttFrameItem.matches, pubrelItem, mqttFrameItemNew]),
      countP_filter_matches, if_neg fun hc => hid hc.2]
  · rw [ho, List.countP_cons_of_neg (by simp [MqttFrameItem.matches, pubrelItem, mqttFrameItemNew, hid]),
      countP_filter_matches, if_neg fun hc => by cases hc.1]
  · rw [ho]
    exact List.forall_mem_cons.2 ⟨senderItem_pubrel _ _, fun item hm => i.queued item (List.mem_of_mem_filter hm)⟩
  · have hwrite : Aside msg
        (.write (some (pubrelItem (shortAt body 0) s.nextTag).ticket) (pubrelBuffer (shortAt body 0))) :=
      ⟨⟨_, Frame.ofId_proper .pubrel _, ⟨toReceiver_pubrel _, by rw [request_pubrel, if_neg hid]⟩, rfl⟩, by simp⟩
    refine List.forall_mem_append.2 ⟨List.forall_mem_cons.2 ⟨aside_receive _, ?_⟩, by simpa using hwrite⟩
    exact aside_ackEvents fun hc => by cases hc.1

/-- Whatever frame the sender receives: it is the response that it is for the handshake. -/
theorem SenderSim.handle (i : SenderSim msg s h) (hok : ToSender (recorded header body))
    (hback : h.backward = ((recorded header body).response msg.id).toList ++ backward) :
    ∃ h', SenderStep msg s (streamMqttHandleReceivedFrame env s header body) h h' backward := by
  rcases isAck_or header.type with ⟨type, ht, hack⟩ | hother
  · have hf : (recorded header body).isType type := ht
    rw [handle_ack env s header body ht hack]
    cases type with
    | pubrec =>
      rw [Frame.response_pubrec hf, ← packetId_eq hf rfl (hok (.inl hf))] at hback
      by_cases hm : shortAt body 0 = msg.id
      · rw [if_pos hm] at hback
        exact i.pubrec env hm hback
      · rw [if_neg hm] at hback
        obtain rfl : h.backward = backward := hback
        exact ⟨h, i.pubrecAside env hm⟩
    | pubcomp =>
      rw [Frame.response_pubcomp hf, ← packetId_eq hf rfl (hok (.inr hf))] at hback
      by_cases hm : shortAt body 0 = msg.id
      · rw [if_pos hm] at hback
        exact i.pubcomp env hm hback
      · rw [if_neg hm] at hback
        obtain rfl : h.backward = backward := hback
        exact ⟨h, i.ackAside env (by decide) (fun hc => by cases hc.1) fun hc => hm hc.2⟩
    | puback =>
      -- a PUBACK is no response, but it may take the PUBLISH out of the queue
      rw [Frame.response_none (hf.ne (by decide)) (hf.ne (by decide))] at hback
      obtain rfl : h.backward = backward := hback
      by_cases hm : shortAt body 0 = msg.id
      · exact i.puback env hm
      · exact ⟨h, i.ackAside env (by decide) (fun hc => hm hc.2) fun hc => by cases hc.1⟩
    | suback | unsuback =>
      rw [Frame.response_none (hf.ne (by decide)) (hf.ne (by decide))] at hback
      obtain rfl : h.backward = backward := hback
      exact ⟨h, i.ackAside env (by decide) (fun hc => by cases hc.1) fun hc => by cases hc.1⟩
    | _ => cases hack
  · have hrec : ¬ (recorded header body).isType .pubrec := fun hc => absurd (hother .pubrec hc) (by decide)
    have hcomp : ¬ (recorded header body).isType .pubcomp := fun hc => absurd (hother .pubcomp hc) (by decide)
    rw [Frame.response_none hrec hcomp] at hback
    obtain rfl : h.backward = backward := hback
    exact ⟨h, i.other env hother⟩

end Handle

/-- The reassembly loop of the sender hands over a frame. -/
theorem tracks_received {n : Net} (env : Env) {bodyOffset : Nat} {header : MqttFixedHeader} {frameLength : Nat}
    (hp : mqttParseFrame n.s.buffer = .frame bodyOffset header frameLength) (stale : Mem) :
    Tracks msg n (n.update { streamMqttHandleReceivedFrame env n.s header (memOf (n.s.buffer.drop bodyOffset) stale)
      with buffer := n.s.buffer.drop frameLength } n.toS) := by
  intro h i
  obtain ⟨hok, backward, hback, hcarries⟩ := i.backward.receive hp stale
  obtain ⟨h', hs⟩ := i.sender.handle env hok hback
  obtain ⟨es, fs, ht, hw, hfs, hforward⟩ := hs.sent
  refine ⟨h', hs.steps, hs.submitted, i.sends ht hw hfs ?_ hs.receiver hforward ?_⟩
  · exact ⟨hs.sim.publishes, hs.sim.releases, hs.sim.queued, hs.sim.completed⟩
  · rw [hs.backward]
    exact hcarries

/-! ## All calls -/

/-- A well-formed call that uses another id puts no packet of the exchange on the wire. -/
theorem toReceiver_call {call : Call} (hwell : call.WellFormed) (hmessage : ∀ m, call.message = some m → m.id ≠ msg.id)
    (hother : ∀ id, call.otherId = some id → id ≠ msg.id) {f : Frame} (hf : call.frame = some f) :
    f.Proper ∧ ToReceiver msg f ∧ f.request msg.id = none := by
  obtain ⟨hproper, ⟨retain, dup, qos, id, topic, payload, rfl, rfl⟩ | ⟨id, rfl, rfl⟩ | hbeside⟩ := call_frame hwell hf
  · obtain ⟨hq, ht, hp⟩ := hwell
    have hid : id ≠ msg.id := by
      by_cases hqos : qos = mqttQos2
      · exact hmessage ⟨retain, dup, id, topic, payload⟩ (by rw [Call.message, if_pos hqos])
      · exact hother id (by rw [Call.otherId, if_neg hqos])
    refine ⟨hproper, ⟨fun _ => Frame.ofPublish_valid retain dup id hq ht hp, fun hkind hm => ?_⟩, ?_⟩
    · have hpos : qos > mqttQos0 := by
        rw [(Frame.ofPublish_isPublishQos2 retain dup id hq).1 hkind]; decide
      exact absurd ((Frame.ofPublish_publishId retain dup id ht hpos).symm.trans hm) hid
    · rw [Frame.request_ofPublish retain dup id hq ht, if_neg fun hc => hid hc.2]
  · exact ⟨hproper, toReceiver_pubrel id, by rw [request_pubrel, if_neg (hother id rfl)]⟩
  · obtain ⟨hpub, -, hrel, -⟩ := hbeside
    have hpub : ¬ f.isPublishQos2 := fun h => hpub h.1
    exact ⟨hproper, toReceiver_other hpub hrel, Frame.request_none hpub hrel _⟩

/-- Nor does it queue one. -/
theorem request_queueKey {call : Call} (hmessage : ∀ m, call.message = some m → m.id ≠ msg.id)
    (hother : ∀ id, call.otherId = some id → id ≠ msg.id) {item : MqttFrameItem}
    (hkey : call.queueKey = some (item.type, item.id)) : item.request msg.id = none := by
  cases call with
  | publish retain dup qos id topic payload =>
    obtain ⟨-, rfl⟩ : MqttPacketType.publish = item.type ∧ id = item.id := by simpa [Call.queueKey] using hkey
    refine MqttFrameItem.request_of_id ?_
    by_cases hqos : qos = mqttQos2
    · exact hmessage ⟨retain, dup, item.id, topic, payload⟩ (by rw [Call.message, if_pos hqos])
    · exact hother item.id (by rw [Call.otherId, if_neg hqos])
  | pubrel id =>
    obtain ⟨-, rfl⟩ : MqttPacketType.pubrel = item.type ∧ id = item.id := by simpa [Call.queueKey] using hkey
    exact MqttFrameItem.request_of_id (hother item.id rfl)
  | subscribe id topic qos =>
    obtain ⟨ht, -⟩ : MqttPacketType.subscribe = item.type ∧ id = item.id := by simpa [Call.queueKey] using hkey
    exact MqttFrameItem.request_of_type (by rw [← ht]; decide) (by rw [← ht]; decide) _
  | unsubscribe id topic =>
    obtain ⟨ht, -⟩ : MqttPacketType.unsubscribe = item.type ∧ id = item.id := by simpa [Call.queueKey] using hkey
    exact MqttFrameItem.request_of_type (by rw [← ht]; decide) (by rw [← ht]; decide) _
  | _ => cases hkey

/-- `stream_time` of the sender. -/
theorem tracks_time (n : Net) (env : Env) : Tracks msg n (n.act (.call env .time)) := by
  have hping : Quiet (Aside msg) n.s (streamMqttKeepAliveTime env n.s) :=
    quiet_keepAliveTime env n.s (aside_empty (by decide) (by decide) none)
  obtain ⟨es, hes, -⟩ := hping.trace
  have hresend := ticks_resendTime env (streamMqttKeepAliveTime env n.s)
  have hsend := ticks_sendTime env (streamMqttResendTime env (streamMqttKeepAliveTime env n.s))
  obtain ⟨es', hes'⟩ := hresend.trace
  have htimer : Tracks msg n (n.update (streamMqttResendTime env (streamMqttKeepAliveTime env n.s)) n.toS) :=
    (tracks_quiet hping).next (tracks_ticks hresend) ⟨es, hes⟩ hresend.trace
  exact htimer.next (tracks_ticks hsend) ⟨es ++ es', by rw [hes', hes, List.append_assoc]⟩ hsend.trace

/-- Any well-formed call of the sender's application that uses another id. -/
theorem tracks_call {n : Net} (env : Env) {call : Call} (hwell : call.WellFormed)
    (hmessage : ∀ m, call.message = some m → m.id ≠ msg.id) (hother : ∀ id, call.otherId = some id → id ≠ msg.id) :
    Tracks msg n (n.act (.call env call)) := by
  by_cases htime : call = .time
  · subst htime
    exact tracks_time n env
  · have heffect := call_effect n.s env hwell htime
    rcases heffect.sends with ⟨item, f, hkey, hf, hb, q⟩ | ⟨ho, es, ht, hes⟩
    · obtain ⟨hproper, hrec, hnone⟩ := toReceiver_call hwell hmessage hother hf
      have hitem := request_queueKey hmessage hother hkey
      exact tracks_queues q (.ofFrame hproper hrec hb (hnone.trans hitem.symm)) hitem
    · refine tracks_unqueued ho heffect.buffer ⟨es, ht, fun e he => ?_⟩
      obtain ⟨f, hf, rfl⟩ := hes e he
      obtain ⟨hproper, hrec, hnone⟩ := toReceiver_call hwell hmessage hother hf
      exact ⟨⟨f, hproper, ⟨hrec, hnone⟩, rfl⟩, by simp⟩

/-- The call that publishes the message. -/
def Message.call (msg : Message) : Call := .publish msg.retain msg.dup mqttQos2 msg.id msg.topic msg.payload

/-- The sender submits the message. -/
theorem Sim.submit {n : Net} {h : Handshake.State} (i : Sim msg n h) (env : Env) (hwell : msg.call.WellFormed)
    (hsub : h.submitted = false) :
    ∃ h', Steps h h' ∧ h'.submitted = true ∧ Sim msg (n.act (.call env msg.call)) h' := by
  obtain ⟨hq, ht, hp⟩ := hwell
  have q := queues_publish env n.s msg.retain msg.dup mqttQos2 msg.id msg.topic msg.payload
  have ho := outgoing_publish env n.s msg.retain msg.dup (show mqttQos2 > mqttQos0 by decide) msg.id msg.topic msg.payload
  have hproper : msg.frame.Proper := Frame.ofPublish_proper msg.retain msg.dup msg.id ht hp
  have hrec : ToReceiver msg msg.frame :=
    ⟨fun _ => Frame.ofPublish_valid msg.retain msg.dup msg.id hq ht hp, fun _ _ => rfl⟩
  have hrequest : msg.frame.request msg.id = some .publish := by
    rw [Message.frame, Frame.request_ofPublish msg.retain msg.dup msg.id hq ht, if_pos ⟨rfl, rfl⟩]
  have hformat : publishBuffer msg.retain msg.dup mqttQos2 msg.id msg.topic msg.payload = msg.frame.format :=
    (Frame.format_ofPublish msg.retain msg.dup msg.id ht hp).symm
  -- whether the message is written at once or waits
  obtain ⟨now, es, hes, hw, hack⟩ : ∃ (now : Bool) (es : List Event),
      (step n.s env msg.call).trace = n.s.trace ++ es ∧
        written es = (if now then [msg.frame] else []).map Frame.format ∧
        ¬ .acknowledge .pubcomp msg.id ∈ es := by
    rcases q.trace with htrace | htrace
    · exact ⟨false, [], by rw [List.append_nil]; exact htrace, rfl, by simp⟩
    · refine ⟨true, _, htrace, ?_, by simp⟩
      show [publishBuffer _ _ _ _ _ _] = _
      rw [hformat]
      rfl
  refine ⟨_, .single (.submit now hsub), rfl, i.sends hes hw ?_ ⟨?_, ?_, ?_, ?_⟩ ⟨rfl, rfl⟩ ?_ ?_⟩
  · intro f hf
    cases now with
    | true => rw [List.mem_singleton.1 hf]; exact ⟨hproper, hrec⟩
    | false => cases hf
  · show (streamMqttPublish _ _ _ _ _ _ _ _).2.outgoing.countP _ = _
    rw [ho, List.countP_append, i.sender.publishes, List.countP_singleton]
    simp [MqttFrameItem.matches, publishItem, mqttFrameItemNew]
  · show (streamMqttPublish _ _ _ _ _ _ _ _).2.outgoing.countP _ = _
    rw [ho, List.countP_append, i.sender.releases, List.countP_singleton]
    simp [MqttFrameItem.matches, publishItem, mqttFrameItemNew]
  · intro item hm
    rcases List.mem_append.1 (ho ▸ hm : item ∈ n.s.outgoing ++ [_]) with hm | hm
    · exact i.sender.queued item hm
    · rw [List.mem_singleton.1 hm]
      refine .ofFrame hproper hrec hformat (hrequest.trans ?_)
      simp [MqttFrameItem.request, MqttFrameItem.matches, publishItem, mqttFrameItemNew]
  · rw [hes, List.mem_append, ← i.sender.completed]
    exact or_iff_left hack
  · cases now with
    | true => simp [hrequest]
    | false => simp
  · rw [show (step n.s env msg.call).buffer = n.s.buffer from q.buffer]
    exact i.backward

end CMx.Mqtt
