/-
The steps of the receiver: it holds the message from its PUBLISH to its PUBREL, which delivers it,
and answers both; nothing else that it does takes part in the exchange.
-/
import CMx.Net.Calls
import CMx.Net.Simulation

namespace CMx.Mqtt

open Handshake (Request Response Step Steps)

variable {msg : Message}

/-! ## Events beside the exchange -/

/-- No packet of the receiver is written, and the message is not delivered. -/
def Apart (msg : Message) (e : Event) : Prop :=
  e.Writes (fun f => ToSender f ∧ f.response msg.id = none) ∧
    ∀ item byObserver, e = .deliver item byObserver → ¬ (item.isPublishQos2 ∧ item.id = msg.id)

theorem qos2Deliveries_apart {es : List Event} (h : ∀ e ∈ es, Apart msg e) : qos2Deliveries msg.id es = [] := by
  refine List.filter_eq_nil_iff.2 fun item hm => ?_
  obtain ⟨⟨item', byObserver⟩, hd, rfl⟩ := List.mem_map.1 hm
  obtain ⟨e, he, hdeliver⟩ := List.mem_filterMap.1 hd
  cases e with
  | deliver item'' byObserver' =>
    cases hdeliver
    have hnot := (h _ he).2 item' byObserver rfl
    simpa [MqttFrameItem.isPublishQos2, and_assoc] using hnot
  | _ => cases hdeliver

theorem toSender_other {f : Frame} (hrec : ¬ f.isType .pubrec) (hcomp : ¬ f.isType .pubcomp) : ToSender f :=
  fun h => absurd h (not_or.2 ⟨hrec, hcomp⟩)

theorem apart_frame {f : Frame} (hproper : f.Proper) (hrec : ¬ f.isType .pubrec) (hcomp : ¬ f.isType .pubcomp)
    (ticket : Option Ticket) : Apart msg (.write ticket f.format) :=
  ⟨⟨f, hproper, ⟨toSender_other hrec hcomp, Frame.response_none hrec hcomp _⟩, rfl⟩, by simp⟩

theorem apart_type {f : Frame} (hproper : f.Proper) {type : MqttPacketType} (ht : f.isType type)
    (hrec : type ≠ .pubrec) (hcomp : type ≠ .pubcomp) (ticket : Option Ticket) :
    Apart msg (.write ticket f.format) :=
  apart_frame hproper (ht.ne hrec) (ht.ne hcomp) ticket

theorem apart_empty {type : MqttPacketType} (hrec : type ≠ .pubrec) (hcomp : type ≠ .pubcomp)
    (ticket : Option Ticket) : Apart msg (.write ticket (mqttFormatFrame type.toByte 0 [])) :=
  apart_type (f := ⟨type.toByte, 0, []⟩) ⟨MqttPacketType.toByte_lt type, show (0 : UInt8) < 16 by decide, Nat.zero_le _⟩
    (MqttPacketType.ofByte_toByte type) hrec hcomp ticket

theorem apart_ofId {type : MqttPacketType} (hrec : type ≠ .pubrec) (hcomp : type ≠ .pubcomp) (id : UInt16)
    (ticket : Option Ticket) : Apart msg (.write ticket (Frame.ofId type id).format) :=
  apart_type (Frame.ofId_proper type id) (Frame.ofId_isType type id) hrec hcomp ticket

theorem answers_apart : Answers (Apart msg) where
  notify := fun _ => ⟨trivial, by simp⟩
  deliver := by
    rintro item byObserver hq
    refine ⟨trivial, fun item' _ heq hc => hq ?_⟩
    cases heq
    exact hc.1
  puback := fun id => apart_ofId (by decide) (by decide) id none
  pubrel := fun ticket id => apart_ofId (by decide) (by decide) id ticket
  pingresp := apart_empty (by decide) (by decide) none
  acknowledge := fun _ _ => ⟨trivial, by simp⟩

/-! ## One step -/

/-- The receiver's step from `r` to `r'` is some steps of the handshake, after which the requests
on the way to it are `forward`. -/
structure ReceiverStep (msg : Message) (r r' : StreamMqtt) (h h' : Handshake.State) (forward : List Request) :
    Prop where
  steps : Steps h h'
  submitted : h'.submitted = h.submitted
  sim : ReceiverSim msg r' h'
  sender : h'.publishes = h.publishes ∧ h'.releases = h.releases ∧ h'.completed = h.completed
  forward : h'.forward = forward
  sent : ∃ (es : List Event) (fs : List Frame), r'.trace = r.trace ++ es ∧ written es = fs.map Frame.format ∧
    (∀ f ∈ fs, f.Proper ∧ ToSender f) ∧ h'.backward = h.backward ++ fs.filterMap (Frame.response msg.id)

/-- A step that keeps the reassembly buffer. -/
theorem tracks_receiver {n : Net} {r' : StreamMqtt} (hb : r'.buffer = n.r.buffer)
    (hstep : ∀ h, ReceiverSim msg n.r h → ∃ h', ReceiverStep msg n.r r' h h' h.forward) :
    Tracks msg n (n.swap.update r' n.toR).swap := by
  intro h i
  obtain ⟨h', hr⟩ := hstep h i.receiver
  obtain ⟨es, fs, ht, hw, hfs, hbackward⟩ := hr.sent
  refine ⟨h', hr.steps, hr.submitted, i.answers ht hw hfs hr.sim hr.sender hbackward ?_⟩
  rw [hb, hr.forward]
  exact i.forward

/-- A step beside the exchange. -/
theorem ReceiverSim.apart {r r' : StreamMqtt} {h : Handshake.State} (i : ReceiverSim msg r h) {es : List Event}
    (hi : r'.inbound = r.inbound) (hq : ∀ item ∈ r'.outgoing, ReceiverItem msg item) (ht : r'.trace = r.trace ++ es)
    (hes : ∀ e ∈ es, Apart msg e) : ReceiverStep msg r r' h h h.forward := by
  obtain ⟨fs, hw, hfs⟩ := written_frames fun e he => (hes e he).1
  refine ⟨.refl, rfl, ⟨?_, ?_, ?_, hq⟩, ⟨rfl, rfl, rfl⟩, rfl, es, fs, ht, hw, fun f hf => ⟨(hfs f hf).1, (hfs f hf).2.1⟩,
    ?_⟩
  · rw [hi]; exact i.publishes
  · rw [hi]; exact i.held
  · rw [ht, qos2Deliveries_append, qos2Deliveries_apart hes, List.append_nil]
    exact i.delivered
  · rw [List.filterMap_eq_nil_iff.2 fun f hf => (hfs f hf).2.2, List.append_nil]

/-! ## Calls and the timer -/

section Calls

variable {n : Net}

theorem tracks_apart {r' : StreamMqtt} (ho : ∀ item ∈ r'.outgoing, item ∈ n.r.outgoing ∨ ReceiverItem msg item)
    (hi : r'.inbound = n.r.inbound) (hb : r'.buffer = n.r.buffer)
    (ht : (∀ item ∈ n.r.outgoing, ReceiverItem msg item) →
      ∃ es, r'.trace = n.r.trace ++ es ∧ ∀ e ∈ es, Apart msg e) :
    Tracks msg n (n.swap.update r' n.toR).swap := by
  refine tracks_receiver hb fun h i => ⟨h, ?_⟩
  obtain ⟨es, ht, hes⟩ := ht i.queued
  exact i.apart hi (fun item hm => (ho item hm).elim (i.queued item) id) ht hes

theorem apart_item {item : MqttFrameItem} (h : ReceiverItem msg item) :
    Apart msg (.write (some item.ticket) item.buffer) := by
  obtain ⟨f, hproper, hf, hbuffer, hnone⟩ := h
  exact ⟨⟨f, hproper, ⟨hf, hnone⟩, hbuffer⟩, by simp⟩

/-- The receiver's application queues a message of its own. -/
theorem tracks_queues_receiver {item : MqttFrameItem} {r' : StreamMqtt} (q : Queues item n.r r')
    (hitem : ReceiverItem msg item) : Tracks msg n (n.swap.update r' n.toR).swap := by
  refine tracks_apart ?_ q.inbound q.buffer fun _ => ?_
  · intro item' hm
    rcases q.outgoing with ho | ho | ho <;> rw [ho] at hm
    · exact .inl hm
    · rcases List.mem_append.1 hm with hm | hm
      · exact .inl hm
      · rw [List.mem_singleton.1 hm]; exact .inr hitem
    · rcases List.mem_cons.1 hm with rfl | hm
      · exact .inr hitem
      · exact .inl hm
  · rcases q.trace with ht | ht
    · exact ⟨[], by rw [ht, List.append_nil], by simp⟩
    · exact ⟨[_], ht, List.forall_mem_singleton.2 (apart_item hitem)⟩

theorem tracks_ticks_receiver {r' : StreamMqtt} (q : Ticks n.r r') : Tracks msg n (n.swap.update r' n.toR).swap := by
  refine tracks_apart ?_ q.inbound q.buffer fun hqueued => ?_
  · intro item' hm
    rcases q.head with ⟨ho, -⟩ | ⟨item, rest, hcons, ⟨ho, -⟩ | ⟨ho, -⟩⟩ <;> rw [ho] at hm
    · exact .inl hm
    · exact .inl hm
    · rw [hcons]
      exact .inl (List.mem_cons_of_mem _ hm)
  · rcases q.head with ⟨-, ht⟩ | ⟨item, rest, hcons, ⟨-, ht⟩ | ⟨-, ht⟩⟩
    · exact ⟨[], by rw [ht, List.append_nil], by simp⟩
    · have hitem := hqueued item (by rw [hcons]; exact List.mem_cons_self ..)
      exact ⟨[_], ht, List.forall_mem_singleton.2 (apart_item hitem)⟩
    · exact ⟨[_], ht, List.forall_mem_singleton.2 ⟨trivial, by simp⟩⟩

/-- A frame that is no packet of the receiver. -/
theorem toSender_call {call : Call} (hwell : call.WellFormed) {f : Frame} (hf : call.frame = some f) :
    f.Proper ∧ ToSender f ∧ f.response msg.id = none := by
  obtain ⟨hproper, ⟨retain, dup, qos, id, topic, payload, rfl, rfl⟩ | ⟨id, rfl, rfl⟩ | hbeside⟩ := call_frame hwell hf
  · have htype : (Frame.ofPublish retain dup qos id topic payload).isType .publish := rfl
    have hrec : ¬ (Frame.ofPublish retain dup qos id topic payload).isType .pubrec :=
      htype.ne (by decide)
    have hcomp : ¬ (Frame.ofPublish retain dup qos id topic payload).isType .pubcomp :=
      htype.ne (by decide)
    exact ⟨hproper, toSender_other hrec hcomp, Frame.response_none hrec hcomp _⟩
  · have htype := Frame.ofId_isType .pubrel id
    have hrec : ¬ (Frame.ofId .pubrel id).isType .pubrec := htype.ne (by decide)
    have hcomp : ¬ (Frame.ofId .pubrel id).isType .pubcomp := htype.ne (by decide)
    exact ⟨hproper, toSender_other hrec hcomp, Frame.response_none hrec hcomp _⟩
  · obtain ⟨-, hrec, -, hcomp⟩ := hbeside
    exact ⟨hproper, toSender_other hrec hcomp, Frame.response_none hrec hcomp _⟩

/-- `stream_time` of the receiver. -/
theorem tracks_time_receiver (n : Net) (env : Env) : Tracks msg n (n.swap.act (.call env .time)).swap := by
  have hping : Quiet (Apart msg) n.r (streamMqttKeepAliveTime env n.r) :=
    quiet_keepAliveTime env n.r (apart_empty (by decide) (by decide) none)
  obtain ⟨es, hes, hapart⟩ := hping.trace
  have hresend := ticks_resendTime env (streamMqttKeepAliveTime env n.r)
  have hsend := ticks_sendTime env (streamMqttResendTime env (streamMqttKeepAliveTime env n.r))
  obtain ⟨es', hes'⟩ := hresend.trace
  have hkeep : Tracks msg n (n.swap.update (streamMqttKeepAliveTime env n.r) n.toR).swap := by
    refine tracks_apart ?_ hping.inbound hping.buffer fun _ => ⟨es, hes, hapart⟩
    rw [hping.outgoing]
    exact fun item hm => .inl hm
  have htimer := hkeep.next_receiver (tracks_ticks_receiver hresend) ⟨es, hes⟩ hresend.trace
  exact htimer.next_receiver (tracks_ticks_receiver hsend) ⟨es ++ es', by rw [hes', hes, List.append_assoc]⟩ hsend.trace

/-- Any well-formed call of the receiver's application. -/
theorem tracks_call_receiver {n : Net} (env : Env) {call : Call} (hwell : call.WellFormed) :
    Tracks msg n (n.swap.act (.call env call)).swap := by
  by_cases htime : call = .time
  · subst htime
    exact tracks_time_receiver n env
  · have heffect := call_effect n.r env hwell htime
    rcases heffect.sends with ⟨item, f, -, hf, hb, q⟩ | ⟨ho, es, ht, hes⟩
    · obtain ⟨hproper, hsend, hnone⟩ := toSender_call hwell hf
      exact tracks_queues_receiver q ⟨f, hproper, hsend, hb, hnone⟩
    · refine tracks_apart ?_ heffect.inbound heffect.buffer fun _ => ⟨es, ht, fun e he => ?_⟩
      · exact fun item hm => .inl (ho ▸ hm)
      · obtain ⟨f, hf, rfl⟩ := hes e he
        obtain ⟨hproper, hsend, hnone⟩ := toSender_call hwell hf
        exact ⟨⟨f, hproper, ⟨hsend, hnone⟩, rfl⟩, by simp⟩

end Calls

/-! ## Received frames -/

theorem receiverItem_pubrel (id : UInt16) (tag : Nat) : ReceiverItem msg (pubrelItem id tag) := by
  have htype := Frame.ofId_isType .pubrel id
  have hrec : ¬ (Frame.ofId .pubrel id).isType .pubrec := htype.ne (by decide)
  have hcomp : ¬ (Frame.ofId .pubrel id).isType .pubcomp := htype.ne (by decide)
  exact ⟨_, Frame.ofId_proper .pubrel id, toSender_other hrec hcomp, rfl, Frame.response_none hrec hcomp _⟩

theorem response_pubrec (id other : UInt16) :
    (Frame.ofId .pubrec id).response other = if id = other then some .received else none := by
  rw [Frame.response_pubrec (Frame.ofId_isType .pubrec id), Frame.ofId_packetId]

theorem response_pubcomp (id other : UInt16) :
    (Frame.ofId .pubcomp id).response other = if id = other then some .complete else none := by
  rw [Frame.response_pubcomp (Frame.ofId_isType .pubcomp id), Frame.ofId_packetId]

theorem toSender_ofId (id : UInt16) {type : MqttPacketType} (ht : type = .pubrec ∨ type = .pubcomp) :
    ToSender (Frame.ofId type id) := by
  intro _
  rcases ht with rfl | rfl <;> exact Frame.ofId_valid id fun _ => rfl

section Handle

variable (env : Env) {r : StreamMqtt} {h : Handshake.State} {header : MqttFixedHeader} {body : Mem}
  {forward : List Request}

/-- What a QoS 2 PUBLISH does to the receiver. -/
theorem handlePublish_spec (hkind : (recorded header body).isPublishQos2) (hv : (recorded header body).valid = true)
    (hp : ∀ item ∈ r.inbound, item.type = .publish) :
    (streamMqttHandleReceivedFrame env r header body).inbound =
        Slots.put MqttFrameItem.id r.inbound (recorded header body).item ∧
      (streamMqttHandleReceivedFrame env r header body).outgoing = r.outgoing ∧
      (streamMqttHandleReceivedFrame env r header body).trace =
        r.trace ++ [.receive (recorded header body),
          .write none (Frame.ofId .pubrec (recorded header body).publishId).format] := by
  refine ⟨inbound_publish env hkind hv hp, ?_, ?_⟩
  · rw [handle_publish env r body hkind.1, handlePublish_qos2 env _ header body hkind.2]
    rfl
  · rw [handle_publish env r body hkind.1, handlePublish_qos2 env _ header body hkind.2, publishId_eq hkind hv]
    simp only [StreamMqtt.write, StreamMqtt.log, List.append_assoc, List.cons_append, List.nil_append]
    rfl

/-- What a PUBREL does to it. -/
theorem handlePubrel_spec (ht : (recorded header body).isType .pubrel) (hv : (recorded header body).valid = true) :
    (streamMqttHandleReceivedFrame env r header body).inbound =
        Slots.drop MqttFrameItem.id r.inbound (recorded header body).packetId ∧
      (streamMqttHandleReceivedFrame env r header body).outgoing = r.outgoing ∧
      ∃ es, (streamMqttHandleReceivedFrame env r header body).trace =
          r.trace ++ ([.receive (recorded header body),
            .write none (Frame.ofId .pubcomp (recorded header body).packetId).format] ++ es) ∧
        written es = [] ∧
        (deliveries es).map (·.1) = r.inbound.filter fun item => item.id = (recorded header body).packetId := by
  refine ⟨inbound_pubrel env ht hv, ?_, ?_⟩
  · rw [handle_pubrel env r body ht]
    exact (handlePubrel_quiet env _ header body releases_noReceive).outgoing
  · obtain ⟨es, htrace, hw, -, hd, -⟩ := releaseLoop_delivers env (shortAt body 0) [] r.inbound
      ((r.log (.receive (recorded header body))).write none (Frame.ofId .pubcomp (shortAt body 0)).format)
    rw [packetId_eq ht rfl hv] at htrace hd
    refine ⟨es, ?_, hw, hd⟩
    rw [handle_pubrel env r body ht]
    have hhandle : streamMqttHandlePubrel env (r.log (.receive (recorded header body))) header body =
        streamMqttReleaseLoop env (recorded header body).packetId [] r.inbound
          ((r.log (.receive (recorded header body))).write none
            (Frame.ofId .pubcomp (recorded header body).packetId).format) := by
      rw [← packetId_eq ht rfl hv]
      rfl
    rw [hhandle, htrace]
    simp [StreamMqtt.write, StreamMqtt.log]

/-- A QoS 2 PUBLISH: the one with the id of the message is the message, and is held from now on. -/
theorem ReceiverSim.publish (i : ReceiverSim msg r h) (hkind : (recorded header body).isPublishQos2)
    (hok : ToReceiver msg (recorded header body))
    (hforward : h.forward = ((recorded header body).request msg.id).toList ++ forward) :
    ∃ h', ReceiverStep msg r (streamMqttHandleReceivedFrame env r header body) h h' forward := by
  have hv := hok.valid (.inl hkind)
  obtain ⟨hin, hout, htrace⟩ := handlePublish_spec env hkind hv i.publishes
  have hpublishes : ∀ item ∈ (streamMqttHandleReceivedFrame env r header body).inbound, item.type = .publish := by
    rw [hin]
    intro item hm
    rcases List.mem_append.1 hm with hm | hm
    · exact i.publishes item (List.mem_of_mem_filter hm)
    · rw [List.mem_singleton.1 hm]; rfl
  have hqueued : ∀ item ∈ (streamMqttHandleReceivedFrame env r header body).outgoing, ReceiverItem msg item := by
    rw [hout]; exact i.queued
  have hdelivered : qos2Deliveries msg.id (streamMqttHandleReceivedFrame env r header body).trace =
      List.replicate h.delivered msg.item := by
    rw [htrace, qos2Deliveries_append, i.delivered]
    exact List.append_nil _
  have hunder := Slots.under_put MqttFrameItem.id r.inbound (recorded header body).item msg.id
  rw [← hin] at hunder
  -- a PUBLISH with this id is one of this message, however often it comes
  by_cases hid : (recorded header body).publishId = msg.id
  · rw [Frame.request, if_pos ⟨hkind, hid⟩] at hforward
    have hitem : (recorded header body).item = msg.item := by
      unfold Frame.item Message.item
      rw [hid, hok.message hkind hid]
    rw [if_pos (show (recorded header body).item.id = msg.id from hid), hitem] at hunder
    refine ⟨_, .single (.publish hforward), rfl, ⟨hpublishes, hunder, hdelivered, hqueued⟩, ⟨rfl, rfl, rfl⟩, rfl, _,
      [_], htrace, rfl, List.forall_mem_singleton.2 ⟨Frame.ofId_proper _ _, toSender_ofId _ (.inl rfl)⟩, ?_⟩
    rw [List.filterMap_cons, response_pubrec, if_pos hid]
    rfl
  · rw [Frame.request, if_neg fun hc => hid hc.2, if_neg fun hc => hkind.1.ne (by decide) hc.1] at hforward
    rw [if_neg (show ¬ (recorded header body).item.id = msg.id from hid)] at hunder
    refine ⟨h, .refl, rfl, ⟨hpublishes, hunder.trans i.held, hdelivered, hqueued⟩, ⟨rfl, rfl, rfl⟩, hforward, _, [_],
      htrace, rfl, List.forall_mem_singleton.2 ⟨Frame.ofId_proper _ _, toSender_ofId _ (.inl rfl)⟩, ?_⟩
    rw [List.filterMap_cons, response_pubrec, if_neg hid]
    exact (List.append_nil _).symm

/-- A PUBREL: the one with the id of the message delivers it if it is held. -/
theorem ReceiverSim.pubrel (i : ReceiverSim msg r h) (ht : (recorded header body).isType .pubrel)
    (hok : ToReceiver msg (recorded header body))
    (hforward : h.forward = ((recorded header body).request msg.id).toList ++ forward) :
    ∃ h', ReceiverStep msg r (streamMqttHandleReceivedFrame env r header body) h h' forward := by
  have hv := hok.valid (.inr ht)
  obtain ⟨hin, hout, es, htrace, hw, hd⟩ := handlePubrel_spec env (r := r) ht hv
  have hpublishes : ∀ item ∈ (streamMqttHandleReceivedFrame env r header body).inbound, item.type = .publish := by
    rw [hin]
    exact fun item hm => i.publishes item (List.mem_of_mem_filter hm)
  have hqueued : ∀ item ∈ (streamMqttHandleReceivedFrame env r header body).outgoing, ReceiverItem msg item := by
    rw [hout]; exact i.queued
  have hunder := Slots.under_drop MqttFrameItem.id r.inbound (recorded header body).packetId msg.id
  rw [← hin] at hunder
  have hwritten : written ([.receive (recorded header body),
      .write none (Frame.ofId .pubcomp (recorded header body).packetId).format] ++ es) =
      [Frame.ofId .pubcomp (recorded header body).packetId].map Frame.format := by
    rw [written_append, hw]; rfl
  rw [Frame.request_pubrel ht] at hforward
  by_cases hid : (recorded header body).packetId = msg.id
  · rw [if_pos hid] at hforward hunder
    refine ⟨_, .single (.release hforward), rfl, ⟨hpublishes, hunder, ?_, hqueued⟩, ⟨rfl, rfl, rfl⟩, rfl, _, [_], htrace,
      hwritten, List.forall_mem_singleton.2 ⟨Frame.ofId_proper _ _, toSender_ofId _ (.inr rfl)⟩, ?_⟩
    · -- what was held is delivered
      rw [htrace, qos2Deliveries_append, qos2Deliveries_append, i.delivered, List.replicate_add]
      refine congrArg _ ?_
      show qos2Deliveries msg.id es = _
      rw [qos2Deliveries, hd, hid, i.held]
      have hmsg : msg.item.type = .publish ∧ mqttQosFromFlags msg.item.flags = mqttQos2 ∧ msg.item.id = msg.id :=
        ⟨rfl, (publishFlags_spec msg.retain msg.dup (by decide)).2, rfl⟩
      cases h.held with
      | true => simp [hmsg]
      | false => rfl
    · rw [List.filterMap_cons, response_pubcomp, if_pos hid]
      rfl
  · rw [if_neg hid] at hforward hunder
    refine ⟨h, .refl, rfl, ⟨hpublishes, hunder.trans i.held, ?_, hqueued⟩, ⟨rfl, rfl, rfl⟩, hforward, _, [_], htrace,
      hwritten, List.forall_mem_singleton.2 ⟨Frame.ofId_proper _ _, toSender_ofId _ (.inr rfl)⟩, ?_⟩
    · -- what is delivered has another id
      have hnone : qos2Deliveries msg.id es = [] := by
        rw [qos2Deliveries, hd, List.filter_eq_nil_iff]
        intro item hm hc
        have hitem : item.id = (recorded header body).packetId := by simpa using (List.mem_filter.1 hm).2
        have hmsg : item.id = msg.id := by simp at hc; exact hc.2.2
        exact hid (hitem.symm.trans hmsg)
      rw [htrace, qos2Deliveries_append, qos2Deliveries_append, i.delivered, hnone]
      exact List.append_nil _
    · rw [List.filterMap_cons, response_pubcomp, if_neg hid]
      exact (List.append_nil _).symm

/-- Whatever frame the receiver receives: it is the request that it is for the handshake. -/
theorem ReceiverSim.handle (i : ReceiverSim msg r h) (hok : ToReceiver msg (recorded header body))
    (hforward : h.forward = ((recorded header body).request msg.id).toList ++ forward) :
    ∃ h', ReceiverStep msg r (streamMqttHandleReceivedFrame env r header body) h h' forward := by
  by_cases hpub : (recorded header body).isPublishQos2
  · exact i.publish env hpub hok hforward
  · by_cases hrel : (recorded header body).isType .pubrel
    · exact i.pubrel env hrel hok hforward
    · have hk : Keeps (Apart msg) _ _ := keeps_handle answers_apart env r header body (fun h h' => hpub ⟨h, h'⟩) hrel
      obtain ⟨es, he, hes⟩ := hk.trace
      rw [Frame.request_none hpub hrel] at hforward
      obtain rfl : h.forward = forward := hforward
      have htrace : (streamMqttHandleReceivedFrame env r header body).trace =
          r.trace ++ (.receive (recorded header body) :: es) := by
        rw [he]
        simp [StreamMqtt.log]
      refine ⟨h, i.apart hk.inbound ?_ htrace (List.forall_mem_cons.2 ⟨⟨trivial, by simp⟩, hes⟩)⟩
      intro item hm
      rcases outgoing_handle env r header body item hm with hm | ⟨id, tag, rfl⟩
      · exact i.queued item hm
      · exact receiverItem_pubrel id tag

end Handle

/-- The reassembly loop of the receiver hands over a frame. -/
theorem tracks_received_receiver {n : Net} (env : Env) {bodyOffset : Nat} {header : MqttFixedHeader} {frameLength : Nat}
    (hp : mqttParseFrame n.r.buffer = .frame bodyOffset header frameLength) (stale : Mem) :
    Tracks msg n (n.swap.update { streamMqttHandleReceivedFrame env n.r header (memOf (n.r.buffer.drop bodyOffset) stale)
      with buffer := n.r.buffer.drop frameLength } n.toR).swap := by
  intro h i
  obtain ⟨hok, forward, hforward, hcarries⟩ := i.forward.receive hp stale
  obtain ⟨h', hr⟩ := i.receiver.handle env hok hforward
  obtain ⟨es, fs, ht, hw, hfs, hbackward⟩ := hr.sent
  refine ⟨h', hr.steps, hr.submitted, i.answers ht hw hfs ?_ hr.sender hbackward ?_⟩
  · exact ⟨hr.sim.publishes, hr.sim.held, hr.sim.delivered, hr.sim.queued⟩
  · rw [hr.forward]
    exact hcarries

end CMx.Mqtt
