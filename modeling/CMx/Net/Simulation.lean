/-
One message seen as a handshake: the queued frames with its id, the frames with its id on the
wire, and its slot at the receiver are the state of `Handshake`, and every step of the network is
some steps of it.
-/
import CMx.Net.State

namespace CMx.Mqtt

open Handshake (Request Response Steps)

variable (msg : Message)

/-! ## Reading an endpoint -/

/-- The sender's packet that a queued item is sent as. -/
def MqttFrameItem.request (id : UInt16) (item : MqttFrameItem) : Option Request :=
  if item.matches .publish id then some .publish
  else if item.matches .pubrel id then some .release
  else none

/-- The QoS 2 messages with an id that have been delivered. -/
def qos2Deliveries (id : UInt16) (es : List Event) : List MqttFrameItem :=
  ((deliveries es).map (·.1)).filter fun item =>
    item.type = .publish ∧ mqttQosFromFlags item.flags = mqttQos2 ∧ item.id = id

@[simp] theorem qos2Deliveries_append (id : UInt16) (es es' : List Event) :
    qos2Deliveries id (es ++ es') = qos2Deliveries id es ++ qos2Deliveries id es' := by
  unfold qos2Deliveries
  rw [deliveries_append, List.map_append, List.filter_append]

/-- A frame that the sender may put on the wire: its id can be read, and a PUBLISH with the id of
the message is the message. -/
structure ToReceiver (f : Frame) : Prop where
  valid : f.isPublishQos2 ∨ f.isType .pubrel → f.valid = true
  message : f.isPublishQos2 → f.publishId = msg.id → f = msg.frame

/-- A frame that the receiver may put on the wire. -/
def ToSender (f : Frame) : Prop := f.isType .pubrec ∨ f.isType .pubcomp → f.valid = true

/-- An item in the sender's queue is written as one frame, which is the packet that the item is. -/
def SenderItem (item : MqttFrameItem) : Prop :=
  ∃ f : Frame, f.Proper ∧ ToReceiver msg f ∧ item.buffer = f.format ∧ f.request msg.id = item.request msg.id

/-- An item in the receiver's queue is written as one frame, which is no packet of its part. -/
def ReceiverItem (item : MqttFrameItem) : Prop :=
  ∃ f : Frame, f.Proper ∧ ToSender f ∧ item.buffer = f.format ∧ f.response msg.id = none

/-! ## The simulation relation -/

/-- The sender's part of the handshake. -/
structure SenderSim (s : StreamMqtt) (h : Handshake.State) : Prop where
  publishes : s.outgoing.countP (MqttFrameItem.matches .publish msg.id) = h.publishes
  releases : s.outgoing.countP (MqttFrameItem.matches .pubrel msg.id) = h.releases
  queued : ∀ item ∈ s.outgoing, SenderItem msg item
  completed : .acknowledge .pubcomp msg.id ∈ s.trace ↔ h.completed = true

/-- The receiver's part. -/
structure ReceiverSim (r : StreamMqtt) (h : Handshake.State) : Prop where
  publishes : ∀ item ∈ r.inbound, item.type = .publish
  held : r.inbound.filter (fun item => item.id = msg.id) = if h.held then [msg.item] else []
  delivered : qos2Deliveries msg.id r.trace = List.replicate h.delivered msg.item
  queued : ∀ item ∈ r.outgoing, ReceiverItem msg item

structure Sim (n : Net) (h : Handshake.State) : Prop where
  sender : SenderSim msg n.s h
  receiver : ReceiverSim msg n.r h
  forward : Carries (ToReceiver msg) (Frame.request msg.id) (n.r.buffer ++ n.toR) h.forward
  backward : Carries ToSender (Frame.response msg.id) (n.s.buffer ++ n.toS) h.backward

/-- Whatever the handshake's state, it can follow the network from `n` to `n'`; the message is not
submitted on the way. -/
def Tracks (n n' : Net) : Prop :=
  ∀ h, Sim msg n h → ∃ h', Steps h h' ∧ h'.submitted = h.submitted ∧ Sim msg n' h'

variable {msg}

theorem Tracks.refl (n : Net) : Tracks msg n n := fun h i => ⟨h, .refl, rfl, i⟩

theorem Tracks.trans {n n' n'' : Net} (h : Tracks msg n n') (h' : Tracks msg n' n'') : Tracks msg n n'' := by
  intro a i
  obtain ⟨b, hab, hsub, ib⟩ := h a i
  obtain ⟨c, hbc, hsub', ic⟩ := h' b ib
  exact ⟨c, hab.trans hbc, hsub'.trans hsub, ic⟩

/-- Two steps of one endpoint in a row. -/
theorem Tracks.next {n : Net} {s' s'' : StreamMqtt} {toS toS' : Bytes} (h : Tracks msg n (n.update s' toS))
    (h' : Tracks msg (n.update s' toS) ((n.update s' toS).update s'' toS')) (ht : ∃ es, s'.trace = n.s.trace ++ es)
    (ht' : ∃ es, s''.trace = s'.trace ++ es) : Tracks msg n (n.update s'' toS') := by
  obtain ⟨es, ht⟩ := ht
  obtain ⟨es', ht'⟩ := ht'
  rw [n.update_update ht ht'] at h'
  exact h.trans h'

theorem Tracks.next_receiver {n : Net} {r' r'' : StreamMqtt} {toR toR' : Bytes}
    (h : Tracks msg n (n.swap.update r' toR).swap)
    (h' : Tracks msg (n.swap.update r' toR).swap ((n.swap.update r' toR).update r'' toR').swap)
    (ht : ∃ es, r'.trace = n.r.trace ++ es) (ht' : ∃ es, r''.trace = r'.trace ++ es) :
    Tracks msg n (n.swap.update r'' toR').swap := by
  obtain ⟨es, ht⟩ := ht
  obtain ⟨es', ht'⟩ := ht'
  rw [n.swap.update_update ht ht'] at h'
  exact h.trans h'

/-- The idle network and the idle handshake. -/
theorem sim_start {s r : StreamMqtt} (hs : s.Idle) (hr : r.Idle) : Sim msg (.start s r) .idle where
  sender := by
    constructor <;> simp [Net.start, hs.outgoing, hs.trace, Handshake.State.idle]
  receiver := by
    constructor <;> simp [Net.start, hr.outgoing, hr.inbound, hr.trace, Handshake.State.idle, qos2Deliveries,
      deliveries]
  forward := by
    show Carries _ _ (r.buffer ++ []) []
    rw [hr.buffer]
    exact .nil
  backward := by
    show Carries _ _ (s.buffer ++ []) []
    rw [hs.buffer]
    exact .nil

/-! ## Steps of one endpoint -/

section Steps

variable {n : Net} {h h' : Handshake.State}

/-- The sender has written the frames `fs`, and its part is that of `h'`. -/
theorem Sim.sends (i : Sim msg n h) {s' : StreamMqtt} {toS : Bytes} {es : List Event} {fs : List Frame}
    (ht : s'.trace = n.s.trace ++ es) (hw : written es = fs.map Frame.format)
    (hfs : ∀ f ∈ fs, f.Proper ∧ ToReceiver msg f) (hs : SenderSim msg s' h')
    (hr : h'.held = h.held ∧ h'.delivered = h.delivered)
    (hf : h'.forward = h.forward ++ fs.filterMap (Frame.request msg.id))
    (hb : Carries ToSender (Frame.response msg.id) (s'.buffer ++ toS) h'.backward) :
    Sim msg (n.update s' toS) h' where
  sender := hs
  receiver := by
    obtain ⟨hp, hheld, hdel, hq⟩ := i.receiver
    exact ⟨hp, by rw [hr.1]; exact hheld, by rw [hr.2]; exact hdel, hq⟩
  forward := by
    have hforward := i.forward.append hfs
    rw [List.append_assoc, ← hw, ← hf] at hforward
    simpa only [Net.update, eventsSince_eq ht] using hforward
  backward := hb

/-- The receiver has written the frames `fs`, and its part is that of `h'`. -/
theorem Sim.answers (i : Sim msg n h) {r' : StreamMqtt} {toR : Bytes} {es : List Event} {fs : List Frame}
    (ht : r'.trace = n.r.trace ++ es) (hw : written es = fs.map Frame.format)
    (hfs : ∀ f ∈ fs, f.Proper ∧ ToSender f) (hr : ReceiverSim msg r' h')
    (hs : h'.publishes = h.publishes ∧ h'.releases = h.releases ∧ h'.completed = h.completed)
    (hb : h'.backward = h.backward ++ fs.filterMap (Frame.response msg.id))
    (hf : Carries (ToReceiver msg) (Frame.request msg.id) (r'.buffer ++ toR) h'.forward) :
    Sim msg (n.swap.update r' toR).swap h' where
  sender := by
    obtain ⟨hp, hrel, hq, hc⟩ := i.sender
    exact ⟨by rw [hs.1]; exact hp, by rw [hs.2.1]; exact hrel, hq, by rw [hs.2.2]; exact hc⟩
  receiver := hr
  forward := hf
  backward := by
    have hbackward := i.backward.append hfs
    rw [List.append_assoc, ← hw, ← hb] at hbackward
    simpa only [Net.update, Net.swap, eventsSince_eq ht] using hbackward

end Steps

end CMx.Mqtt
