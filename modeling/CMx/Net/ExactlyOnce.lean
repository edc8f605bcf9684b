/-
Exactly-once delivery: over reliable FIFO channels, with any retransmission and abandonment and
with other traffic in both directions, a QoS 2 message is delivered at most once and unaltered,
and exactly once if the sender knows that its release is complete.
-/
import CMx.Net.Receiver
import CMx.Net.Sender

namespace CMx.Mqtt

open Handshake (Steps)

/-! ## Peeks -/

theorem Net.update_self (n : Net) : n.update n.s n.toS = n := by
  simp [Net.update, eventsSince, written]

/-- A peek of the first endpoint is arrivals, received frames and resets of the buffer. -/
theorem Net.act_peek {R : Net → Net → Prop} (refl : ∀ n, R n n) (trans : ∀ {a b c}, R a b → R b c → R a c)
    (arrive : ∀ (n : Net) data rest, n.toS = data ++ rest → R n (n.update { n.s with buffer := n.s.buffer ++ data } rest))
    (handle : ∀ (n : Net) env bodyOffset header frameLength stale,
      mqttParseFrame n.s.buffer = .frame bodyOffset header frameLength →
        R n (n.update { streamMqttHandleReceivedFrame env n.s header (memOf (n.s.buffer.drop bodyOffset) stale) with
          buffer := n.s.buffer.drop frameLength } n.toS))
    (reset : ∀ (n : Net), mqttParseFrame n.s.buffer = .error → R n (n.update { n.s with buffer := [] } n.toS))
    (n : Net) (env : Env) (cuts : List Nat) (last : ReadEnd) : R n (n.act (.peek env cuts last)) := by
  have hcut := cutChunks_flatten cuts n.toS
  have next : ∀ {s s' : StreamMqtt} {es es' : List Event} {rest rest' : Bytes}, s.trace = n.s.trace ++ es →
      R n (n.update s rest) → s'.trace = s.trace ++ es' → R (n.update s rest) ((n.update s rest).update s' rest') →
      (∃ es, s'.trace = n.s.trace ++ es) ∧ R n (n.update s' rest') := by
    intro s s' es es' rest rest' ht hr ht' hr'
    rw [n.update_update ht ht'] at hr'
    exact ⟨⟨es ++ es', by rw [ht', ht, List.append_assoc]⟩, trans hr hr'⟩
  have hpeek := peekLoop_inv env (P := fun s rest => (∃ es, s.trace = n.s.trace ++ es) ∧ R n (n.update s rest))
    ?_ ?_ ?_ (cutChunks cuts n.toS).1 n.s (cutChunks cuts n.toS).2
    ⟨⟨[], (List.append_nil _).symm⟩, by rw [hcut, n.update_self]; exact refl n⟩
  · exact hpeek.2
  · rintro s data rest ⟨⟨es, ht⟩, hr⟩
    exact next ht hr (List.append_nil _).symm (arrive (n.update s (data ++ rest)) data rest rfl)
  · rintro s rest bodyOffset header frameLength hp ⟨⟨es, ht⟩, hr⟩
    obtain ⟨-, -, es', ht'⟩ := handle_frame env s header (memOf (s.buffer.drop bodyOffset) (env.stale s.trace.length))
    exact next ht hr ht' (handle (n.update s rest) env bodyOffset header frameLength (env.stale s.trace.length) hp)
  · rintro s rest hp ⟨⟨es, ht⟩, hr⟩
    exact next ht hr (List.append_nil _).symm (reset (n.update s rest) hp)

/-- What the second endpoint delivers in a step goes where its history says; it delivers in its peeks alone. -/
def Net.HandsOver (n : Net) (op : NetOp) : Prop :=
  match op with
  | .r (.peek _ _ _) => Mqtt.HandsOver n.r (n.step op).r
  | _ => deliveries (eventsSince n.r (n.step op).r) = []

theorem Net.handsOver (n : Net) {op : NetOp} (h : ∀ call, op.rCall = some call → call.WellFormed) :
    n.HandsOver op := by
  cases op with
  | s action =>
    have hsame : (n.step (.s action)).r = n.r := by
      cases action <;> rfl
    show deliveries (eventsSince n.r (n.step (.s action)).r) = []
    rw [hsame, eventsSince_eq (List.append_nil _).symm]
    rfl
  | r action =>
    cases action with
    | call env call => exact step_deliversNothing n.r env (h call rfl).isLoop
    | peek env cuts last =>
      refine Net.act_peek (R := fun n n' => Mqtt.HandsOver n.s n'.s) (fun n => .refl n.s) .trans ?_ ?_ ?_ n.swap env
        cuts last
      · exact fun n data rest _ => handsOver_nothing rfl rfl (List.append_nil _).symm (List.forall_mem_nil _)
      · intro n env bodyOffset header frameLength stale _
        have hhandle := handsOver_handle env n.s header (memOf (n.s.buffer.drop bodyOffset) stale)
        exact ⟨hhandle.observer, hhandle.trace, hhandle.taken, hhandle.untaken⟩
      · exact fun n _ => handsOver_nothing rfl rfl (List.append_nil _).symm (List.forall_mem_nil _)

variable {msg : Message}

/-- A peek of the sender. -/
theorem tracks_peek (n : Net) (env : Env) (cuts : List Nat) (last : ReadEnd) :
    Tracks msg n (n.act (.peek env cuts last)) := by
  refine Net.act_peek (R := Tracks msg) Tracks.refl Tracks.trans ?_ ?_ ?_ n env cuts last
  · intro n data rest hn h i
    refine ⟨h, .refl, rfl,
      i.sends (List.append_nil _).symm rfl (List.forall_mem_nil _) ?_ ⟨rfl, rfl⟩ (List.append_nil _).symm ?_⟩
    · exact ⟨i.sender.publishes, i.sender.releases, i.sender.queued, i.sender.completed⟩
    · have hbackward := i.backward
      rwa [hn, ← List.append_assoc] at hbackward
  · exact fun n env bodyOffset header frameLength stale hp => tracks_received env hp stale
  · exact fun n hp h i => absurd hp i.backward.noError

/-- A peek of the receiver. -/
theorem tracks_peek_receiver (n : Net) (env : Env) (cuts : List Nat) (last : ReadEnd) :
    Tracks msg n (n.swap.act (.peek env cuts last)).swap := by
  refine Net.act_peek (R := fun a b => Tracks msg a.swap b.swap) (fun n => .refl n.swap) Tracks.trans ?_ ?_ ?_ n.swap
    env cuts last
  · intro n data rest hn h i
    refine ⟨h, .refl, rfl, i.answers (List.append_nil _).symm rfl (List.forall_mem_nil _) ?_
      ⟨rfl, rfl, rfl⟩ (List.append_nil _).symm ?_⟩
    · exact ⟨i.receiver.publishes, i.receiver.held, i.receiver.delivered, i.receiver.queued⟩
    · have hforward : Carries _ _ (n.s.buffer ++ n.toS) _ := i.forward
      rwa [hn, ← List.append_assoc] at hforward
  · exact fun n env bodyOffset header frameLength stale hp => tracks_received_receiver (n := n.swap) env hp stale
  · exact fun n hp h i => absurd hp i.forward.noError

/-! ## Runs -/

/-- A step that does not publish the message. -/
theorem tracks_step {ops : List NetOp} (h : Traffic ops) (hm : msg ∈ messages ops) {op : NetOp} (hop : op ∈ ops)
    (hother : ∀ m, op.sCall.bind Call.message = some m → m.id ≠ msg.id) (n : Net) : Tracks msg n (n.step op) := by
  cases op with
  | s action =>
    cases action with
    | peek env cuts last => exact tracks_peek n env cuts last
    | call env call =>
      refine tracks_call env (h.wellFormed _ hop call (.inl rfl)) hother fun id hid heq => ?_
      exact h.others _ hop id hid (heq ▸ List.mem_map_of_mem hm)
  | r action =>
    cases action with
    | peek env cuts last => exact tracks_peek_receiver n env cuts last
    | call env call => exact tracks_call_receiver env (h.wellFormed _ hop call (.inr rfl))

/-- The call that publishes a message. -/
theorem call_of_message {op : NetOp} {m : Message} (h : op.sCall.bind Call.message = some m) :
    ∃ env, op = .s (.call env m.call) := by
  obtain ⟨call, hcall, hmessage⟩ := Option.bind_eq_some_iff.1 h
  cases op with
  | r action => cases hcall
  | s action =>
    cases action with
    | peek env cuts last => cases hcall
    | call env call' =>
      cases hcall
      cases call with
      | publish retain dup qos id topic payload =>
        unfold Call.message at hmessage
        simp only at hmessage
        split at hmessage
        · rename_i hqos
          cases hmessage
          exact ⟨env, by rw [hqos]; rfl⟩
        · cases hmessage
      | _ => cases hmessage

/-- The message with an id is the one that was published. -/
theorem message_unique {ops : List NetOp} (h : Traffic ops) {m m' : Message} (hm : m ∈ messages ops)
    (hm' : m' ∈ messages ops) (hid : m.id = m'.id) : m = m' :=
  List.inj_on_of_nodup_map h.distinct hm hm' hid

/-- Along a run the handshake of a message follows the network; it is submitted when it is
published. -/
theorem sim_run {s r : StreamMqtt} (hs : s.Idle) (hr : r.Idle) {ops : List NetOp} (h : Traffic ops)
    (hm : msg ∈ messages ops) (before : List NetOp) : ∀ behind, ops = before ++ behind →
      ∃ a, Steps .idle a ∧ (a.submitted = true → msg ∈ messages before) ∧ Sim msg ((Net.start s r).run before) a := by
  induction before using List.reverseRecOn with
  | nil => exact fun _ _ => ⟨.idle, .refl, (fun h => by cases h), sim_start hs hr⟩
  | append_singleton before op ih =>
    intro behind hops
    have hop : op ∈ ops := by rw [hops]; simp
    obtain ⟨a, ha, hsub, i⟩ := ih (op :: behind) (by rw [hops]; simp)
    have hrun : (Net.start s r).run (before ++ [op]) = ((Net.start s r).run before).step op := List.foldl_concat ..
    have hmem : ∀ m, m ∈ messages (before ++ [op]) ↔ m ∈ messages before ∨ op.sCall.bind Call.message = some m := by
      intro m
      rw [messages, List.filterMap_append, List.mem_append, messages]
      simp [List.mem_filterMap]
    rw [hrun]
    by_cases hpub : ∃ m, op.sCall.bind Call.message = some m ∧ m.id = msg.id
    · -- this is the call that publishes the message, and it is the first to do so
      obtain ⟨m, hmessage, hid⟩ := hpub
      have hsplit : messages ops = messages before ++ m :: messages behind := by
        rw [hops]
        simp [messages, hmessage]
      obtain rfl : m = msg := message_unique h (by rw [hsplit]; simp) hm hid
      obtain ⟨env, rfl⟩ := call_of_message hmessage
      have hfresh : m ∉ messages before := by
        intro hbefore
        have hnodup := h.distinct
        rw [hsplit, List.map_append, List.nodup_append] at hnodup
        exact hnodup.2.2 m.id (List.mem_map_of_mem hbefore) m.id (by simp) rfl
      have hnot : a.submitted = false := by
        cases hcase : a.submitted with
        | false => rfl
        | true => exact absurd (hsub hcase) hfresh
      obtain ⟨b, hb, -, i'⟩ := i.submit env (h.wellFormed _ hop m.call (.inl rfl)) hnot
      exact ⟨b, ha.trans hb, fun _ => (hmem m).2 (.inr hmessage), i'⟩
    · push Not at hpub
      obtain ⟨b, hb, hsubmitted, i'⟩ := tracks_step h hm hop hpub _ a i
      exact ⟨b, ha.trans hb, fun hc => (hmem msg).2 (.inl (hsub (hsubmitted ▸ hc))), i'⟩

/-! ## Exactly once -/

/-- Two idle endpoints over reliable FIFO channels, with any calls and peeks of both, any cut of the
bytes into chunks and any times at which the timers expire: every QoS 2 message that the sender
publishes is delivered by the receiver at most once, with the topic and payload that were
published, and exactly once if a PUBCOMP has taken its PUBREL out of the sender's queue; and in every step
what is delivered is taken by the observer or put behind `incoming`. -/
theorem qos2_exactlyOnce {s r : StreamMqtt} (hs : s.Idle) (hr : r.Idle) {ops : List NetOp} (h : Traffic ops)
    {msg : Message} (hm : msg ∈ messages ops) :
    let n := (Net.start s r).run ops
    (qos2Deliveries msg.id n.r.trace).length ≤ 1 ∧
      (∀ item ∈ qos2Deliveries msg.id n.r.trace, ∀ (stale : Mem) (old : MqttPublish),
        ParsesAs (memOf item.buffer stale) item.buffer.length old mqttQos2 msg.id msg.topic msg.payload) ∧
      (.acknowledge .pubcomp msg.id ∈ n.s.trace → (qos2Deliveries msg.id n.r.trace).length = 1) ∧
      ∀ before op behind, ops = before ++ op :: behind → ((Net.start s r).run before).HandsOver op := by
  intro n
  obtain ⟨a, ha, -, i⟩ := sim_run hs hr h hm ops [] (List.append_nil _).symm
  obtain ⟨honce, hcompleted⟩ := Handshake.delivered_once ha
  have hlength : (qos2Deliveries msg.id n.r.trace).length = a.delivered := by
    rw [i.receiver.delivered, List.length_replicate]
  refine ⟨hlength ▸ honce, ?_, fun hack => hlength.trans (hcompleted (i.sender.completed.1 hack)), ?_⟩
  · intro item hitem stale old
    rw [i.receiver.delivered] at hitem
    obtain rfl := List.eq_of_mem_replicate hitem
    obtain ⟨op, hop, hmessage⟩ := List.mem_filterMap.1 hm
    obtain ⟨env, rfl⟩ := call_of_message hmessage
    obtain ⟨-, ht, hp⟩ := h.wellFormed _ hop msg.call (.inl rfl)
    exact parse_format mqttQos2 msg.id (Nat.le_of_lt_succ ht) hp stale old
  · intro before op behind hops
    exact Net.handsOver _ fun call hcall => h.wellFormed op (by rw [hops]; simp) call (.inr hcall)

/-- A message of one byte. -/
def exchangeMessage : Message := ⟨false, false, 7, ⟨[0x62], by decide⟩, [0x78]⟩

/-- Its exchange, in which the sender retransmits its PUBLISH and its PUBREL. -/
def exchange : List NetOp :=
  let peek (seconds : Int) : Action := .peek (Env.at seconds) [4, 1000, 1000] .again
  [.s (.call (Env.at 0) exchangeMessage.call), .s (.call (Env.at 31) .time), .r (peek 32), .s (peek 33),
    .s (.call (Env.at 64) .time), .r (peek 65), .s (peek 66)]

theorem traffic_exchange : Traffic exchange := by
  have hcalls : ∀ op ∈ exchange, ∀ call, op.sCall = some call ∨ op.rCall = some call →
      call = exchangeMessage.call ∨ call = .time := by
    intro op hop call hcall
    simp only [exchange, List.mem_cons, List.not_mem_nil, or_false] at hop
    rcases hop with rfl | rfl | rfl | rfl | rfl | rfl | rfl <;> simp_all [NetOp.sCall, NetOp.rCall]
  refine ⟨fun op hop call hcall => ?_, List.nodup_singleton _, fun op hop id hid => ?_⟩
  · rcases hcalls op hop call hcall with rfl | rfl
    · exact ⟨by decide, by decide, by decide⟩
    · trivial
  · obtain ⟨call, hcall, hother⟩ := Option.bind_eq_some_iff.1 hid
    rcases hcalls op hop call (.inl hcall) with rfl | rfl <;> cases hother

theorem qos2_exactlyOnce_resent :
    (qos2Deliveries 7 ((Net.start streamMqttInit streamMqttInit).run exchange).r.trace).length = 1 := by
  have hidle : streamMqttInit.Idle := ⟨rfl, rfl, rfl, rfl⟩
  have hmem : exchangeMessage ∈ messages exchange := List.mem_cons_self ..
  obtain ⟨-, -, hdone, -⟩ := qos2_exactlyOnce hidle hidle traffic_exchange hmem
  exact hdone (by decide +kernel)

end CMx.Mqtt
