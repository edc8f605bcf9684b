/-
Two `stream_mqtt` with all that is below them: over any reliable medium they do what two endpoints over reliable
channels do. Such media are plain streams over sockets that take and give what they like, and
`stream_ws` over these, with the queues that every stream has for what cannot be written.
-/
import CMx.Net.Delivery
import CMx.Stream.Sockets
import CMx.StreamWs.Medium

namespace CMx.Mqtt

open Framing (Conveys)

/-! ## The stack -/

/-- The streams at the two ends, over what they decorate. -/
structure Stack (τ : Type) where
  stream : Bool → StreamMqtt
  below : τ

/-- What is called at an end: the stream by its application, a peek, of which at most `rounds` reads are made so far,
and the functions that move what is queued. -/
inductive StackOp where
  | call (env : Env) (call : Call)
  | peek (env : Env) (rounds : Nat)
  | handleOutgoingData
  | flush

/-- The call of the application. -/
def StackOp.made : StackOp → Option Call
  | .call _ c => some c
  | _ => none

namespace Stack

section Steps

variable {τ : Type} (m : Medium τ) (e : Bool)

/-- The stream at one end has become `s`: its writes are made below. -/
def become (t : Stack τ) (s : StreamMqtt) : Stack τ :=
  ⟨Function.update t.stream e s, (m.writeAll e (written (eventsSince (t.stream e) s)) 0 t.below).2⟩

/-- The loop of `stream_mqtt_peek_frame`. -/
def peekLoop (env : Env) : (rounds : Nat) → Stack τ → Option (Stack τ)
  | 0, t => some t
  | rounds + 1, t =>
    if (t.stream e).incoming.isEmpty then
      match m.read e mqttMessageBufferSize t.below with
      | none => none
      | some (.error _, below) => some { t with below }
      | some (.ok chunk, below) =>
        let t := { t with below }
        peekLoop env rounds (t.become m e (streamMqttReceiveChunk env (t.stream e) chunk.data))
    else some t

/-- `stream_mqtt_do_time` goes on below. -/
def act (t : Stack τ) : StackOp → Option (Stack τ)
  | .call env call =>
    (perform (t.stream e) env call).map fun s =>
      let t := t.become m e s
      match call with
      | .time => { t with below := m.time e t.below }
      | _ => t
  | .peek env rounds => t.peekLoop m e env rounds
  | .handleOutgoingData => some { t with below := ((m.below e).handleOutgoingData t.below).2 }
  | .flush => some { t with below := ((m.below e).flush t.below).2 }

end Steps

section Runs

variable {τ : Type} (m : Medium τ)

/-- `none` where a call crashes or does not come back. -/
def run : Stack τ → List (Bool × StackOp) → Option (Stack τ)
  | t, [] => some t
  | t, (e, op) :: ops => (t.act m e op).bind fun t => run t ops

/-- Peeks are made at ends that are ready. -/
def ReadyAlong (Ready : Bool → τ → Prop) : Stack τ → List (Bool × StackOp) → Prop
  | _, [] => True
  | t, (e, op) :: ops =>
    (∀ env rounds, op = .peek env rounds → Ready e t.below) ∧ ∀ t', t.act m e op = some t' → ReadyAlong Ready t' ops

instance decidableReadyAlong (Ready : Bool → τ → Prop) [∀ e t, Decidable (Ready e t)] :
    (t : Stack τ) → (ops : List (Bool × StackOp)) → Decidable (ReadyAlong m Ready t ops)
  | _, [] => isTrue trivial
  | t, (e, op) :: ops =>
    have : Decidable (∀ env rounds, op = .peek env rounds → Ready e t.below) :=
      match op with
      | .peek .. => decidable_of_iff (Ready e t.below) ⟨fun h _ _ _ => h, fun h => h _ _ rfl⟩
      | .call .. => isTrue fun _ _ h => nomatch h
      | .handleOutgoingData => isTrue fun _ _ h => nomatch h
      | .flush => isTrue fun _ _ h => nomatch h
    have : Decidable (∀ t', t.act m e op = some t' → ReadyAlong m Ready t' ops) :=
      match t.act m e op with
      | none => isTrue fun _ h => nomatch h
      | some t' =>
        have := decidableReadyAlong Ready t' ops
        decidable_of_iff (ReadyAlong m Ready t' ops) ⟨fun h _ ht => Option.some.inj ht ▸ h, fun h => h t' rfl⟩
    inferInstanceAs (Decidable (_ ∧ _))

end Runs

end Stack

/-- The calls of the application at one end. -/
def stackCalls (e : Bool) (ops : List (Bool × StackOp)) : List Call :=
  ops.filterMap fun op => if op.1 = e then op.2.made else none

/-! ## The network of a stack -/

/-- The network as end `e` sees it: on its way to an end is what has been written below at the other and not been
taken by it. -/
def netOf (stream : Bool → StreamMqtt) (below taken : Bool → Bytes) (e : Bool) : Net :=
  ⟨stream e, stream (!e), (below e).drop (taken (!e)).length, (below (!e)).drop (taken e).length⟩

/-- The action of one end. -/
def NetOp.at (e : Bool) (action : Action) : NetOp := if e then .r action else .s action

section NetOf

variable {stream : Bool → StreamMqtt} {below taken : Bool → Bytes} {e : Bool}

theorem netOf_step (action : Action) :
    (netOf stream below taken false).step (.at e action) =
      if e then ((netOf stream below taken e).act action).swap else (netOf stream below taken e).act action := by
  cases e <;> rfl

/-- One end has gone on: it has taken bytes below, and written some there. -/
theorem netOf_moved (s : StreamMqtt) {piece rest : Bytes} (hfront : taken (!e) <+: below e)
    (hincoming : (below (!e)).drop (taken e).length = piece ++ rest) :
    netOf (Function.update stream e s) (grow below e (written (eventsSince (stream e) s)).flatten) (grow taken e piece) e =
      (netOf stream below taken e).update s rest := by
  unfold netOf Net.update
  simp only [grow_self, grow_not, Function.update_self, update_not, drop_taken hincoming]
  rw [List.drop_append_of_le_length hfront.length_le]

/-- So the network makes a step, from whichever end it is seen. -/
theorem netOf_steps {stream' : Bool → StreamMqtt} {below' taken' : Bool → Bytes} {action : Action}
    (h : (netOf stream below taken e).act action = netOf stream' below' taken' e) :
    (netOf stream below taken false).step (.at e action) = netOf stream' below' taken' false := by
  rw [netOf_step, h]
  cases e <;> rfl

/-- A read of one chunk. -/
theorem act_peek_chunk {n : Net} {env : Env} {data rest : Bytes} (hne : data ≠ [])
    (hfits : data.length ≤ mqttMessageBufferSize) (hincoming : n.toS = data ++ rest) (hempty : n.s.incoming.isEmpty = true) :
    n.act (.peek env [data.length - 1] .again) = n.update (streamMqttReceiveChunk env n.s data) rest := by
  have hpos := List.length_pos_iff.2 hne
  have hsize : (data.length - 1) % mqttMessageBufferSize + 1 = data.length := by
    rw [Nat.mod_eq_of_lt (by omega)]
    omega
  have hcut : cutChunks [data.length - 1] (data ++ rest) = ([⟨data, hne, hfits⟩], rest) := by
    unfold cutChunks
    rw [dif_neg (by simp [hne])]
    simp only [hsize, List.take_left, List.drop_left]
    rfl
  have hpeek : streamMqttPeekFrame env n.s [⟨data, hne, hfits⟩] .again =
      (streamMqttPeeked (streamMqttReceiveChunk env n.s data), [], streamMqttReceiveChunk env n.s data) := by
    unfold streamMqttPeekFrame streamMqttPeekLoop
    simp only [if_pos hempty]
    unfold streamMqttPeekLoop
    simp
  unfold Net.act
  simp only [hincoming, hcut, hpeek]
  rfl

end NetOf

/-! ## Refinement -/

/-- The call of an action. -/
def Action.made : Action → Option Call
  | .call _ c => some c
  | _ => none

/-- The calls at one end of the network. -/
def netCalls (e : Bool) (ops : List NetOp) : List Call := if e then rCalls ops else sCalls ops

theorem netCalls_concat (e e' : Bool) (ops : List NetOp) (action : Action) :
    netCalls e' (ops ++ [.at e action]) = netCalls e' ops ++ if e' = e then action.made.toList else [] := by
  unfold netCalls sCalls rCalls
  cases e <;> cases e' <;> cases action <;> simp [NetOp.at, NetOp.sCall, NetOp.rCall, Action.made]

/-- What an endpoint has just written are proper frames. -/
theorem Endpoint.length_written {published : Frame → Prop} {s s' : StreamMqtt} (h : Endpoint published s') {data : Bytes}
    (hdata : data ∈ written (eventsSince s s')) : data.length ≤ mqttMaxFixedHeaderSize + mqttMaxBodyLength := by
  obtain ⟨fs, hw, hfs⟩ := h.writes
  have hmem : data ∈ written s'.trace := by
    have hsplit := List.take_append_drop s.trace.length s'.trace
    rw [← hsplit, written_append]
    exact List.mem_append_right _ hdata
  rw [hw] at hmem
  obtain ⟨f, hf, rfl⟩ := List.mem_map.1 hmem
  have hheader := mqttFormatFixedHeader_fits f.type f.flags (hfs f hf).1.length_le
  have hbody := (hfs f hf).1.length_le
  show (mqttFormatFixedHeader f.type f.flags f.body.length ++ f.body).length ≤ _
  rw [List.length_append]
  omega

/-- The network comes to these streams, with what has been written below and taken there on its channels, by operations
with these calls. -/
def Mirrored (s r : StreamMqtt) (calls : Bool → List Call) (stream : Bool → StreamMqtt) (below taken : Bool → Bytes) : Prop :=
  ∃ ops, Plain ops ∧ (∀ e, netCalls e ops = calls e) ∧ (Net.start s r).run ops = netOf stream below taken false

section Mirrored

variable {s r : StreamMqtt} {calls : Bool → List Call} {stream : Bool → StreamMqtt} {below taken : Bool → Bytes}

theorem mirrored_start (htaken : ∀ e, taken e = below (!e)) :
    Mirrored (stream false) (stream true) (fun _ => []) stream below taken := by
  refine ⟨[], fun op hop => absurd hop List.not_mem_nil, fun e => ?_, ?_⟩
  · cases e <;> rfl
  · have hnothing : ∀ e, (below e).drop (taken (!e)).length = [] := by
      intro e
      rw [htaken, Bool.not_not, List.drop_length]
    have htoR := hnothing false
    have htoS := hnothing true
    unfold netOf Net.start Net.run
    simp only [Bool.not_false, Bool.not_true] at htoR htoS ⊢
    rw [htoR, htoS]
    rfl

/-- One end makes an action of the network. -/
theorem Mirrored.move (h : Mirrored s r calls stream below taken) (hs : s.Idle) (hr : r.Idle) {e : Bool} {action : Action}
    {s' : StreamMqtt} {piece rest : Bytes} (hcall : ∀ c, action.made = some c → c.Plain) (hfront : taken (!e) <+: below e)
    (hincoming : (below (!e)).drop (taken e).length = piece ++ rest)
    (hact : (netOf stream below taken e).act action = (netOf stream below taken e).update s' rest) :
    Mirrored s r (fun e' => calls e' ++ if e' = e then action.made.toList else []) (Function.update stream e s')
        (grow below e (written (eventsSince (stream e) s')).flatten) (grow taken e piece) ∧
      ∀ data ∈ written (eventsSince (stream e) s'), data.length ≤ mqttMaxFixedHeaderSize + mqttMaxBodyLength := by
  obtain ⟨ops, hplain, hcalls, hrun⟩ := h
  have hplain' : Plain (ops ++ [.at e action]) := by
    rintro op hop c hc
    rcases List.mem_append.1 hop with hop | hop
    · exact hplain op hop c hc
    · obtain rfl := List.mem_singleton.1 hop
      refine hcall c ?_
      cases e <;> cases action <;> simp_all [NetOp.at, NetOp.sCall, NetOp.rCall, Action.made]
  have hrun' : (Net.start s r).run (ops ++ [.at e action]) =
      netOf (Function.update stream e s') (grow below e (written (eventsSince (stream e) s')).flatten) (grow taken e piece)
        false := by
    rw [← netOf_steps (hact.trans (netOf_moved s' hfront hincoming).symm), ← hrun]
    exact List.foldl_append
  refine ⟨⟨_, hplain', fun e' => ?_, hrun'⟩, fun data hdata => ?_⟩
  · rw [netCalls_concat, hcalls]
  · have htalks := talks_run hs hr hplain'
    rw [hrun'] at htalks
    have hself : Function.update stream e s' e = s' := Function.update_self ..
    cases e with
    | false =>
      have hend : Endpoint _ (Function.update stream false s' false) := htalks.s
      rw [hself] at hend
      exact hend.length_written hdata
    | true =>
      have hend : Endpoint _ (Function.update stream true s' true) := htalks.r
      rw [hself] at hend
      exact hend.length_written hdata

end Mirrored

/-- All that is above and in the medium. -/
def Refines {τ : Type} (Holds : (written taken : Bool → Bytes) → τ → Prop) (s r : StreamMqtt) (calls : Bool → List Call)
    (t : Stack τ) : Prop :=
  ∃ below taken, Holds below taken t.below ∧ Mirrored s r calls t.stream below taken

section Refines

variable {τ : Type} {m : Medium τ} {limit : Nat} {Ready : Bool → τ → Prop}
  {Holds : (written taken : Bool → Bytes) → τ → Prop} {s r : StreamMqtt} {calls : Bool → List Call}

theorem Refines.peekLoop (h : m.Reliable limit Ready Holds) (hlimit : mqttMaxFixedHeaderSize + mqttMaxBodyLength < limit)
    (hs : s.Idle) (hr : r.Idle) (e : Bool) (env : Env) : ∀ (rounds : Nat) {t : Stack τ}, Refines Holds s r calls t →
    Ready e t.below → ∃ t', t.peekLoop m e env rounds = some t' ∧ Refines Holds s r calls t'
  | 0, t, hrefines, _ => ⟨t, rfl, hrefines⟩
  | rounds + 1, t, ⟨below, taken, hholds, hmirrored⟩, hready => by
    unfold Stack.peekLoop
    by_cases hempty : (t.stream e).incoming.isEmpty = true
    · rw [if_pos hempty]
      obtain ⟨answer, t', hread, hready', hholds'⟩ := h.read e mqttMessageBufferSize hholds hready
      rw [hread]
      cases answer with
      | error last =>
        simp only [bytesRead, grow_nil] at hholds'
        exact ⟨_, rfl, below, taken, hholds', hmirrored⟩
      | ok chunk =>
        simp only [bytesRead] at hholds'
        simp only
        obtain ⟨hfront, rest, hincoming⟩ := h.incoming hholds'
        have hact : (netOf t.stream below taken e).act (.peek env [chunk.data.length - 1] .again) =
            (netOf t.stream below taken e).update (streamMqttReceiveChunk env (t.stream e) chunk.data) rest :=
          act_peek_chunk chunk.nonempty chunk.fits hincoming hempty
        obtain ⟨hmoved, hlength⟩ := hmirrored.move hs hr (fun c hc => by cases hc) hfront hincoming hact
        have hbelow := h.writeAll e 0 hholds' fun data hdata => (hlength data hdata).trans_lt hlimit
        have hready'' := h.ready_writeAll e e
          (written (eventsSince (t.stream e) (streamMqttReceiveChunk env (t.stream e) chunk.data))) 0 hready'
        simp only [Action.made, Option.toList_none, ite_self, List.append_nil] at hmoved
        exact peekLoop h hlimit hs hr e env rounds ⟨_, _, hbelow, hmoved⟩ hready''
    · rw [if_neg hempty]
      exact ⟨t, rfl, below, taken, hholds, hmirrored⟩

theorem Refines.act (h : m.Reliable limit Ready Holds) (hlimit : mqttMaxFixedHeaderSize + mqttMaxBodyLength < limit)
    (hs : s.Idle) (hr : r.Idle) {t : Stack τ} (hrefines : Refines Holds s r calls t) {e : Bool} {op : StackOp}
    (hplain : ∀ c, op.made = some c → c.Plain ∧ c.Returns) (hready : ∀ env rounds, op = .peek env rounds → Ready e t.below) :
    ∃ t', t.act m e op = some t' ∧
      Refines Holds s r (fun e' => calls e' ++ if e' = e then op.made.toList else []) t' := by
  have hcalls : op.made = none → (fun e' => calls e' ++ if e' = e then op.made.toList else []) = calls := by
    intro hnone
    simp [hnone]
  cases op with
  | call env c =>
    obtain ⟨below, taken, hholds, hmirrored⟩ := hrefines
    have hfront := h.front_not hholds e
    have hact : (netOf t.stream below taken e).act (.call env c) =
        (netOf t.stream below taken e).update (Mqtt.step (t.stream e) env c) ((below (!e)).drop (taken e).length) := rfl
    have hmade : ∀ c', (Action.call env c).made = some c' → c'.Plain := fun c' hc' => (hplain c' hc').1
    obtain ⟨hmoved, hlength⟩ := hmirrored.move hs hr hmade hfront (List.nil_append _).symm hact
    rw [grow_nil] at hmoved
    have hbelow := h.writeAll e 0 hholds fun data hdata => (hlength data hdata).trans_lt hlimit
    unfold Stack.act
    simp only [perform_eq (t.stream e) env (hplain c rfl).2, Option.map_some]
    refine ⟨_, rfl, ?_⟩
    split
    · exact ⟨_, _, h.time e hbelow, hmoved⟩
    · exact ⟨_, _, hbelow, hmoved⟩
  | peek env rounds =>
    rw [hcalls rfl]
    exact hrefines.peekLoop h hlimit hs hr e env rounds (hready env rounds rfl)
  | handleOutgoingData =>
    rw [hcalls rfl]
    obtain ⟨below, taken, hholds, hmirrored⟩ := hrefines
    exact ⟨_, rfl, below, taken, h.handle e hholds, hmirrored⟩
  | flush =>
    rw [hcalls rfl]
    obtain ⟨below, taken, hholds, hmirrored⟩ := hrefines
    exact ⟨_, rfl, below, taken, h.flush e hholds, hmirrored⟩

theorem stackCalls_cons (e e' : Bool) (op : StackOp) (ops : List (Bool × StackOp)) :
    stackCalls e' ((e, op) :: ops) = (if e' = e then op.made.toList else []) ++ stackCalls e' ops := by
  unfold stackCalls
  rw [List.filterMap_cons]
  by_cases he : e' = e
  · subst he
    cases op.made <;> simp
  · simp [he, Ne.symm he]

/-- Over a reliable medium a run of the stack does not crash, and its streams come to what those of the network come to
by operations with the same calls. -/
theorem stack_refines (h : m.Reliable limit Ready Holds) (hlimit : mqttMaxFixedHeaderSize + mqttMaxBodyLength < limit)
    (hs : s.Idle) (hr : r.Idle) : ∀ {ops : List (Bool × StackOp)} {calls : Bool → List Call} {t : Stack τ},
    Refines Holds s r calls t → (∀ op ∈ ops, ∀ c, op.2.made = some c → c.Plain ∧ c.Returns) → t.ReadyAlong m Ready ops →
      ∃ t', t.run m ops = some t' ∧ Refines Holds s r (fun e => calls e ++ stackCalls e ops) t'
  | [], calls, t, hrefines, _, _ => ⟨t, rfl, by simpa [stackCalls] using hrefines⟩
  | (e, op) :: ops, calls, t, hrefines, hplain, ⟨hready, halong⟩ => by
    obtain ⟨hop, hops⟩ := List.forall_mem_cons.1 hplain
    obtain ⟨t', ht', hrefines'⟩ := hrefines.act h hlimit hs hr hop hready
    obtain ⟨t'', ht'', hrefines''⟩ := stack_refines h hlimit hs hr hrefines' hops (halong t' ht')
    refine ⟨t'', by rw [Stack.run, ht']; exact ht'', ?_⟩
    simpa only [stackCalls_cons, List.append_assoc] using hrefines''

end Refines

/-! ## Over sockets -/

/-- The streams of `t` are those of the network after operations with the calls of `ops`; so each has been handed
the first of the frames that the other has written, and has answered every request among them once, in order. -/
structure Conforms {τ : Type} (stream : Bool → StreamMqtt) (ops : List (Bool × StackOp)) (t : Stack τ) : Prop where
  network : ∃ netOps, Plain netOps ∧ (∀ e, netCalls e netOps = stackCalls e ops) ∧
    ((Net.start (stream false) (stream true)).run netOps).s = t.stream false ∧
    ((Net.start (stream false) (stream true)).run netOps).r = t.stream true
  received : ∀ e, received (t.stream e).trace <+: sent (t.stream (!e))
  answered : ∀ e, (sent (t.stream e)).filter Frame.isAnswer = (Mqtt.received (t.stream e).trace).filterMap Frame.answer

section Conforms

variable {stream : Bool → StreamMqtt}

theorem Refines.conforms {τ : Type} {Holds : (written taken : Bool → Bytes) → τ → Prop} (hidle : ∀ e, (stream e).Idle)
    {ops : List (Bool × StackOp)} {t : Stack τ}
    (h : Refines Holds (stream false) (stream true) (fun e => [] ++ stackCalls e ops) t) : Conforms stream ops t := by
  obtain ⟨below, taken, -, netOps, hplain, hcalls, hrun⟩ := h
  have htalks := talks_run (hidle false) (hidle true) hplain
  rw [hrun] at htalks
  obtain ⟨toR, -, htoR⟩ := htalks.toR
  obtain ⟨toS, -, htoS⟩ := htalks.toS
  refine ⟨⟨netOps, hplain, hcalls, by rw [hrun]; rfl, by rw [hrun]; rfl⟩, ?_, ?_⟩
  · rintro (_ | _)
    · exact ⟨toS, htoS.symm⟩
    · exact ⟨toR, htoR.symm⟩
  · rintro (_ | _)
    · exact htalks.s.answers
    · exact htalks.r.answers

/-- Idle streams over a reliable medium on which nothing is on its way. -/
theorem reliable_conforms {τ : Type} {m : Medium τ} {limit : Nat} {Ready : Bool → τ → Prop}
    {Holds : (written taken : Bool → Bytes) → τ → Prop} (h : m.Reliable limit Ready Holds)
    (hlimit : mqttMaxFixedHeaderSize + mqttMaxBodyLength < limit) (hidle : ∀ e, (stream e).Idle) {t : τ}
    {below taken : Bool → Bytes} (hholds : Holds below taken t) (htaken : ∀ e, taken e = below (!e))
    {ops : List (Bool × StackOp)} (hplain : ∀ op ∈ ops, ∀ c, op.2.made = some c → c.Plain ∧ c.Returns)
    (hready : Stack.ReadyAlong m Ready ⟨stream, t⟩ ops) :
    ∃ t', Stack.run m ⟨stream, t⟩ ops = some t' ∧ Conforms stream ops t' := by
  obtain ⟨t', ht', hrefines⟩ := stack_refines h hlimit (hidle false) (hidle true)
    (t := ⟨stream, t⟩) ⟨below, taken, hholds, mirrored_start htaken⟩ hplain hready
  exact ⟨t', ht', hrefines.conforms hidle⟩

theorem Stack.ReadyAlong.imp {τ : Type} {m : Medium τ} {Ready Ready' : Bool → τ → Prop} (h : ∀ e t, Ready e t → Ready' e t) :
    ∀ {ops : List (Bool × StackOp)} {t : Stack τ}, ReadyAlong m Ready t ops → ReadyAlong m Ready' t ops
  | [], _, _ => trivial
  | (_, _) :: _, _, ⟨hready, halong⟩ =>
    ⟨fun env rounds hop => h _ _ (hready env rounds hop), fun t' ht' => imp h (halong t' ht')⟩

/-- A message is written in three parts, and read in two. -/
def partlyTaken : Sockets :=
  .new (fun _ => [.accept 3, .again, .accept 2, .accept 100]) fun _ => [.give 1, .refuse .again, .give 99]

theorem partlyTaken_quiet : partlyTaken.Quiet := Sockets.quiet_new (fun _ => by decide) _

def partlyTakenOps : List (Bool × StackOp) :=
  [(false, .call (Env.at 0) resentMessage), (true, .peek (Env.at 1) 4), (false, .handleOutgoingData), (false, .flush),
    (true, .peek (Env.at 2) 4)]

theorem partlyTakenOps_plain : ∀ op ∈ partlyTakenOps, ∀ c, op.2.made = some c → c.Plain ∧ c.Returns := by
  rintro op hop c hc
  simp only [partlyTakenOps, List.mem_cons, List.not_mem_nil, or_false] at hop
  rcases hop with rfl | rfl | rfl | rfl | rfl
  · cases hc
    exact ⟨plain_resentMessage, trivial⟩
  · cases hc
  · cases hc
  · cases hc
  · cases hc

/-- The message of the exchange as a frame. -/
def resentFrame : Frame := .ofPublish false false mqttQos1 7 ⟨[0x61], resentTopic_noNul⟩ [0x78]

/-- A client and a server behind their handshakes, with short receive buffers, which grow as the others do. -/
def openedStreams (e : Bool) : Ws.StreamWs := { Ws.shortStream with clientRole := !e }

theorem openedStreams_opened : Ws.Opened openedStreams :=
  ⟨rfl, fun _ => rfl, fun _ => rfl, fun _ => rfl, fun _ => Or.inr rfl⟩

/-- The message in its frame, over the same sockets. -/
def openedStack : Stack (Decorating (Ws.Framed (Decorating Sockets))) :=
  ⟨fun _ => streamMqttInit, .new ⟨openedStreams, .new partlyTaken, 0⟩⟩

/-- What the two `stream_ws` are, with nothing but the masks to find outside. -/
def openedMedium : Medium (Decorating (Ws.Framed (Decorating Sockets))) :=
  (Ws.framed ((sockets 9).decorated 9) (fun e d => (d.below.answers e).length) (fun _ => Vector.replicate 20 0)
    fun _ => Ws.maskingEnv).decorated 9

end Conforms

end CMx.Mqtt
