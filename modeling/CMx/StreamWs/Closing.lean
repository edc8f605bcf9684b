/-
Streams that are closing: what received bytes and time can do to their status. The handlers that set
READY do not ask what the status was, so a late CONNACK and a late handshake open the stream again,
and nothing else does.
-/
import CMx.StreamMqtt.KeepAlive
import CMx.StreamWs.Handshake

namespace CMx

open Mqtt (Bytes CString StreamStatus)

/-! ## Runs that stay outside -/

/-- A run of partial steps from outside of `P` stays outside if and only if none of its steps enters, given
which steps enter from outside. -/
theorem foldlM_outside_iff {σ ι : Type} {f : σ → ι → Option σ} {P : σ → Prop} {E : σ → ι → Prop} :
    ∀ (is : List ι) (s : σ), (∀ s, ∀ i ∈ is, ¬ P s → ((∃ t, f s i = some t ∧ P t) ↔ E s i)) → ¬ P s →
      ((∀ pre, pre <+: is → ∀ t, pre.foldlM f s = some t → ¬ P t) ↔
        ∀ pre i, pre ++ [i] <+: is → ∀ t, pre.foldlM f s = some t → ¬ E t i)
  | [], s, _, hs => by
    constructor
    · rintro - pre i hpre
      simp at hpre
    · rintro - pre hpre t ht
      obtain rfl := List.prefix_nil.1 hpre
      cases ht
      exact hs
  | i :: is, s, h, hs => by
    have hstep := h s i (List.mem_cons_self ..) hs
    have hrest := fun t j (hj : j ∈ is) => h t j (List.mem_cons_of_mem _ hj)
    constructor
    · intro hout pre j hpre t ht henters
      cases pre with
      | nil =>
        cases ht
        obtain rfl : j = i := by simpa using hpre
        obtain ⟨t, ht, hinside⟩ := hstep.2 henters
        exact hout [j] (by simp) t (by rw [List.foldlM_cons, ht]; rfl) hinside
      | cons k pre =>
        obtain ⟨rfl, hpre'⟩ := List.cons_prefix_cons.1 hpre
        rw [List.foldlM_cons] at ht
        obtain ⟨s', hk, ht⟩ := Option.bind_eq_some_iff.1 ht
        -- the first step stays outside, and the rest is by induction
        have hs' : ¬ P s' := hout [k] (by simp) s' (by rw [List.foldlM_cons, hk]; rfl)
        refine (foldlM_outside_iff is s' hrest hs').1 (fun pre' hp t' ht' => ?_) pre j hpre' t ht henters
        exact hout (k :: pre') (List.cons_prefix_cons.2 ⟨rfl, hp⟩) t' (by rw [List.foldlM_cons, hk]; exact ht')
    · intro hnot pre hpre t ht
      cases pre with
      | nil =>
        cases ht
        exact hs
      | cons k pre =>
        obtain ⟨rfl, hpre'⟩ := List.cons_prefix_cons.1 hpre
        rw [List.foldlM_cons] at ht
        obtain ⟨s', hk, ht⟩ := Option.bind_eq_some_iff.1 ht
        -- the first step does not enter, and the rest is by induction
        have hs' : ¬ P s' := fun hinside => hnot [] k (by simp) s rfl (hstep.1 ⟨s', hk, hinside⟩)
        refine (foldlM_outside_iff is s' hrest hs').2 (fun pre' j hp t' ht' => ?_) pre hpre' t ht
        exact hnot (k :: pre') j (List.cons_prefix_cons.2 ⟨rfl, hp⟩) t' (by rw [List.foldlM_cons, hk]; exact ht')

/-- So does a run whose steps are total. -/
theorem foldl_outside_iff {σ ι : Type} {f : σ → ι → σ} {P : σ → Prop} {E : σ → ι → Prop} (is : List ι) (s : σ)
    (h : ∀ s, ∀ i ∈ is, ¬ P s → (P (f s i) ↔ E s i)) (hs : ¬ P s) :
    (∀ pre, pre <+: is → ¬ P (pre.foldl f s)) ↔ ∀ pre i, pre ++ [i] <+: is → ¬ E (pre.foldl f s) i := by
  have hfold : ∀ pre : List ι, pre.foldlM (fun s i => some (f s i)) s = some (pre.foldl f s) :=
    fun pre => List.foldlM_pure
  have hiff := @foldlM_outside_iff σ ι (fun s i => some (f s i)) P E is s
    (fun s i hi hs => by simpa using h s i hi hs) hs
  simpa only [hfold, Option.some.injEq, forall_eq'] using hiff

namespace Mqtt

/-! ## MQTT -/

/-- What still happens to a stream that the application has left: the steps of the reassembly loop, and time. -/
def Call.isLater : Call → Bool
  | .receive _ _ | .rebuffer _ | .time => true
  | _ => false

/-- A CONNACK that accepts, for a stream with a keep-alive time. -/
def Reopens (s : StreamMqtt) : Call → Prop
  | .receive frame body => MqttPacketType.ofByte frame.type = some .connack ∧
      connackReturnCode frame body = mqttConnackAccepted ∧ s.keepAlive > 0
  | _ => False

theorem status_handle (env : Env) (s : StreamMqtt) (frame : MqttFixedHeader) (body : Mem) (h : s.status ≠ .ready) :
    (streamMqttHandleReceivedFrame env s frame body).status = .ready ↔ Reopens s (.receive frame body) := by
  show (streamMqttHandleReceivedFrame env s frame body).vitals.status = .ready ↔ _
  unfold Reopens
  by_cases hsignal : (recorded frame body).isSignal = false
  · rw [vitals_handle env s frame body hsignal]
    refine ⟨fun hready => absurd hready h, fun hconnack => ?_⟩
    simp [Frame.isSignal, recorded, hconnack.1, MqttPacketType.isSignal] at hsignal
  · cases ht : MqttPacketType.ofByte frame.type with
    | none => simp [Frame.isSignal, recorded, ht] at hsignal
    | some type =>
      cases type with
      | connect =>
        rw [vitals_handle_connect env s ht]
        refine ⟨fun hready => ?_, fun hconnack => absurd (ht.symm.trans hconnack.1) (by decide)⟩
        split at hready <;> exact absurd hready h
      | connack =>
        rw [vitals_handle_connack env s ht]
        split
        · rename_i haccepts
          exact ⟨fun _ => ⟨ht, haccepts⟩, fun _ => rfl⟩
        · rename_i hrefuses
          exact ⟨fun hready => absurd hready h, fun hconnack => absurd hconnack.2 hrefuses⟩
      | pingreq =>
        rw [vitals_handle_pingreq env s ht]
        exact ⟨fun hready => absurd hready h, fun hconnack => absurd (ht.symm.trans hconnack.1) (by decide)⟩
      | pingresp =>
        rw [vitals_handle_pingresp env s ht]
        exact ⟨fun hready => absurd hready h, fun hconnack => absurd (ht.symm.trans hconnack.1) (by decide)⟩
      | _ => simp [Frame.isSignal, recorded, ht, MqttPacketType.isSignal] at hsignal

theorem status_doTime (env : Env) (s : StreamMqtt) (h : s.status ≠ .ready) :
    (streamMqttDoTime env s).2.status ≠ .ready := by
  have hstatus : (streamMqttDoTime env s).2.status = (streamMqttKeepAliveTime env s).status :=
    congrArg Vitals.status (vitals_doTime env s)
  rw [hstatus]
  unfold streamMqttKeepAliveTime
  split
  · split
    · split
      · exact h
      · simp [streamMqttSetStatus]
    · simp [streamMqttSetStatus]
  · exact h

/-- Of what happens later, a CONNACK alone makes a stream ready. -/
theorem status_step (s : StreamMqtt) (env : Env) {call : Call} (hlater : call.isLater = true) (h : s.status ≠ .ready) :
    (step s env call).status = .ready ↔ Reopens s call := by
  cases call with
  | receive frame body => exact status_handle env s frame body h
  | rebuffer buffer => exact ⟨fun hready => absurd hready h, fun hno => hno.elim⟩
  | time => exact ⟨fun hready => absurd hready (status_doTime env s h), fun hno => hno.elim⟩
  | _ => cases hlater

end Mqtt

namespace Ws

/-! ## WebSocket -/

/-- What still happens to a stream that the application has left: chunks arrive, the frames behind one
that has closed the stream are handled, and time passes. -/
inductive Later where
  | chunk (chunk : Chunk)
  | frames (rounds : Nat)
  | time

/-- The stream behind a step, or `none` where it crashes or does not come back. -/
def later (sha1 : Sha1) (s : StreamWs) (env : Env) : Later → Option StreamWs
  | .chunk chunk => (streamWsReceiveChunk sha1 env s chunk.data).map (·.2)
  | .frames rounds => streamWsParseLoop env rounds s
  | .time => some (streamWsDoTime env s).2

def laterRun (sha1 : Sha1) (s : StreamWs) (steps : List (Env × Later)) : Option StreamWs :=
  steps.foldlM (fun s step => later sha1 s step.1 step.2) s

/-- A chunk that completes a handshake: a request with a key, or a response to the client's own key
whose word is at the front of the accept key. -/
def Reopens (sha1 : Sha1) (s : StreamWs) (env : Env) : Later → Prop
  | .chunk chunk => ∃ word,
      handshakeWord s (StreamWs.string { s with buffer := bufferAppend s.buffer chunk.data } env) = some (some word) ∧
        (s.clientRole = true → ∃ key, s.key = some key ∧ word <+: acceptKey sha1 key.bytes)
  | _ => False

theorem status_handleHandshake (sha1 : Sha1) (env : Env) (s : StreamWs) (h : s.status ≠ .ready) :
    (streamWsHandleHandshake sha1 env s).2.status = .ready ↔
      ∃ word, handshakeWord s (s.string env) = some (some word) ∧
        (s.clientRole = true → ∃ key, s.key = some key ∧ word <+: acceptKey sha1 key.bytes) := by
  have hstatus : (streamWsHandleHandshake sha1 env s).2.status =
      (Seen.ofHandshake sha1 s (handshakeWord s (s.string env))).status := congrArg Seen.status (seen_handleHandshake s)
  rw [hstatus]
  unfold Seen.ofHandshake
  cases handshakeWord s (s.string env) with
  | none =>
    have hno : ¬ ∃ word, (none : Option (Option Bytes)) = some (some word) ∧
        (s.clientRole = true → ∃ key, s.key = some key ∧ word <+: acceptKey sha1 key.bytes) := by simp
    split <;> exact ⟨fun hready => absurd hready h, fun hyes => (hno hyes).elim⟩
  | some found =>
    cases found with
    | none =>
      have hno : ¬ ∃ word, (some none : Option (Option Bytes)) = some (some word) ∧
          (s.clientRole = true → ∃ key, s.key = some key ∧ word <+: acceptKey sha1 key.bytes) := by simp
      split <;> exact ⟨fun hready => absurd hready h, fun hyes => (hno hyes).elim⟩
    | some word =>
      split
      · rename_i hrole
        cases hkey : s.key with
        | none => simp [Seen.ofResponse, hkey, hrole, h]
        | some key =>
          by_cases hword : word <+: acceptKey sha1 key.bytes
          · simp [Seen.ofResponse, hkey, hrole, hword]
          · simp [Seen.ofResponse, hkey, hrole, hword, h]
      · rename_i hrole
        simp [Seen.ofRequest, hrole]

theorem status_handlePayload (env : Env) (s : StreamWs) (frame : WsFrame) (payload : Bytes) :
    (streamWsHandlePayload env s frame payload).status = s.status := by
  unfold streamWsHandlePayload
  split
  · rfl
  · split
    · rfl
    · split
      · rfl
      · split <;> rfl

/-- A frame closes a stream or leaves its status alone. -/
theorem status_handleReceivedFrame {env : Env} {s s' : StreamWs} {frame : WsFrame}
    (h : streamWsHandleReceivedFrame env s frame = some s') : s'.status = .closing ∨ s'.status = s.status := by
  unfold streamWsHandleReceivedFrame at h
  split at h
  · cases h
  · cases h
    rw [status_handlePayload]
    show (streamWsUnmask env s frame).status = .closing ∨ (streamWsUnmask env s frame).status = s.status
    unfold streamWsUnmask
    split
    · split
      · exact Or.inl rfl
      · exact Or.inr rfl
    · exact Or.inr rfl

/-- Frames do not make a stream ready. -/
theorem status_parseLoop (env : Env) : ∀ (rounds : Nat) {s s' : StreamWs}, streamWsParseLoop env rounds s = some s' →
    s.status ≠ .ready → s'.status ≠ .ready
  | 0, s, s', h, hs => by
    unfold streamWsParseLoop at h
    split at h
    · cases h
      exact hs
    · cases h
  | rounds + 1, s, s', h, hs => by
    unfold streamWsParseLoop at h
    split at h
    · cases h
      exact hs
    · split at h
      · cases h
        exact hs
      · split at h
        · cases h
        · rename_i t hframe
          refine status_parseLoop env rounds h ?_
          rcases status_handleReceivedFrame hframe with hclosing | hsame
          · show t.status ≠ .ready
            rw [hclosing]
            decide
          · show t.status ≠ .ready
            rwa [hsame]

theorem status_doTime (env : Env) (s : StreamWs) (h : s.status ≠ .ready) : (streamWsDoTime env s).2.status ≠ .ready := by
  unfold streamWsDoTime
  simp only
  split
  · split
    · split
      · exact h
      · simp [streamWsSetStatus]
    · simp [streamWsSetStatus]
  · exact h

/-- A chunk that comes to a stream that is not ready is handled as a part of the handshake. -/
theorem later_chunk (sha1 : Sha1) {s : StreamWs} (env : Env) (chunk : Chunk) (h : s.status ≠ .ready) :
    later sha1 s env (.chunk chunk) =
      some (streamWsHandleHandshake sha1 env { s with buffer := bufferAppend s.buffer chunk.data }).2 := by
  unfold later streamWsReceiveChunk
  simp only
  rw [if_pos h]
  rfl

/-- Of what happens later, a handshake alone makes a stream ready. -/
theorem status_later (sha1 : Sha1) (s : StreamWs) (env : Env) (step : Later) (h : s.status ≠ .ready) :
    (∃ t, later sha1 s env step = some t ∧ t.status = .ready) ↔ Reopens sha1 s env step := by
  cases step with
  | chunk chunk =>
    rw [later_chunk sha1 env chunk h]
    simp only [Option.some.injEq, exists_eq_left']
    exact status_handleHandshake sha1 env { s with buffer := bufferAppend s.buffer chunk.data } h
  | frames rounds =>
    refine ⟨fun hready => ?_, fun hno => hno.elim⟩
    obtain ⟨t, ht, hready⟩ := hready
    exact absurd hready (status_parseLoop env rounds ht h)
  | time =>
    refine ⟨fun hready => ?_, fun hno => hno.elim⟩
    obtain ⟨t, ht, hready⟩ := hready
    cases ht
    exact absurd hready (status_doTime env s h)

/-! ## Closing streams -/

/-- A closing stream never becomes ready again if and only if no accepting CONNACK and no handshake
comes late. -/
theorem closing_staysClosing_iff (sha1 : Sha1) :
    (∀ (s : Mqtt.StreamMqtt) (calls : List (Mqtt.Env × Mqtt.Call)), s.status = .closing →
      (∀ call ∈ calls, call.2.isLater = true) →
        ((∀ pre, pre <+: calls → (Mqtt.run s pre).status ≠ .ready) ↔
          ∀ pre call, pre ++ [call] <+: calls → ¬ Mqtt.Reopens (Mqtt.run s pre) call.2)) ∧
    ∀ (s : StreamWs) (steps : List (Env × Later)), s.status = .closing →
      ((∀ pre, pre <+: steps → ∀ t, laterRun sha1 s pre = some t → t.status ≠ .ready) ↔
        ∀ pre step, pre ++ [step] <+: steps → ∀ t, laterRun sha1 s pre = some t → ¬ Reopens sha1 t step.1 step.2) := by
  constructor
  · intro s calls hs hlater
    refine foldl_outside_iff (f := fun t call => Mqtt.step t call.1 call.2) (P := fun t => t.status = .ready)
      (E := fun t call => Mqtt.Reopens t call.2) calls s ?_ (by rw [hs]; decide)
    exact fun t call hcall ht => Mqtt.status_step t call.1 (hlater call hcall) ht
  · intro s steps hs
    refine foldlM_outside_iff (f := fun t step => later sha1 t step.1 step.2) (P := fun t => t.status = .ready)
      (E := fun t step => Reopens sha1 t step.1 step.2) steps s ?_ (by rw [hs]; decide)
    exact fun t step _ ht => status_later sha1 t step.1 step.2 ht

theorem clientId_noNul : 0 ∉ [(0x61 : UInt8)] := by decide

/-- A client that has disconnected gets the CONNACK that it was waiting for. -/
def disconnected : Mqtt.StreamMqtt :=
  Mqtt.run Mqtt.streamMqttInit
    [(.at 0, .connect ⟨true, 60, some ⟨[0x61], clientId_noNul⟩, none, none, 0, false, 0, none, none, 0⟩),
      (.at 0, .disconnect)]

/-- A server that has disconnected before the request has come. -/
def disconnectedServer : StreamWs := streamWsDisconnect (.at 0) (streamWsInit (Vector.replicate 4096 0)) 1000

/-- The string of its first chunk. -/
theorem string_disconnectedServer {data : Bytes} (hlen : data.length < 4096) (hnul : 0 ∉ data) (env : Env) :
    StreamWs.string { disconnectedServer with buffer := bufferAppend disconnectedServer.buffer data } env = data := by
  have hfresh : disconnectedServer.buffer = bufferInit (List.replicate 4096 0) := congrArg bufferInit Vector.toList_replicate
  rw [hfresh]
  exact string_cleared rfl hlen hnul env

/-- A request that has no key. -/
def keylessRequest : Chunk := ⟨text "GET / HTTP/1.1\r\nHost: x\r\n\r\n", by decide +kernel, by decide +kernel⟩

/-- The client gets a message and a CONNACK that refuses it, the server a request without a key. -/
theorem closing_staysClosing_bytes :
    disconnected.status = .closing ∧ disconnectedServer.status = .closing ∧
      (∀ pre, pre <+: [(.at 1, .receive ⟨3, 0, 4⟩ (Mqtt.memOf [0, 1, 0x61, 0x78] fun _ => 0)), (.at 1, .rebuffer []),
          (.at 2, .receive ⟨2, 0, 2⟩ (Mqtt.memOf [0, 5] fun _ => 0)), (.at 90, .time)] →
        (Mqtt.run disconnected pre).status ≠ .ready) ∧
      ∃ t, laterRun (fun _ => Vector.replicate 20 0) disconnectedServer
        [(.at 1, .chunk keylessRequest), (.at 2, .time)] = some t ∧ t.status ≠ .ready := by
  have hclosing : disconnected.status = .closing := by decide +kernel
  have hserver : disconnectedServer.status = .closing := rfl
  refine ⟨hclosing, hserver, ?_, ?_⟩
  · refine ((closing_staysClosing_iff fun _ => Vector.replicate 20 0).1 _ _ hclosing (by decide)).2 fun pre call hpre => ?_
    have hmem := hpre.subset (List.mem_append_right pre (List.mem_singleton_self call))
    simp only [List.mem_cons, List.not_mem_nil, or_false] at hmem
    -- none of these frames is a CONNACK that accepts
    rcases hmem with rfl | rfl | rfl | rfl
    · exact fun h => absurd h.1 (by decide)
    · exact id
    · exact fun h => absurd h.2.1 (by decide +kernel)
    · exact id
  · have hchunk := later_chunk (fun _ => Vector.replicate 20 0) (.at 1) keylessRequest
      (show disconnectedServer.status ≠ .ready by rw [hserver]; decide)
    obtain ⟨t, ht⟩ : ∃ t, laterRun (fun _ => Vector.replicate 20 0) disconnectedServer
        [(.at 1, .chunk keylessRequest), (.at 2, .time)] = some t := by
      rw [laterRun, List.foldlM_cons, hchunk]
      exact ⟨_, rfl⟩
    refine ⟨t, ht, ((closing_staysClosing_iff fun _ => Vector.replicate 20 0).2 disconnectedServer _ hserver).2
      (fun pre step hpre u hu => ?_) _ (List.prefix_refl _) t ht⟩
    match pre, hpre with
    | [], hpre =>
      obtain rfl : step = (.at 1, .chunk keylessRequest) := by simpa using hpre
      cases hu
      rintro ⟨word, hword, -⟩
      rw [string_disconnectedServer (by decide +kernel) (by decide +kernel)] at hword
      have hkeyless : handshakeWord disconnectedServer keylessRequest.data = some none := by decide +kernel
      rw [show handshakeWord _ _ = some none from hkeyless] at hword
      cases hword
    | k :: pre, hpre =>
      obtain ⟨-, hrest⟩ := List.cons_prefix_cons.1 hpre
      have hmem := hrest.subset (List.mem_append_right pre (List.mem_singleton_self step))
      obtain rfl := List.mem_singleton.1 hmem
      exact id

theorem closing_reopened :
    (¬ ∀ (s : Mqtt.StreamMqtt) (calls : List (Mqtt.Env × Mqtt.Call)), s.status = .closing →
      (∀ call ∈ calls, call.2.isLater = true) → ∀ pre, pre <+: calls → (Mqtt.run s pre).status ≠ .ready) ∧
    ¬ ∀ (sha1 : Sha1) (s : StreamWs) (steps : List (Env × Later)), s.status = .closing →
      ∀ pre, pre <+: steps → ∀ t, laterRun sha1 s pre = some t → t.status ≠ .ready := by
  constructor
  · intro h
    refine h disconnected [(.at 1, .receive ⟨2, 0, 2⟩ fun _ => 0)] (by decide +kernel) (by decide) _ (List.prefix_refl _) ?_
    decide +kernel
  · intro h
    let chunk : Chunk := ⟨text "GET / HTTP/1.1\r\nSec-WebSocket-Key: x\r\n\r\n", by decide +kernel, by decide +kernel⟩
    have hclosing : disconnectedServer.status = .closing := rfl
    have hreopens := status_later (fun _ => Vector.replicate 20 0) disconnectedServer (.at 1) (.chunk chunk)
      (by rw [hclosing]; decide)
    obtain ⟨t, ht, hready⟩ := hreopens.2 ⟨text "x", by
      rw [string_disconnectedServer (by decide +kernel) (by decide +kernel)]
      decide +kernel, fun hrole => absurd hrole (by decide)⟩
    refine h (fun _ => Vector.replicate 20 0) disconnectedServer [(.at 1, .chunk chunk)] rfl _ (List.prefix_refl _) t ?_ hready
    rw [laterRun, List.foldlM_cons, ht]
    rfl

end Ws

end CMx
