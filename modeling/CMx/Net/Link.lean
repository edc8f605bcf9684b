/-
A connection: a client and a server that share a clock, and the frames on their way between them,
each with the second at which it was written. Of the frames only CONNECT, CONNACK and the pings
matter to the keep-alive; what the applications send goes unnoticed.
-/
import CMx.Net.Calls
import CMx.StreamMqtt.KeepAlive

namespace CMx.Mqtt

/-! ## The connection -/

/-- A frame on its way, and the second at which it was written. -/
structure Sent where
  frame : Frame
  time : Int

/-- How far the connection has been set up: CONNECT has been sent, the server has handled it, it has
sent CONNACK, the client has handled that. -/
inductive Phase where
  | connecting
  | connected (time : Int)
  | granted (time : Int)
  | accepted

/-- The endpoints, the clock, what is on its way, and the last time at which the client looked at its
timer, or started it. -/
structure Link where
  client : StreamMqtt
  server : StreamMqtt
  now : Int
  toServer : List Sent
  toClient : List Sent
  phase : Phase
  lookedAt : Int

/-- The frames written between two states of a stream. -/
def sentSince (s s' : StreamMqtt) (now : Int) : List Sent :=
  (framesOf (written (eventsSince s s')).flatten).map (⟨·, now⟩)

/-- The calls that an application makes on a connection: well-formed ones, which do not set it up or
write its frames. -/
structure Call.Steady (call : Call) : Prop where
  wellFormed : call.WellFormed
  time : call ≠ .time
  noSignal : ∀ f, call.frame = some f → f.isSignal = false

namespace Link

/-- What a call finds outside the stream: its clock shows the second. -/
def env (n : Link) (env : Env) : Env := { env with clock := { env.clock with clockS := n.now } }

/-- The client becomes `s'`, and what it has written is on its way; `actServer` likewise. -/
def actClient (n : Link) (s' : StreamMqtt) : Link :=
  { n with client := s', toServer := n.toServer ++ sentSince n.client s' n.now }

def actServer (n : Link) (s' : StreamMqtt) : Link :=
  { n with server := s', toClient := n.toClient ++ sentSince n.server s' n.now }

/-- The handling of a frame, with some memory behind its body. -/
def handle (n : Link) (env : Env) (s : StreamMqtt) (f : Frame) (stale : Mem) : StreamMqtt :=
  streamMqttHandleReceivedFrame (n.env env) s f.header (memOf f.body stale)

/-- The time may come: CONNACK has been handled within `A` seconds of CONNECT; after that no frame of
the connection is under way for more than `D` seconds and the client calls `stream_time` once every
second. -/
def Timely (n : Link) (A D : Nat) (time : Int) : Prop :=
  match n.phase with
  | .connecting => True
  | .connected t | .granted t => time ≤ t + A
  | .accepted => time ≤ n.lookedAt + 1 ∧ ∀ m ∈ n.toServer ++ n.toClient, m.frame.isSignal = true → time ≤ m.time + D

/-- A step of the connection. -/
inductive Step (A D : Nat) : Link → Link → Prop where
  | wait {n : Link} (d : Nat) : n.Timely A D (n.now + d) → Step A D n { n with now := n.now + d }
  | clientCall {n : Link} (env : Env) {call : Call} : call.Steady →
      Step A D n (n.actClient (step n.client (n.env env) call))
  | serverCall {n : Link} (env : Env) {call : Call} : call.Steady →
      Step A D n (n.actServer (step n.server (n.env env) call))
  | clientTime {n : Link} (env : Env) :
      Step A D n { n.actClient (streamMqttDoTime (n.env env) n.client).2 with lookedAt := n.now }
  | serverTime {n : Link} (env : Env) : Step A D n (n.actServer (streamMqttDoTime (n.env env) n.server).2)
  | connack {n : Link} (env : Env) (sessionPresent : Bool) {t : Int} : n.phase = .connected t →
      Step A D n { n.actServer (streamMqttConnack (n.env env) n.server sessionPresent mqttConnackAccepted).2 with
        phase := .granted t }
  | serverReceive {n : Link} (env : Env) (stale : Mem) {m : Sent} {rest : List Sent} : n.toServer = m :: rest →
      ¬ m.frame.isType .connect →
      Step A D n ({ n with toServer := rest }.actServer (n.handle env n.server m.frame stale))
  | connect {n : Link} (env : Env) (stale : Mem) {m : Sent} {rest : List Sent} : n.toServer = m :: rest →
      m.frame.isType .connect →
      Step A D n { { n with toServer := rest }.actServer (n.handle env n.server m.frame stale) with
        phase := .connected n.now }
  | clientReceive {n : Link} (env : Env) (stale : Mem) {m : Sent} {rest : List Sent} : n.toClient = m :: rest →
      ¬ m.frame.isType .connack →
      Step A D n ({ n with toClient := rest }.actClient (n.handle env n.client m.frame stale))
  | accept {n : Link} (env : Env) (stale : Mem) {m : Sent} {rest : List Sent} : n.toClient = m :: rest →
      m.frame.isType .connack →
      Step A D n { { n with toClient := rest }.actClient (n.handle env n.client m.frame stale) with
        phase := .accepted, lookedAt := n.now }

instance (n : Link) (A D : Nat) (time : Int) : Decidable (n.Timely A D time) := by
  unfold Timely
  cases n.phase <;> infer_instance

/-- What can come next: time passes, a party is called, or it is handed the next frame on its way. -/
inductive Turn where
  | wait (d : Nat)
  | clientTime
  | serverTime
  | connack
  | serverReceive
  | clientReceive

/-- The connection behind a turn, if it may come now. -/
def turn (A D : Nat) (n : Link) : Turn → Option Link
  | .wait d => if n.Timely A D (n.now + d) then some { n with now := n.now + d } else none
  | .clientTime => some { n.actClient (streamMqttDoTime (n.env (Env.at 0)) n.client).2 with lookedAt := n.now }
  | .serverTime => some (n.actServer (streamMqttDoTime (n.env (Env.at 0)) n.server).2)
  | .connack =>
    match n.phase with
    | .connected t =>
      some { n.actServer (streamMqttConnack (n.env (Env.at 0)) n.server false mqttConnackAccepted).2 with
        phase := .granted t }
    | _ => none
  | .serverReceive =>
    match n.toServer with
    | [] => none
    | m :: rest =>
      let behind := { n with toServer := rest }.actServer (n.handle (Env.at 0) n.server m.frame fun _ => 0)
      some (if m.frame.isType .connect then { behind with phase := .connected n.now } else behind)
  | .clientReceive =>
    match n.toClient with
    | [] => none
    | m :: rest =>
      let behind := { n with toClient := rest }.actClient (n.handle (Env.at 0) n.client m.frame fun _ => 0)
      some (if m.frame.isType .connack then { behind with phase := .accepted, lookedAt := n.now } else behind)

/-- A turn is a step. -/
theorem turn_step {A D : Nat} {n n' : Link} {t : Turn} (h : n.turn A D t = some n') : Step A D n n' := by
  cases t with
  | wait d =>
    simp only [turn] at h
    split at h
    · rename_i htimely
      cases h
      exact .wait d htimely
    · cases h
  | clientTime =>
    cases h
    exact .clientTime (Env.at 0)
  | serverTime =>
    cases h
    exact .serverTime (Env.at 0)
  | connack =>
    simp only [turn] at h
    split at h
    · rename_i hphase
      cases h
      exact .connack (Env.at 0) false hphase
    · cases h
  -- a CONNECT has a step of its own
  | serverReceive =>
    simp only [turn] at h
    split at h
    · cases h
    · rename_i hhead
      cases h
      split
      · rename_i hconnect
        exact .connect (Env.at 0) (fun _ => 0) hhead hconnect
      · rename_i hother
        exact .serverReceive (Env.at 0) (fun _ => 0) hhead hother
  | clientReceive =>
    simp only [turn] at h
    split at h
    · cases h
    · rename_i hhead
      cases h
      split
      · rename_i hconnack
        exact .accept (Env.at 0) (fun _ => 0) hhead hconnack
      · rename_i hother
        exact .clientReceive (Env.at 0) (fun _ => 0) hhead hother

/-- Turns, one after the other, are a run. -/
theorem turns_run {A D : Nat} : ∀ (turns : List Turn) {n n' : Link}, turns.foldlM (turn A D) n = some n' →
    Relation.ReflTransGen (Step A D) n n'
  | [], n, n', h => by
    cases h
    exact .refl
  | t :: turns, n, n', h => by
    rw [List.foldlM_cons] at h
    obtain ⟨n'', hturn, hrest⟩ := Option.bind_eq_some_iff.1 h
    exact .head (turn_step hturn) (turns_run turns hrest)

/-- New streams, with or without observers. -/
def new (now : Int) (client server : Option Handler) : Link :=
  ⟨{ streamMqttInit with mqttObserver := client }, { streamMqttInit with mqttObserver := server }, now, [], [],
    .connecting, now⟩

/-- The client has called `stream_mqtt_connect`. -/
def start (now : Int) (client server : Option Handler) (env : Env) (args : MqttConnectArgs) : Link :=
  let n := new now client server
  n.actClient (step n.client (n.env env) (.connect args))

end Link

/-! ## What a step writes -/

/-- `s'` comes from `s` by writing some frames. -/
def Sends (fs : List Frame) (s s' : StreamMqtt) : Prop :=
  (∃ es, s'.trace = s.trace ++ es ∧ written es = fs.map Frame.format) ∧ ∀ f ∈ fs, f.Proper

section Sends

variable {fs gs : List Frame} {s s' s'' : StreamMqtt}

theorem Sends.trans (h : Sends fs s s') (h' : Sends gs s' s'') : Sends (fs ++ gs) s s'' := by
  obtain ⟨⟨es, ht, hw⟩, hproper⟩ := h
  obtain ⟨⟨es', ht', hw'⟩, hproper'⟩ := h'
  refine ⟨⟨es ++ es', by rw [ht', ht, List.append_assoc], by rw [written_append, hw, hw', List.map_append]⟩, ?_⟩
  intro f hf
  rcases List.mem_append.1 hf with hf | hf
  · exact hproper f hf
  · exact hproper' f hf

theorem sentSince_eq (h : Sends fs s s') (now : Int) : sentSince s s' now = fs.map (⟨·, now⟩) := by
  obtain ⟨⟨es, ht, hw⟩, hproper⟩ := h
  unfold sentSince framesOf
  rw [eventsSince_eq ht, hw, ← List.flatMap_def, drain_format hproper]

/-- The frames of the connection among those on their way. -/
def signals (l : List Sent) : List Sent := l.filter fun m => m.frame.isSignal

@[simp] theorem signals_append (l l' : List Sent) : signals (l ++ l') = signals l ++ signals l' := List.filter_append ..

/-- `s'` comes from `s` by writing no frame of the connection. -/
def SendsNone (s s' : StreamMqtt) : Prop := ∃ fs, Sends fs s s' ∧ ∀ f ∈ fs, f.isSignal = false

theorem SendsNone.of_writes {es : List Event} (ht : s'.trace = s.trace ++ es)
    (hes : ∀ e ∈ es, e.Writes fun f => f.isSignal = false) : SendsNone s s' := by
  obtain ⟨fs, hw, hfs⟩ := written_frames hes
  exact ⟨fs, ⟨⟨es, ht, hw⟩, fun f hf => (hfs f hf).1⟩, fun f hf => (hfs f hf).2⟩

theorem Sends.none (h : Sends [] s s') : SendsNone s s' := ⟨[], h, by simp⟩

theorem SendsNone.refl (s : StreamMqtt) : SendsNone s s := .of_writes (List.append_nil _).symm (by simp)

theorem SendsNone.trans (h : SendsNone s s') (h' : SendsNone s' s'') : SendsNone s s'' := by
  obtain ⟨fs, hs, hfs⟩ := h
  obtain ⟨gs, hs', hgs⟩ := h'
  refine ⟨fs ++ gs, hs.trans hs', ?_⟩
  intro f hf
  rcases List.mem_append.1 hf with hf | hf
  · exact hfs f hf
  · exact hgs f hf

theorem SendsNone.signals (h : SendsNone s s') (now : Int) : signals (sentSince s s' now) = [] := by
  obtain ⟨fs, hs, hfs⟩ := h
  rw [sentSince_eq hs]
  apply List.filter_eq_nil_iff.2
  rintro m hm
  obtain ⟨f, hf, rfl⟩ := List.mem_map.1 hm
  simp [hfs f hf]

/-- A frame of the connection and nothing else of it. -/
theorem signals_one {f : Frame} (h : Sends [f] s s') (hf : f.isSignal = true) (h' : SendsNone s' s'') (now : Int) :
    Mqtt.signals (sentSince s s'' now) = [⟨f, now⟩] := by
  obtain ⟨fs, hs, hfs⟩ := h'
  have hnone : Mqtt.signals (fs.map (⟨·, now⟩)) = [] := by
    rw [← sentSince_eq hs]
    exact SendsNone.signals ⟨fs, hs, hfs⟩ now
  rw [sentSince_eq (h.trans hs), List.map_append, signals_append, hnone]
  simp [Mqtt.signals, hf]

end Sends

/-- The queued messages are frames, and none of them of the connection. -/
def StreamMqtt.Tidy (s : StreamMqtt) : Prop :=
  ∀ item ∈ s.outgoing, ∃ f : Frame, f.Proper ∧ f.isSignal = false ∧ item.buffer = f.format

theorem ofId_noSignal {type : MqttPacketType} (h : type.isSignal = false) (id : UInt16) :
    (Frame.ofId type id).isSignal = false := by
  unfold Frame.isSignal
  rw [Frame.ofId_isType type id]
  exact h

/-- What a tick does to the queue of messages is nothing to the connection. -/
theorem Ticks.sendsNone {s s' : StreamMqtt} (q : Ticks s s') (h : s.Tidy) : SendsNone s s' ∧ s'.Tidy := by
  rcases q.head with ⟨ho, ht⟩ | ⟨item, rest, ho, ⟨ho', ht⟩ | ⟨ho', ht⟩⟩
  · refine ⟨@SendsNone.of_writes _ _ [] (by rw [ht, List.append_nil]) (by simp), ?_⟩
    unfold StreamMqtt.Tidy
    rw [ho]
    exact h
  · obtain ⟨f, hproper, hsignal, hbuffer⟩ := h item (by rw [ho]; exact List.mem_cons_self ..)
    refine ⟨.of_writes ht ?_, ?_⟩
    · rintro e he
      rw [List.mem_singleton.1 he]
      exact ⟨f, hproper, hsignal, hbuffer⟩
    · unfold StreamMqtt.Tidy
      rw [ho']
      exact h
  · refine ⟨.of_writes ht ?_, ?_⟩
    · rintro e he
      rw [List.mem_singleton.1 he]
      trivial
    · unfold StreamMqtt.Tidy
      rw [ho']
      intro item hm
      exact h item (by rw [ho]; exact List.mem_cons_of_mem _ hm)

theorem doTime_sendsNone (env : Env) {s : StreamMqtt} (h : (streamMqttKeepAliveTime env s).Tidy) :
    SendsNone (streamMqttKeepAliveTime env s) (streamMqttDoTime env s).2 ∧ (streamMqttDoTime env s).2.Tidy := by
  obtain ⟨hresend, htidy⟩ := (ticks_resendTime env (streamMqttKeepAliveTime env s)).sendsNone h
  obtain ⟨hsend, htidy⟩ := (ticks_sendTime env _).sendsNone htidy
  exact ⟨hresend.trans hsend, htidy⟩

theorem steady_sendsNone (env : Env) {s : StreamMqtt} {call : Call} (hc : call.Steady) (h : s.Tidy) :
    SendsNone s (step s env call) ∧ (step s env call).Tidy := by
  have hframe : ∀ f, call.frame = some f → f.Proper ∧ f.isSignal = false := fun f hf =>
    ⟨(call_frame hc.wellFormed hf).1, hc.noSignal f hf⟩
  rcases (call_effect s env hc.wellFormed hc.time).sends with ⟨item, f, -, hf, hbuffer, q⟩ | ⟨ho, es, ht, hes⟩
  · have hitem : ∃ f : Frame, f.Proper ∧ f.isSignal = false ∧ item.buffer = f.format :=
      ⟨f, (hframe f hf).1, (hframe f hf).2, hbuffer⟩
    constructor
    · rcases q.trace with ht | ht
      · exact @SendsNone.of_writes _ _ [] (by rw [ht, List.append_nil]) (by simp)
      · refine .of_writes ht ?_
        rintro e he
        rw [List.mem_singleton.1 he]
        exact hitem
    · intro item' hm
      rcases q.outgoing with ho | ho | ho
      · exact h item' (ho ▸ hm)
      · rw [ho, List.mem_append, List.mem_singleton] at hm
        rcases hm with hm | rfl
        · exact h item' hm
        · exact hitem
      · rw [ho, List.mem_cons] at hm
        rcases hm with rfl | hm
        · exact hitem
        · exact h item' hm
  · constructor
    · refine .of_writes ht ?_
      rintro e he
      obtain ⟨f, hf, rfl⟩ := hes e he
      exact ⟨f, (hframe f hf).1, (hframe f hf).2, rfl⟩
    · intro item hm
      exact h item (ho ▸ hm)

/-- Nothing but a PUBREL is queued for a frame. -/
theorem handle_tidy (env : Env) {s : StreamMqtt} (frame : MqttFixedHeader) (body : Mem) (h : s.Tidy) :
    (streamMqttHandleReceivedFrame env s frame body).Tidy := by
  intro item hm
  rcases outgoing_handle env s frame body item hm with hm | ⟨id, tag, rfl⟩
  · exact h item hm
  · exact ⟨.ofId .pubrel id, Frame.ofId_proper .pubrel id, ofId_noSignal rfl id, rfl⟩

/-- A frame that is none of the connection is not answered by one. -/
theorem handle_sendsNone (env : Env) {s : StreamMqtt} {frame : MqttFixedHeader} {body : Mem}
    (hsignal : (recorded frame body).isSignal = false) :
    SendsNone s (streamMqttHandleReceivedFrame env s frame body) := by
  have hQ : Releases fun e => e.Writes fun f => f.isSignal = false :=
    ⟨⟨fun _ => trivial, fun _ _ _ => trivial⟩, fun _ _ => trivial⟩
  rcases isAck_or frame.type with ⟨type, ht, hack⟩ | hother
  · rw [handle_ack env s frame body ht hack]
    have hacked : ∀ type id e, e ∈ ackEvents s type id → e.Writes fun f => f.isSignal = false := by
      intro type id e he
      unfold ackEvents at he
      split at he
      · rw [List.mem_singleton.1 he]
        trivial
      · cases he
    by_cases hrec : type = .pubrec
    · subst hrec
      refine .of_writes (handlePubrec_spec env s frame body).2 ?_
      intro e he
      rw [List.mem_append, List.mem_cons, List.mem_singleton] at he
      rcases he with (rfl | he) | rfl
      · trivial
      · exact hacked _ _ e he
      · exact ⟨.ofId .pubrel _, Frame.ofId_proper .pubrel _, ofId_noSignal rfl _, rfl⟩
    · have hq := handleAck_quiet env hQ.toForwards (s.log (.receive (recorded frame body))) frame body hrec
      obtain ⟨es, htrace, hes⟩ := hq.trace
      rw [(acknowledge_spec _ _ _).2] at htrace
      refine @SendsNone.of_writes _ _ (.receive (recorded frame body) :: ackEvents s type (shortAt body 0) ++ es) ?_ ?_
      · rw [htrace]
        simp [StreamMqtt.log, ackEvents]
      · intro e he
        rw [List.mem_append, List.mem_cons] at he
        rcases he with (rfl | he) | he
        · trivial
        · exact hacked _ _ e he
        · exact hes e he
  -- the answers to the other types; only a PINGREQ is answered by a signal
  · have hwrite : ∀ (type : MqttPacketType) id, type = .puback ∨ type = .pubrec ∨ type = .pubcomp →
        Event.Writes (fun f => f.isSignal = false)
          (.write none (mqttFormatFrame type.toByte 0 (mqttPutShort id))) := by
      rintro type id (rfl | rfl | rfl)
      · exact ⟨.ofId .puback id, Frame.ofId_proper _ id, ofId_noSignal rfl id, rfl⟩
      · exact ⟨.ofId .pubrec id, Frame.ofId_proper _ id, ofId_noSignal rfl id, rfl⟩
      · exact ⟨.ofId .pubcomp id, Frame.ofId_proper _ id, ofId_noSignal rfl id, rfl⟩
    have hping : MqttPacketType.ofByte frame.type ≠ some .pingreq := by
      intro hping
      unfold Frame.isSignal at hsignal
      simp only [recorded] at hsignal
      rw [hping] at hsignal
      cases hsignal
    obtain ⟨-, es, ht, hes⟩ := handle_unqueued env s frame body hQ hwrite (fun h => absurd h hping) hother
    refine @SendsNone.of_writes _ _ (.receive (recorded frame body) :: es) ?_ (List.forall_mem_cons.2 ⟨trivial, hes⟩)
    rw [ht]
    simp [StreamMqtt.log]

/-- The application changes nothing that the keep-alive is about, but the status. -/
theorem vitals_steady (env : Env) (s : StreamMqtt) {call : Call} (hc : call.Steady) :
    (step s env call).vitals = { s.vitals with status := (step s env call).status } := by
  by_cases hvital : call.isVital = false
  · have h := vitals_step env s hvital
    have hstatus : (step s env call).status = s.status := congrArg Vitals.status h
    rw [h, hstatus]
    rfl
  · cases call with
    | disconnect => rfl
    | setStatus status => rfl
    | time => exact absurd rfl hc.time
    | receive frame body => exact absurd hc.wellFormed id
    | connack sessionPresent returnCode =>
      have hsignal := hc.noSignal _ rfl
      cases hsignal
    | connect args =>
      cases hbody : mqttFormatConnect args with
      | none =>
        simp only [step, streamMqttConnect, hbody]
        rfl
      | some body =>
        have hsignal := hc.noSignal ⟨MqttPacketType.connect.toByte, 0, body⟩ (by simp [Call.frame, hbody])
        cases hsignal
    | _ => exact absurd rfl hvital

end CMx.Mqtt
