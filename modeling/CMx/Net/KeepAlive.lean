/-
The keep-alive of a connection. Once the server has handled the CONNECT and the client the CONNACK,
the pings of the client are the beats of a heartbeat that the server monitors, so as long as frames
and the calls of `stream_time` are on time neither of them gives the connection up.
-/
import CMx.Lib.Heartbeat
import CMx.Net.Link
import CMx.StreamMqtt.Connect

namespace CMx.Mqtt

/-! ## The signals -/

def pingreqFrame : Frame := ⟨MqttPacketType.pingreq.toByte, 0, []⟩
def pingrespFrame : Frame := ⟨MqttPacketType.pingresp.toByte, 0, []⟩

def connackFrame (sessionPresent : Bool) : Frame :=
  ⟨MqttPacketType.connack.toByte, 0, mqttFormatConnack sessionPresent mqttConnackAccepted⟩

theorem timerTstamp_sec (c : Clock) : timerTstamp c timerSec = c.clockS := rfl

theorem timerStart_sec (c : Clock) (interval : Int) : timerStart c timerSec interval = ⟨c.clockS, interval, timerSec⟩ := by
  rw [timerStart, timerTstamp_sec]

theorem timerRestart_sec (c : Clock) (t interval : Int) :
    timerRestart c ⟨t, interval, timerSec⟩ = ⟨c.clockS, interval, timerSec⟩ := by
  rw [timerRestart, timerTstamp_sec]

theorem timerExpired_sec {c : Clock} {t interval : Int} (h : 0 < interval) :
    timerExpired c ⟨t, interval, timerSec⟩ = decide (t + interval ≤ c.clockS) := by
  have hvalue : timerValue c ⟨t, interval, timerSec⟩ = c.clockS - t := by
    rw [timerValue, timerTstamp_sec]
  unfold timerExpired
  simp only [hvalue]
  rw [if_neg (by omega)]
  split <;> simp <;> omega

theorem recorded_frame (f : Frame) (stale : Mem) : recorded f.header (memOf f.body stale) = f := by
  rw [recorded_memOf (le_refl _)]
  show Frame.mk f.type f.flags (f.body.take f.body.length) = f
  rw [List.take_length]

/-- The server reads the keep-alive time that the client has put into its CONNECT. -/
theorem connectKeepAlive_eq {a : MqttConnectArgs} {clientId : CString} (w : a.WellFormed) (hid : a.clientId = some clientId)
    {body : Bytes} (hbody : mqttFormatConnect a = some body) (env : Env) (header : MqttFixedHeader) (stale : Mem) :
    connectKeepAlive env header (memOf body stale) = a.keepAlive := by
  rw [mqttFormatConnect_eq w, hid] at hbody
  cases hbody
  have hholds := holdsConnect (a := a) (w.clientId clientId hid) (holds_memOf
    (connectHeader a ++ putField clientId.bytes ++ a.optional.flatMap putField) stale)
  exact (message_connect w hholds env.connect header.bodyLength).keepAlive

/-! ## The invariant -/

/-- The times of a connection: a ping every `k` seconds, a server that waits 15 seconds more. -/
def heartbeat (k A D : Nat) : Heartbeat.Params where
  interval := k
  limit := k + mqttKeepAliveTimeout
  delay := D
  lag := A
  gap := 1

theorem heartbeat_sound {k A D : Nat} (hlag : A + D < 14) (hk : 2 * D < k) : (heartbeat k A D).Sound where
  lag := by simp [heartbeat]
  gap := by simp [heartbeat]
  delay := by simp [heartbeat]
  answer := by simp only [heartbeat]; omega
  limit := by simp only [heartbeat, mqttKeepAliveTimeout]; omega

namespace Link

/-- The client has not been accepted yet, and has not started its timer. -/
structure Waiting (n : Link) : Prop where
  timer : n.client.vitals.keepAliveTimer = timerStop
  responded : n.client.vitals.keepAliveResponded = true

/-- The server was last fed at `t`. -/
structure FedAt (n : Link) (k : Nat) (t : Int) : Prop where
  keepAlive : n.server.vitals.keepAlive = k + mqttKeepAliveTimeout
  timer : n.server.vitals.keepAliveTimer = ⟨t, k + mqttKeepAliveTimeout, timerSec⟩

/-- The connection beats as `h` does. -/
structure Beats (n : Link) (k : Nat) (h : Heartbeat.State) : Prop where
  now : n.now = h.now
  fedAt : n.FedAt k h.fedAt
  timer : n.client.vitals.keepAliveTimer = ⟨h.beatAt, k, timerSec⟩
  responded : n.client.vitals.keepAliveResponded = h.answered
  lookedAt : n.lookedAt = h.checkedAt
  toServer : signals n.toServer = h.beats.map (⟨pingreqFrame, ·⟩)
  toClient : signals n.toClient = h.answers.map (⟨pingrespFrame, ·⟩)

/-- What holds of the timers and the frames of the connection in each phase. -/
def PhaseInv (args : MqttConnectArgs) (A D : Nat) (n : Link) : Prop :=
  match n.phase with
  | .connecting => n.Waiting ∧ n.server.vitals.keepAliveTimer = timerStop ∧ signals n.toClient = [] ∧
      ∃ body t, mqttFormatConnect args = some body ∧
        signals n.toServer = [⟨⟨MqttPacketType.connect.toByte, 0, body⟩, t⟩]
  | .connected t => n.Waiting ∧ n.FedAt args.keepAlive.toNat t ∧ signals n.toServer = [] ∧ n.now ≤ t + A ∧
      signals n.toClient = []
  | .granted t => n.Waiting ∧ n.FedAt args.keepAlive.toNat t ∧ signals n.toServer = [] ∧ n.now ≤ t + A ∧
      ∃ sessionPresent t', signals n.toClient = [⟨connackFrame sessionPresent, t'⟩]
  | .accepted => ∃ h, n.Beats args.keepAlive.toNat h ∧ Heartbeat.Inv (heartbeat args.keepAlive.toNat A D) h

structure Inv (args : MqttConnectArgs) (A D : Nat) (n : Link) : Prop where
  clientTidy : n.client.Tidy
  serverTidy : n.server.Tidy
  clientRole : n.client.vitals.clientRole = true
  clientKeepAlive : n.client.vitals.keepAlive = args.keepAlive.toNat
  serverRole : n.server.vitals.clientRole = false
  phase : n.PhaseInv args A D

variable {args : MqttConnectArgs} {A D : Nat} {n n' : Link}

/-- The phase says nothing about the rest of the streams and of the frames. -/
theorem PhaseInv.congr (h : n.PhaseInv args A D) (hphase : n'.phase = n.phase) (hnow : n'.now = n.now)
    (hlooked : n'.lookedAt = n.lookedAt)
    (htimer : n'.client.vitals.keepAliveTimer = n.client.vitals.keepAliveTimer)
    (hresponded : n'.client.vitals.keepAliveResponded = n.client.vitals.keepAliveResponded)
    (hkeep : n'.server.vitals.keepAlive = n.server.vitals.keepAlive)
    (hserver : n'.server.vitals.keepAliveTimer = n.server.vitals.keepAliveTimer)
    (htoServer : signals n'.toServer = signals n.toServer) (htoClient : signals n'.toClient = signals n.toClient) :
    n'.PhaseInv args A D := by
  unfold PhaseInv at h ⊢
  rw [hphase]
  cases hp : n.phase with
  | connecting =>
    rw [hp] at h
    obtain ⟨⟨ht, hr⟩, hs, hc, hsent⟩ := h
    rw [hserver, htoServer, htoClient]
    exact ⟨⟨htimer.trans ht, hresponded.trans hr⟩, hs, hc, hsent⟩
  | connected t =>
    rw [hp] at h
    obtain ⟨⟨ht, hr⟩, ⟨hk, hs⟩, hsent, hle, hc⟩ := h
    simp only [hnow, htoServer, htoClient]
    exact ⟨⟨htimer.trans ht, hresponded.trans hr⟩, ⟨hkeep.trans hk, hserver.trans hs⟩, hsent, hle, hc⟩
  | granted t =>
    rw [hp] at h
    obtain ⟨⟨ht, hr⟩, ⟨hk, hs⟩, hsent, hle, hc⟩ := h
    simp only [hnow, htoServer, htoClient]
    exact ⟨⟨htimer.trans ht, hresponded.trans hr⟩, ⟨hkeep.trans hk, hserver.trans hs⟩, hsent, hle, hc⟩
  | accepted =>
    rw [hp] at h
    obtain ⟨h, b, i⟩ := h
    exact ⟨h, ⟨hnow.trans b.now, ⟨hkeep.trans b.fedAt.keepAlive, hserver.trans b.fedAt.timer⟩, htimer.trans b.timer,
      hresponded.trans b.responded, hlooked.trans b.lookedAt, htoServer.trans b.toServer, htoClient.trans b.toClient⟩, i⟩

/-- The client may do anything that neither its vitals nor the frames of the connection show, -/
theorem Inv.client (i : n.Inv args A D) {s' : StreamMqtt} (hs : SendsNone n.client s') (ht : s'.Tidy)
    (hv : s'.vitals = { n.client.vitals with status := s'.status }) : (n.actClient s').Inv args A D where
  clientTidy := ht
  serverTidy := i.serverTidy
  clientRole := by
    show s'.vitals.clientRole = true
    rw [hv]
    exact i.clientRole
  clientKeepAlive := by
    show s'.vitals.keepAlive = _
    rw [hv]
    exact i.clientKeepAlive
  serverRole := i.serverRole
  phase := by
    refine i.phase.congr rfl rfl rfl ?_ ?_ rfl rfl ?_ rfl
    · show s'.vitals.keepAliveTimer = _
      rw [hv]
    · show s'.vitals.keepAliveResponded = _
      rw [hv]
    · simp [actClient, hs.signals]

/-- and so may the server. -/
theorem Inv.server (i : n.Inv args A D) {s' : StreamMqtt} (hs : SendsNone n.server s') (ht : s'.Tidy)
    (hv : s'.vitals = { n.server.vitals with status := s'.status }) : (n.actServer s').Inv args A D where
  clientTidy := i.clientTidy
  serverTidy := ht
  clientRole := i.clientRole
  clientKeepAlive := i.clientKeepAlive
  serverRole := by
    show s'.vitals.clientRole = false
    rw [hv]
    exact i.serverRole
  phase := by
    refine i.phase.congr rfl rfl rfl rfl rfl ?_ ?_ rfl ?_
    · show s'.vitals.keepAlive = _
      rw [hv]
    · show s'.vitals.keepAliveTimer = _
      rw [hv]
    · simp [actServer, hs.signals]

/-- A frame that is none of the connection leaves the channel unnoticed. -/
theorem Inv.toServer (i : n.Inv args A D) {m : Sent} {rest : List Sent} (h : n.toServer = m :: rest)
    (hm : m.frame.isSignal = false) : { n with toServer := rest }.Inv args A D := by
  refine ⟨i.clientTidy, i.serverTidy, i.clientRole, i.clientKeepAlive, i.serverRole, ?_⟩
  refine i.phase.congr rfl rfl rfl rfl rfl rfl rfl ?_ rfl
  simp [h, signals, hm]

theorem Inv.toClient (i : n.Inv args A D) {m : Sent} {rest : List Sent} (h : n.toClient = m :: rest)
    (hm : m.frame.isSignal = false) : { n with toClient := rest }.Inv args A D := by
  refine ⟨i.clientTidy, i.serverTidy, i.clientRole, i.clientKeepAlive, i.serverRole, ?_⟩
  refine i.phase.congr rfl rfl rfl rfl rfl rfl rfl rfl ?_
  simp [h, signals, hm]

/-! ## Time -/

theorem Inv.wait (hp : (heartbeat args.keepAlive.toNat A D).Sound) (i : n.Inv args A D) {d : Nat}
    (htimely : n.Timely A D (n.now + d)) :
    { n with now := n.now + d }.Inv args A D := by
  refine ⟨i.clientTidy, i.serverTidy, i.clientRole, i.clientKeepAlive, i.serverRole, ?_⟩
  have h := i.phase
  unfold PhaseInv at h ⊢
  unfold Timely at htimely
  cases hphase : n.phase with
  | connecting =>
    simp only [hphase] at h ⊢
    obtain ⟨hw, hs, hc, hsent⟩ := h
    exact ⟨⟨hw.timer, hw.responded⟩, hs, hc, hsent⟩
  | connected t =>
    simp only [hphase] at h htimely ⊢
    obtain ⟨hw, hf, hs, -, hc⟩ := h
    exact ⟨⟨hw.timer, hw.responded⟩, ⟨hf.keepAlive, hf.timer⟩, hs, htimely, hc⟩
  | granted t =>
    simp only [hphase] at h htimely ⊢
    obtain ⟨hw, hf, hs, -, hc⟩ := h
    exact ⟨⟨hw.timer, hw.responded⟩, ⟨hf.keepAlive, hf.timer⟩, hs, htimely, hc⟩
  | accepted =>
    simp only [hphase] at h htimely ⊢
    obtain ⟨h, b, i⟩ := h
    obtain ⟨hlooked, hsent⟩ := htimely
    -- behind the acceptance the time that passes is that of the heartbeat
    have hstep : Heartbeat.Step (heartbeat args.keepAlive.toNat A D) h { h with now := h.now + d } := by
      apply Heartbeat.Step.wait
      · intro t ht
        rw [← b.now]
        have hin : ∀ {l : List Sent} {ts : List Int} {f : Frame}, signals l = ts.map (⟨f, ·⟩) → t ∈ ts →
            ∃ m ∈ l, m.frame.isSignal = true ∧ m.time = t := by
          intro l ts f hl ht
          have hm : Sent.mk f t ∈ signals l := by
            rw [hl]
            exact List.mem_map_of_mem ht
          exact ⟨_, (List.mem_filter.1 hm).1, (List.mem_filter.1 hm).2, rfl⟩
        rcases List.mem_append.1 ht with ht | ht
        · obtain ⟨m, hm, hsignal, rfl⟩ := hin b.toServer ht
          exact hsent m (List.mem_append_left _ hm) hsignal
        · obtain ⟨m, hm, hsignal, rfl⟩ := hin b.toClient ht
          exact hsent m (List.mem_append_right _ hm) hsignal
      · rw [← b.now, ← b.lookedAt]
        exact hlooked
    have hnow : n.now + d = h.now + d := by rw [b.now]
    exact ⟨{ h with now := h.now + d }, ⟨hnow, ⟨b.fedAt.keepAlive, b.fedAt.timer⟩, b.timer, b.responded, b.lookedAt,
      b.toServer, b.toClient⟩, Heartbeat.inv_step hp i hstep⟩

/-- A look at a timer that has not expired. -/
theorem doTime_unexpired (env : Env) {s : StreamMqtt} (h : timerExpired env.clock s.keepAliveTimer = false) (ht : s.Tidy) :
    SendsNone s (streamMqttDoTime env s).2 ∧ (streamMqttDoTime env s).2.Tidy ∧
      (streamMqttDoTime env s).2.vitals = s.vitals := by
  have hsame := keepAliveTime_of_not_expired env s h
  have hv := vitals_doTime env s
  have hs := doTime_sendsNone env (s := s) (by rw [hsame]; exact ht)
  rw [hsame] at hs hv
  exact ⟨hs.1, hs.2, hv⟩

/-- A look at a timer that has expired, if the last ping was answered. -/
theorem doTime_expired (env : Env) {s : StreamMqtt} (h : timerExpired env.clock s.keepAliveTimer = true)
    (hrole : s.clientRole = true) (hresponded : s.keepAliveResponded = true) (ht : s.Tidy) (now : Int) :
    signals (sentSince s (streamMqttDoTime env s).2 now) = [⟨pingreqFrame, now⟩] ∧ (streamMqttDoTime env s).2.Tidy ∧
      (streamMqttDoTime env s).2.vitals = { s.vitals with
        keepAliveResponded := false, keepAliveTimer := timerRestart env.clock s.keepAliveTimer } := by
  have hping := keepAliveTime_of_responded env s h hrole hresponded
  have hv := vitals_doTime env s
  obtain ⟨hs, htidy⟩ := doTime_sendsNone env (s := s) (by rw [hping]; exact ht)
  rw [hping] at hs hv
  have hproper : pingreqFrame.Proper := ⟨by decide, by decide, by decide⟩
  have hsend : Sends [pingreqFrame] s { s.write none (mqttFormatFrame MqttPacketType.pingreq.toByte 0 []) with
      keepAliveResponded := false, keepAliveTimer := timerRestart env.clock s.keepAliveTimer } :=
    ⟨⟨[_], rfl, rfl⟩, by simpa using hproper⟩
  exact ⟨signals_one hsend rfl hs now, htidy, hv⟩

/-- Before it is accepted the client has not started its timer, -/
theorem Inv.waiting (i : n.Inv args A D) (hne : n.phase ≠ .accepted) : n.Waiting := by
  have hphase := i.phase
  unfold PhaseInv at hphase
  cases hcase : n.phase with
  | connecting | connected t | granted t =>
    simp only [hcase] at hphase
    exact hphase.1
  | accepted => exact absurd hcase hne

/-- so a look at it changes nothing. -/
theorem Inv.clientTime_waiting (i : n.Inv args A D) (env : Env) (hne : n.phase ≠ .accepted) :
    { n.actClient (streamMqttDoTime (n.env env) n.client).2 with lookedAt := n.now }.Inv args A D ∧
      (streamMqttDoTime (n.env env) n.client).2.status = n.client.status := by
  have ht : n.client.keepAliveTimer = timerStop := (i.waiting hne).timer
  obtain ⟨hs, htidy, hv⟩ := doTime_unexpired (n.env env) (by rw [ht]; rfl) i.clientTidy
  have hstatus : (streamMqttDoTime (n.env env) n.client).2.status = n.client.status := congrArg Vitals.status hv
  have j := i.client hs htidy (by rw [hv, hstatus]; rfl)
  refine ⟨⟨j.clientTidy, j.serverTidy, j.clientRole, j.clientKeepAlive, j.serverRole, ?_⟩, hstatus⟩
  have h := j.phase
  unfold PhaseInv at h ⊢
  cases hcase : n.phase with
  | accepted => exact absurd hcase hne
  | connecting =>
    simp only [actClient, hcase] at h ⊢
    obtain ⟨hw, hs, hc, hsent⟩ := h
    exact ⟨⟨hw.timer, hw.responded⟩, hs, hc, hsent⟩
  | connected t | granted t =>
    simp only [actClient, hcase] at h ⊢
    obtain ⟨hw, hf, hs, hle, hc⟩ := h
    exact ⟨⟨hw.timer, hw.responded⟩, ⟨hf.keepAlive, hf.timer⟩, hs, hle, hc⟩

section Beating

variable (hp : (heartbeat args.keepAlive.toNat A D).Sound) (i : n.Inv args A D) (env : Env) (hcase : n.phase = .accepted)
  {h : Heartbeat.State} (b : n.Beats args.keepAlive.toNat h) (hi : Heartbeat.Inv (heartbeat args.keepAlive.toNat A D) h)

/-- The timer of the client expires when the next ping is due. -/
theorem Beats.expired (hp : (heartbeat args.keepAlive.toNat A D).Sound) (b : n.Beats args.keepAlive.toNat h) (env : Env) :
    timerExpired (n.env env).clock n.client.keepAliveTimer = decide (h.beatAt + args.keepAlive.toNat ≤ h.now) := by
  have hk : (0 : Int) < args.keepAlive.toNat := by
    have hanswer := hp.answer
    have hdelay := hp.delay
    simp only [heartbeat] at hanswer hdelay
    omega
  rw [show n.client.keepAliveTimer = _ from b.timer, timerExpired_sec hk]
  simp only [Link.env, b.now]

include hp i hcase b hi

/-- A look at the timer when the next ping is due, -/
theorem Inv.clientTime_due (hdue : h.beatAt + args.keepAlive.toNat ≤ h.now) :
    { n.actClient (streamMqttDoTime (n.env env) n.client).2 with lookedAt := n.now }.Inv args A D ∧
      (streamMqttDoTime (n.env env) n.client).2.status = n.client.status := by
  have hanswered := hi.answered_of_due hp hdue
  obtain ⟨hs, htidy, hv⟩ := doTime_expired (n.env env) (by rw [b.expired hp]; simpa using hdue) i.clientRole
    (b.responded.trans hanswered) i.clientTidy n.now
  have htimer : timerRestart (n.env env).clock n.client.keepAliveTimer =
      ⟨h.now, args.keepAlive.toNat, timerSec⟩ := by
    rw [show n.client.keepAliveTimer = _ from b.timer, timerRestart_sec]
    simp only [Link.env, b.now]
  refine ⟨⟨htidy, i.serverTidy, ?_, ?_, i.serverRole, ?_⟩, congrArg Vitals.status hv⟩
  · exact (congrArg Vitals.clientRole hv).trans i.clientRole
  · exact (congrArg Vitals.keepAlive hv).trans i.clientKeepAlive
  · unfold PhaseInv
    simp only [actClient, hcase]
    refine ⟨_, ?_, Heartbeat.inv_step hp hi (.beat hdue hanswered)⟩
    refine ⟨b.now, ⟨b.fedAt.keepAlive, b.fedAt.timer⟩, ?_, ?_, b.now, ?_, b.toClient⟩
    · exact (congrArg Vitals.keepAliveTimer hv).trans htimer
    · exact congrArg Vitals.keepAliveResponded hv
    · rw [signals_append, b.toServer, hs, b.now, List.map_append]
      rfl

/-- and before it is due. -/
theorem Inv.clientTime_early (hearly : ¬ h.beatAt + args.keepAlive.toNat ≤ h.now) :
    { n.actClient (streamMqttDoTime (n.env env) n.client).2 with lookedAt := n.now }.Inv args A D ∧
      (streamMqttDoTime (n.env env) n.client).2.status = n.client.status := by
  obtain ⟨hs, htidy, hv⟩ := doTime_unexpired (n.env env) (by rw [b.expired hp]; simpa using hearly) i.clientTidy
  refine ⟨⟨htidy, i.serverTidy, ?_, ?_, i.serverRole, ?_⟩, congrArg Vitals.status hv⟩
  · exact (congrArg Vitals.clientRole hv).trans i.clientRole
  · exact (congrArg Vitals.keepAlive hv).trans i.clientKeepAlive
  · unfold PhaseInv
    simp only [actClient, hcase]
    refine ⟨_, ?_, Heartbeat.inv_step hp hi (.check (not_le.1 hearly))⟩
    refine ⟨b.now, ⟨b.fedAt.keepAlive, b.fedAt.timer⟩, ?_, ?_, b.now, ?_, b.toClient⟩
    · exact (congrArg Vitals.keepAliveTimer hv).trans b.timer
    · exact (congrArg Vitals.keepAliveResponded hv).trans b.responded
    · simp [b.toServer, hs.signals]

end Beating

theorem Inv.clientTime (hp : (heartbeat args.keepAlive.toNat A D).Sound) (i : n.Inv args A D) (env : Env) :
    { n.actClient (streamMqttDoTime (n.env env) n.client).2 with lookedAt := n.now }.Inv args A D ∧
      (streamMqttDoTime (n.env env) n.client).2.status = n.client.status := by
  by_cases hcase : n.phase = .accepted
  · have hphase := i.phase
    unfold PhaseInv at hphase
    simp only [hcase] at hphase
    obtain ⟨h, b, hi⟩ := hphase
    by_cases hdue : h.beatAt + args.keepAlive.toNat ≤ h.now
    · exact i.clientTime_due hp env hcase b hi hdue
    · exact i.clientTime_early hp env hcase b hi hdue
  · exact i.clientTime_waiting env hcase

theorem Inv.serverTime (hp : (heartbeat args.keepAlive.toNat A D).Sound) (i : n.Inv args A D) (env : Env) :
    (n.actServer (streamMqttDoTime (n.env env) n.server).2).Inv args A D ∧
      (streamMqttDoTime (n.env env) n.server).2.status = n.server.status := by
  have hdelay := hp.delay
  have hlimit := hp.limit
  have hanswer := hp.answer
  simp only [heartbeat] at hdelay hlimit hanswer
  have fed : ∀ t, n.FedAt args.keepAlive.toNat t → n.now < t + (args.keepAlive.toNat + mqttKeepAliveTimeout) →
      timerExpired (n.env env).clock n.server.keepAliveTimer = false := by
    intro t hf hlt
    rw [show n.server.keepAliveTimer = _ from hf.timer, timerExpired_sec (by omega)]
    exact decide_eq_false (not_le.2 hlt)
  -- in every phase the timer has been fed late enough, or is not running yet
  have hexpired : timerExpired (n.env env).clock n.server.keepAliveTimer = false := by
    have hphase := i.phase
    unfold PhaseInv at hphase
    cases hcase : n.phase with
    | connecting =>
      simp only [hcase] at hphase
      rw [show n.server.keepAliveTimer = _ from hphase.2.1]
      rfl
    | connected t =>
      simp only [hcase] at hphase
      obtain ⟨-, hf, -, hle, -⟩ := hphase
      exact fed t hf (by omega)
    | granted t =>
      simp only [hcase] at hphase
      obtain ⟨-, hf, -, hle, -⟩ := hphase
      exact fed t hf (by omega)
    | accepted =>
      simp only [hcase] at hphase
      obtain ⟨h, b, hi⟩ := hphase
      have hbefore := hi.not_expired hp
      rw [← b.now] at hbefore
      exact fed h.fedAt b.fedAt hbefore
  obtain ⟨hs, htidy, hv⟩ := doTime_unexpired (n.env env) hexpired i.serverTidy
  have hstatus : (streamMqttDoTime (n.env env) n.server).2.status = n.server.status := congrArg Vitals.status hv
  exact ⟨i.server hs htidy (by rw [hv, hstatus]; rfl), hstatus⟩

/-! ## The frames of the connection -/

theorem signals_cons {m : Sent} {rest l : List Sent} (h : l = m :: rest) (hm : m.frame.isSignal = true) :
    signals l = m :: signals rest := by
  subst h
  exact List.filter_cons_of_pos hm

theorem isSignal_of_isType {f : Frame} {type : MqttPacketType} (h : f.isType type) : f.isSignal = type.isSignal := by
  unfold Frame.isSignal
  rw [h]
  rfl

/-- Of these frames none but a PINGREQ is answered. -/
theorem handle_unanswered (env : Env) {s : StreamMqtt} {f : Frame} {stale : Mem}
    (h : f.isType .connect ∨ f.isType .connack ∨ f.isType .pingresp) :
    Sends [] s (streamMqttHandleReceivedFrame env s f.header (memOf f.body stale)) := by
  have hQ : Forwards fun e => e.Writes fun _ => False := ⟨fun _ => trivial, fun _ _ _ => trivial⟩
  have quiet : ∀ {s' : StreamMqtt}, Quiet (fun e => e.Writes fun _ => False)
      (s.log (.receive (recorded f.header (memOf f.body stale)))) s' → Sends [] s s' := by
    intro s' q
    obtain ⟨es, ht, hes⟩ := q.trace
    obtain ⟨fs, hw, hfs⟩ := written_frames hes
    obtain rfl : fs = [] := List.eq_nil_iff_forall_not_mem.2 fun f hf => (hfs f hf).2
    exact ⟨⟨.receive (recorded f.header (memOf f.body stale)) :: es, by rw [ht]; simp [StreamMqtt.log], hw⟩, by simp⟩
  unfold streamMqttHandleReceivedFrame
  rcases h with h | h | h <;> rw [show MqttPacketType.ofByte f.header.type = _ from h]
  · exact quiet (quiet_handleConnect env hQ _ _ _)
  · exact quiet (quiet_handleConnack env hQ _ _ _)
  · exact quiet (quiet_handlePingresp _)

theorem handle_pingreq (env : Env) {s : StreamMqtt} {f : Frame} {stale : Mem} (h : f.isType .pingreq) (now : Int) :
    signals (sentSince s (streamMqttHandleReceivedFrame env s f.header (memOf f.body stale)) now) =
      [⟨pingrespFrame, now⟩] := by
  have hproper : pingrespFrame.Proper := ⟨by decide, by decide, by decide⟩
  have hsend : Sends [pingrespFrame] s (streamMqttHandleReceivedFrame env s f.header (memOf f.body stale)) := by
    unfold streamMqttHandleReceivedFrame
    rw [show MqttPacketType.ofByte f.header.type = _ from h]
    refine ⟨⟨[.receive (recorded f.header (memOf f.body stale)),
      .write none (mqttFormatFrame MqttPacketType.pingresp.toByte 0 [])], ?_, rfl⟩, by simpa using hproper⟩
    exact List.append_assoc ..
  exact signals_one hsend rfl (.refl _) now

/-- The status is whatever the handling of the frame makes it. -/
theorem vitals_plain (env : Env) (s : StreamMqtt) {f : Frame} (stale : Mem) (h : f.isSignal = false) :
    (streamMqttHandleReceivedFrame env s f.header (memOf f.body stale)).vitals =
      { s.vitals with status := (streamMqttHandleReceivedFrame env s f.header (memOf f.body stale)).status } := by
  have hv := vitals_handle env s f.header (memOf f.body stale) (by rw [recorded_frame]; exact h)
  have hstatus : (streamMqttHandleReceivedFrame env s f.header (memOf f.body stale)).status = s.status :=
    congrArg Vitals.status hv
  rw [hv, hstatus]
  rfl

/-- A frame of the connection on its way to the server is the CONNECT, or the next ping. -/
theorem Inv.signal_toServer (i : n.Inv args A D) {m : Sent} {rest : List Sent} (hhead : n.toServer = m :: rest)
    (hm : m.frame.isSignal = true) :
    (n.phase = .connecting ∧ n.Waiting ∧ signals n.toClient = [] ∧ signals rest = [] ∧
      ∃ body t, mqttFormatConnect args = some body ∧ m = ⟨⟨MqttPacketType.connect.toByte, 0, body⟩, t⟩) ∨
    ∃ h t ts, n.phase = .accepted ∧ n.Beats args.keepAlive.toNat h ∧
      Heartbeat.Inv (heartbeat args.keepAlive.toNat A D) h ∧ h.beats = t :: ts ∧ m = ⟨pingreqFrame, t⟩ ∧
      signals rest = ts.map (⟨pingreqFrame, ·⟩) := by
  have hsignals := signals_cons hhead hm
  have hphase := i.phase
  unfold PhaseInv at hphase
  cases hcase : n.phase with
  | connecting =>
    simp only [hcase] at hphase
    obtain ⟨hw, -, hnone, body, t, hbody, hsent⟩ := hphase
    rw [hsignals] at hsent
    obtain ⟨rfl, hrest⟩ := List.cons.inj hsent
    exact Or.inl ⟨rfl, hw, hnone, hrest, body, t, hbody, rfl⟩
  | connected t | granted t =>
    simp only [hcase] at hphase
    obtain ⟨-, -, hnone, -⟩ := hphase
    rw [hsignals] at hnone
    cases hnone
  | accepted =>
    simp only [hcase] at hphase
    obtain ⟨h, b, hi⟩ := hphase
    have hbeats := b.toServer
    rw [hsignals] at hbeats
    obtain ⟨t, ts, hbeat, rfl, hrest⟩ := List.map_eq_cons_iff.1 hbeats.symm
    exact Or.inr ⟨h, t, ts, rfl, b, hi, hbeat, rfl, hrest.symm⟩

/-- A frame of the connection on its way to the client is the CONNACK, or the answer to a ping. -/
theorem Inv.signal_toClient (i : n.Inv args A D) {m : Sent} {rest : List Sent} (hhead : n.toClient = m :: rest)
    (hm : m.frame.isSignal = true) :
    (∃ t, n.phase = .granted t ∧ n.Waiting ∧ n.FedAt args.keepAlive.toNat t ∧ signals n.toServer = [] ∧
      n.now ≤ t + A ∧ signals rest = [] ∧ ∃ sessionPresent t', m = ⟨connackFrame sessionPresent, t'⟩) ∨
    ∃ h t ts, n.phase = .accepted ∧ n.Beats args.keepAlive.toNat h ∧
      Heartbeat.Inv (heartbeat args.keepAlive.toNat A D) h ∧ h.answers = t :: ts ∧ m = ⟨pingrespFrame, t⟩ ∧
      signals rest = ts.map (⟨pingrespFrame, ·⟩) := by
  have hsignals := signals_cons hhead hm
  have hphase := i.phase
  unfold PhaseInv at hphase
  cases hcase : n.phase with
  | connecting =>
    simp only [hcase] at hphase
    obtain ⟨-, -, hnone, -⟩ := hphase
    rw [hsignals] at hnone
    cases hnone
  | connected t =>
    simp only [hcase] at hphase
    obtain ⟨-, -, -, -, hnone⟩ := hphase
    rw [hsignals] at hnone
    cases hnone
  | granted t =>
    simp only [hcase] at hphase
    obtain ⟨hw, hf, hnone, hle, sessionPresent, t', hsent⟩ := hphase
    rw [hsignals] at hsent
    obtain ⟨rfl, hrest⟩ := List.cons.inj hsent
    exact Or.inl ⟨t, rfl, hw, hf, hnone, hle, hrest, sessionPresent, t', rfl⟩
  | accepted =>
    simp only [hcase] at hphase
    obtain ⟨h, b, hi⟩ := hphase
    have hanswers := b.toClient
    rw [hsignals] at hanswers
    obtain ⟨t, ts, hanswer, rfl, hrest⟩ := List.map_eq_cons_iff.1 hanswers.symm
    exact Or.inr ⟨h, t, ts, rfl, b, hi, hanswer, rfl, hrest.symm⟩

theorem Inv.serverReceive (hp : (heartbeat args.keepAlive.toNat A D).Sound) (i : n.Inv args A D) (env : Env)
    (stale : Mem) {m : Sent} {rest : List Sent} (hhead : n.toServer = m :: rest) (hc : ¬ m.frame.isType .connect) :
    ({ n with toServer := rest }.actServer (n.handle env n.server m.frame stale)).Inv args A D := by
  have htidy := handle_tidy (n.env env) m.frame.header (memOf m.frame.body stale) i.serverTidy
  cases hm : m.frame.isSignal with
  | false =>
    refine (i.toServer hhead hm).server ?_ htidy (vitals_plain (n.env env) n.server stale hm)
    exact handle_sendsNone (n.env env) (by rw [recorded_frame]; exact hm)
  | true =>
    rcases i.signal_toServer hhead hm with ⟨-, -, -, -, body, t, -, rfl⟩ | ⟨h, t, ts, hcase, b, hi, hbeat, rfl, hrest⟩
    · exact absurd rfl hc
    · have hv := @vitals_handle_pingreq (n.env env) n.server pingreqFrame.header
        (memOf pingreqFrame.body stale) rfl
      have hsent := @handle_pingreq (n.env env) n.server pingreqFrame stale rfl n.now
      refine ⟨i.clientTidy, htidy, i.clientRole, i.clientKeepAlive, ?_, ?_⟩
      · exact (congrArg Vitals.clientRole hv).trans i.serverRole
      · unfold PhaseInv
        simp only [actServer, hcase]
        refine ⟨_, ?_, Heartbeat.inv_step hp hi (.feed hbeat)⟩
        have hkeep : n.server.keepAlive = args.keepAlive.toNat + mqttKeepAliveTimeout := b.fedAt.keepAlive
        refine ⟨b.now, ⟨?_, ?_⟩, b.timer, b.responded, b.lookedAt, hrest, ?_⟩
        · exact (congrArg Vitals.keepAlive hv).trans b.fedAt.keepAlive
        · refine (congrArg Vitals.keepAliveTimer hv).trans ?_
          rw [timerStart_sec, hkeep]
          simp only [Link.env, b.now]
          push_cast
          rfl
        · rw [signals_append, b.toClient, Link.handle, hsent, b.now, List.map_append]
          rfl

theorem Inv.connect (i : n.Inv args A D) (w : args.WellFormed) (hid : args.clientId.isSome = true)
    (hk : 0 < args.keepAlive) (env : Env) (stale : Mem) {m : Sent} {rest : List Sent} (hhead : n.toServer = m :: rest)
    (hc : m.frame.isType .connect) :
    { { n with toServer := rest }.actServer (n.handle env n.server m.frame stale) with
      phase := .connected n.now }.Inv args A D := by
  have htidy := handle_tidy (n.env env) m.frame.header (memOf m.frame.body stale) i.serverTidy
  rcases i.signal_toServer hhead (isSignal_of_isType hc) with
    ⟨-, hw, hnone, hrest, body, t, hbody, rfl⟩ | ⟨h, t, ts, -, -, -, -, rfl, -⟩
  · obtain ⟨clientId, hclient⟩ := Option.isSome_iff_exists.1 hid
    have hkeep := connectKeepAlive_eq w hclient hbody (n.env env)
      (Frame.mk MqttPacketType.connect.toByte 0 body).header stale
    have hv := @vitals_handle_connect (n.env env) n.server (Frame.mk MqttPacketType.connect.toByte 0 body).header
      (memOf body stale) rfl
    rw [hkeep, if_pos hk] at hv
    have hs := @handle_unanswered (n.env env) n.server (Frame.mk MqttPacketType.connect.toByte 0 body) stale (.inl rfl)
    rw [Link.handle]
    -- only what is known of the stream behind the frame counts, not how it is computed
    generalize streamMqttHandleReceivedFrame (n.env env) n.server _ (memOf body stale) = server at htidy hv hs ⊢
    refine ⟨i.clientTidy, htidy, i.clientRole, i.clientKeepAlive, ?_, ?_⟩
    · exact (congrArg Vitals.clientRole hv).trans i.serverRole
    · unfold PhaseInv
      refine ⟨⟨hw.timer, hw.responded⟩, ⟨?_, ?_⟩, hrest, ?_, ?_⟩
      · exact congrArg Vitals.keepAlive hv
      · refine (congrArg Vitals.keepAliveTimer hv).trans ?_
        simp only [timerStart_sec]
        push_cast
        rfl
      · simp only [actServer]
        omega
      · simp only [actServer]
        rw [signals_append, hnone, hs.none.signals]
        rfl
  · cases hc

theorem Inv.clientReceive (hp : (heartbeat args.keepAlive.toNat A D).Sound) (i : n.Inv args A D) (env : Env)
    (stale : Mem) {m : Sent} {rest : List Sent} (hhead : n.toClient = m :: rest) (hc : ¬ m.frame.isType .connack) :
    ({ n with toClient := rest }.actClient (n.handle env n.client m.frame stale)).Inv args A D := by
  have htidy := handle_tidy (n.env env) m.frame.header (memOf m.frame.body stale) i.clientTidy
  cases hm : m.frame.isSignal with
  | false =>
    refine (i.toClient hhead hm).client ?_ htidy (vitals_plain (n.env env) n.client stale hm)
    exact handle_sendsNone (n.env env) (by rw [recorded_frame]; exact hm)
  | true =>
    rcases i.signal_toClient hhead hm with
      ⟨t, -, -, -, -, -, -, sessionPresent, t', rfl⟩ | ⟨h, t, ts, hcase, b, hi, hanswer, rfl, hrest⟩
    · exact absurd rfl hc
    · have hv := @vitals_handle_pingresp (n.env env) n.client pingrespFrame.header
        (memOf pingrespFrame.body stale) rfl
      have hs := @handle_unanswered (n.env env) n.client pingrespFrame stale (.inr (.inr rfl))
      refine ⟨htidy, i.serverTidy, ?_, ?_, i.serverRole, ?_⟩
      · exact (congrArg Vitals.clientRole hv).trans i.clientRole
      · exact (congrArg Vitals.keepAlive hv).trans i.clientKeepAlive
      · unfold PhaseInv
        simp only [actClient, hcase]
        refine ⟨_, ?_, Heartbeat.inv_step hp hi (.answer hanswer)⟩
        refine ⟨b.now, ⟨b.fedAt.keepAlive, b.fedAt.timer⟩, ?_, ?_, b.lookedAt, ?_, hrest⟩
        · exact (congrArg Vitals.keepAliveTimer hv).trans b.timer
        · exact congrArg Vitals.keepAliveResponded hv
        · simp only [Link.handle]
          rw [signals_append, b.toServer, hs.none.signals, List.append_nil]

/-- The return code that the server has put into its CONNACK. -/
theorem connackReturnCode_eq (sessionPresent : Bool) (stale : Mem) :
    connackReturnCode (connackFrame sessionPresent).header (memOf (connackFrame sessionPresent).body stale) =
      mqttConnackAccepted := rfl

theorem Inv.accept (hp : (heartbeat args.keepAlive.toNat A D).Sound) (i : n.Inv args A D) (env : Env) (stale : Mem)
    {m : Sent} {rest : List Sent} (hhead : n.toClient = m :: rest) (hc : m.frame.isType .connack) :
    { { n with toClient := rest }.actClient (n.handle env n.client m.frame stale) with
      phase := .accepted, lookedAt := n.now }.Inv args A D := by
  have htidy := handle_tidy (n.env env) m.frame.header (memOf m.frame.body stale) i.clientTidy
  rcases i.signal_toClient hhead (isSignal_of_isType hc) with
    ⟨t, -, hw, hf, hnone, hle, hrest, sessionPresent, t', rfl⟩ | ⟨h, t, ts, -, -, -, -, rfl, -⟩
  · have hkeep : n.client.keepAlive = args.keepAlive.toNat := i.clientKeepAlive
    have hpos : n.client.keepAlive > 0 := by
      have hanswer := hp.answer
      have hdelay := hp.delay
      simp only [heartbeat] at hanswer hdelay
      omega
    have hv := @vitals_handle_connack (n.env env) n.client (connackFrame sessionPresent).header
      (memOf (connackFrame sessionPresent).body stale) rfl
    rw [if_pos ⟨connackReturnCode_eq sessionPresent stale, hpos⟩] at hv
    have hs := @handle_unanswered (n.env env) n.client (connackFrame sessionPresent) stale (.inr (.inl rfl))
    refine ⟨htidy, i.serverTidy, ?_, ?_, i.serverRole, ?_⟩
    · exact (congrArg Vitals.clientRole hv).trans i.clientRole
    · exact (congrArg Vitals.keepAlive hv).trans i.clientKeepAlive
    · unfold PhaseInv
      have hstart : Heartbeat.Start (heartbeat args.keepAlive.toNat A D) ⟨n.now, t, n.now, n.now, true, [], []⟩ :=
        ⟨rfl, rfl, hle, rfl, rfl, rfl⟩
      refine ⟨_, ?_, Heartbeat.inv_start hp hstart⟩
      refine ⟨rfl, ⟨hf.keepAlive, hf.timer⟩, ?_, ?_, rfl, ?_, hrest⟩
      · refine (congrArg Vitals.keepAliveTimer hv).trans ?_
        rw [timerStart_sec, hkeep]
        rfl
      · exact (congrArg Vitals.keepAliveResponded hv).trans hw.responded
      · simp only [actClient, Link.handle]
        rw [signals_append, hnone, hs.none.signals]
        rfl
  · cases hc

theorem connack_sends (env : Env) (s : StreamMqtt) (sessionPresent : Bool) :
    Sends [connackFrame sessionPresent] s (streamMqttConnack env s sessionPresent mqttConnackAccepted).2 := by
  have hproper : (connackFrame sessionPresent).Proper := ⟨by show (2 : UInt8) < 16; decide, by show (0 : UInt8) < 16; decide,
    by show 2 ≤ mqttMaxBodyLength; decide⟩
  exact ⟨⟨[_], rfl, rfl⟩, by simpa using hproper⟩

theorem Inv.connack (i : n.Inv args A D) (env : Env) (sessionPresent : Bool) {t : Int} (hphase : n.phase = .connected t) :
    { n.actServer (streamMqttConnack (n.env env) n.server sessionPresent mqttConnackAccepted).2 with
      phase := .granted t }.Inv args A D := by
  have hsend := connack_sends (n.env env) n.server sessionPresent
  have hsent := signals_one hsend rfl (.refl _) n.now
  have h := i.phase
  unfold PhaseInv at h
  simp only [hphase] at h
  obtain ⟨hw, hf, hs, hle, hnone⟩ := h
  refine ⟨i.clientTidy, i.serverTidy, i.clientRole, i.clientKeepAlive, i.serverRole, ?_⟩
  unfold PhaseInv
  refine ⟨⟨hw.timer, hw.responded⟩, ⟨hf.keepAlive, hf.timer⟩, hs, hle, sessionPresent, n.now, ?_⟩
  simp only [actServer]
  rw [signals_append, hnone, hsent]
  rfl

/-! ## Runs -/

/-- The client has put its CONNECT on the wire. -/
theorem start_sends (w : args.WellFormed) (hcall : (Call.connect args).WellFormed) (hid : args.clientId.isSome = true)
    (now : Int) (client server : Option Handler) (env : Env) :
    ∃ body, mqttFormatConnect args = some body ∧
      (start now client server env args).toServer = [⟨⟨MqttPacketType.connect.toByte, 0, body⟩, now⟩] ∧
      (start now client server env args).client.vitals = ⟨true, args.keepAlive.toNat, true, timerStop, .init⟩ ∧
      (start now client server env args).client.outgoing = [] := by
  obtain ⟨clientId, hclient⟩ := Option.isSome_iff_exists.1 hid
  obtain ⟨body, hbody⟩ : ∃ body, mqttFormatConnect args = some body := by
    rw [mqttFormatConnect_eq w, hclient]
    exact ⟨_, rfl⟩
  obtain ⟨hlen, hle⟩ := hcall body hbody
  have hproper : (Frame.mk MqttPacketType.connect.toByte 0 body).Proper := ⟨by show (1 : UInt8) < 16; decide,
    by show (0 : UInt8) < 16; decide, hle⟩
  have hstep : step (new now client server).client ((new now client server).env env) (.connect args) =
      ({ (new now client server).client with clientRole := true, keepAlive := args.keepAlive.toNat }).write none
        (Frame.mk MqttPacketType.connect.toByte 0 body).format := by
    simp only [Mqtt.step, streamMqttConnect, hbody]
    rw [← format_eval hlen]
    rfl
  have hsend : Sends [Frame.mk MqttPacketType.connect.toByte 0 body] (new now client server).client
      (step (new now client server).client ((new now client server).env env) (.connect args)) := by
    rw [hstep]
    exact ⟨⟨[_], rfl, rfl⟩, by simpa using hproper⟩
  refine ⟨body, hbody, ?_, ?_, ?_⟩
  · show [] ++ sentSince _ _ now = _
    rw [sentSince_eq hsend]
    rfl
  · show (step _ _ _).vitals = _
    rw [hstep]
    rfl
  · show (step _ _ _).outgoing = _
    rw [hstep]
    rfl

theorem inv_start (w : args.WellFormed) (hcall : (Call.connect args).WellFormed) (hid : args.clientId.isSome = true)
    (now : Int) (client server : Option Handler) (env : Env) : (start now client server env args).Inv args A D := by
  obtain ⟨body, hbody, hsent, hv, hnone⟩ := start_sends w hcall hid now client server env
  refine ⟨?_, ?_, congrArg Vitals.clientRole hv, congrArg Vitals.keepAlive hv, rfl, ?_⟩
  · unfold StreamMqtt.Tidy
    rw [hnone]
    simp
  · intro item hm
    cases hm
  · refine ⟨⟨congrArg Vitals.keepAliveTimer hv, congrArg Vitals.keepAliveResponded hv⟩, rfl, rfl, body, now, hbody, ?_⟩
    rw [hsent]
    rfl

theorem inv_step (w : args.WellFormed) (hid : args.clientId.isSome = true)
    (hp : (heartbeat args.keepAlive.toNat A D).Sound) (i : n.Inv args A D) (h : Step A D n n') : n'.Inv args A D := by
  have hk : 0 < args.keepAlive := by
    have hanswer := hp.answer
    have hdelay := hp.delay
    simp only [heartbeat] at hanswer hdelay
    rw [UInt16.lt_iff_toNat_lt]
    show 0 < args.keepAlive.toNat
    omega
  cases h with
  | wait d htimely => exact i.wait hp htimely
  | clientCall env hc =>
    obtain ⟨hs, ht⟩ := steady_sendsNone (n.env env) hc i.clientTidy
    exact i.client hs ht (vitals_steady _ _ hc)
  | serverCall env hc =>
    obtain ⟨hs, ht⟩ := steady_sendsNone (n.env env) hc i.serverTidy
    exact i.server hs ht (vitals_steady _ _ hc)
  | clientTime env => exact (i.clientTime hp env).1
  | serverTime env => exact (i.serverTime hp env).1
  | connack env sessionPresent hphase => exact i.connack env sessionPresent hphase
  | serverReceive env stale hhead hc => exact i.serverReceive hp env stale hhead hc
  | connect env stale hhead hc => exact i.connect w hid hk env stale hhead hc
  | clientReceive env stale hhead hc => exact i.clientReceive hp env stale hhead hc
  | accept env stale hhead hc => exact i.accept hp env stale hhead hc

end Link

/-- On a connection whose frames and calls are on time, `stream_mqtt_do_time` sets no status. -/
theorem doTime_neverCloses {args : MqttConnectArgs} {A D : Nat} (w : args.WellFormed)
    (hcall : (Call.connect args).WellFormed) (hid : args.clientId.isSome = true) (hlag : A + D < 14)
    (hdelay : 2 * D < args.keepAlive.toNat) (now : Int) (client server : Option Handler) (env : Env) {n : Link}
    (hrun : Relation.ReflTransGen (Link.Step A D) (.start now client server env args) n) (env' : Env) :
    (streamMqttDoTime (n.env env') n.client).2.status = n.client.status ∧
      (streamMqttDoTime (n.env env') n.server).2.status = n.server.status := by
  have hp := heartbeat_sound hlag hdelay
  have i : n.Inv args A D := by
    induction hrun with
    | refl => exact Link.inv_start w hcall hid now client server env
    | tail _ hstep ih => exact Link.inv_step w hid hp ih hstep
  exact ⟨(i.clientTime hp env').2, (i.serverTime hp env').2⟩

/-- A connection with a ping every 3 seconds is set up, and comes to its second ping. -/
def pingTurns : List Link.Turn :=
  [.wait 2, .serverReceive, .wait 2, .connack, .wait 1, .clientReceive, .wait 1, .clientTime, .wait 1, .clientTime,
    .wait 1, .clientTime, .wait 1, .clientTime, .serverReceive, .serverTime, .wait 1, .clientReceive, .clientTime,
    .wait 1, .clientTime, .serverTime]

theorem doTime_neverCloses_ping :
    let args : MqttConnectArgs := { plainConnect with keepAlive := 3 }
    ∃ n : Link, Relation.ReflTransGen (Link.Step 5 1) (.start 100 none none (.at 100) args) n ∧
      (n.now = 111 ∧ received n.server.trace = [⟨1, 0, (mqttFormatConnect args).getD []⟩, pingreqFrame] ∧
        received n.client.trace = [connackFrame false, pingrespFrame] ∧ n.toServer.map (·.time) = [111]) ∧
      (streamMqttDoTime (n.env (.at 0)) n.client).2.status = n.client.status ∧
      (streamMqttDoTime (n.env (.at 0)) n.server).2.status = n.server.status := by
  intro args
  have w : args.WellFormed := { plainConnect_wellFormed with }
  have hcall : (Call.connect args).WellFormed := by
    rintro body ⟨⟩
    exact ⟨rfl, by decide⟩
  have hany : (pingTurns.foldlM (Link.turn 5 1) (.start 100 none none (.at 100) args)).any (fun n => decide
      (n.now = 111 ∧ received n.server.trace = [⟨1, 0, (mqttFormatConnect args).getD []⟩, pingreqFrame] ∧
        received n.client.trace = [connackFrame false, pingrespFrame] ∧ n.toServer.map (·.time) = [111])) = true := by
    decide +kernel
  obtain ⟨n, hn, hstate⟩ := (Option.any_eq_true _ _).1 hany
  have hrun := Link.turns_run pingTurns hn
  exact ⟨n, hrun, of_decide_eq_true hstate,
    doTime_neverCloses w hcall rfl (by decide) (by decide) 100 none none (.at 100) hrun (.at 0)⟩

end CMx.Mqtt
