/-
Laws of sending: the send window and the order of first transmissions, how often a message is
transmitted before it is abandoned, and how often a QoS 0 message is transmitted. Each is read off
the stop-and-wait queue that every run of a stream drives.
-/
import CMx.StreamMqtt.Window

namespace CMx.Mqtt

/-! ## Transmissions -/

/-- The messages whose frames are written, in order. -/
def transmitted (es : List Event) : List Nat :=
  es.filterMap fun
    | .write (some ticket) _ => some ticket.tag
    | _ => none

/-- Those that are no PUBREL: the messages of the application. -/
def transmittedMessages (es : List Event) : List Nat :=
  es.filterMap fun
    | .write (some ticket) _ => if ticket.type = .pubrel then none else some ticket.tag
    | _ => none

theorem sentTags_queueEvent (es : List Event) :
    ResendQueue.sentTags (es.filterMap Event.queueEvent) = transmitted es := by
  unfold ResendQueue.sentTags transmitted
  rw [List.filterMap_filterMap]
  congr 1
  funext e
  rcases e with ⟨_ | ticket, data⟩ | _ | _ | _ | _ | tag <;> rfl

theorem ordinaryTags_queueEvent (es : List Event) :
    ResendQueue.ordinaryTags (es.filterMap Event.queueEvent) = transmittedMessages es := by
  unfold ResendQueue.ordinaryTags transmittedMessages
  rw [List.filterMap_filterMap]
  congr 1
  funext e
  rcases e with ⟨_ | ticket, data⟩ | _ | _ | _ | _ | tag <;> try rfl
  by_cases h : ticket.type = .pubrel <;> simp [Event.queueEvent, h]

theorem sentCount_sendQueue (s : StreamMqtt) (tag : Nat) :
    (sendQueue s).sentCount tag = (transmitted s.trace).count tag := by
  rw [ResendQueue.State.sentCount, ← sentTags_queueEvent]; rfl

/-! ## The send window -/

/-- Does the application submit a message? -/
def Call.submits : Call → Bool
  | .publish _ _ _ _ _ _ | .subscribe _ _ _ | .unsubscribe _ _ => true
  | _ => false

/-- The messages an application submits along a run, in order. -/
def submissions : StreamMqtt → List (Env × Call) → List Nat
  | _, [] => []
  | s, (env, call) :: calls => (if call.submits then [s.nextTag] else []) ++ submissions (step s env call) calls

theorem submissions_append (acts acts' : List (ResendQueue.Act Key)) (s : ResendQueue.State Key) :
    ResendQueue.submissions mqttResendAttempts s (acts ++ acts') =
      ResendQueue.submissions mqttResendAttempts s acts ++
        ResendQueue.submissions mqttResendAttempts (ResendQueue.run mqttResendAttempts s acts) acts' := by
  induction acts generalizing s with
  | nil => rfl
  | cons a acts ih => simp [ResendQueue.submissions, ih]

theorem submissions_sendQueue : ∀ (calls : List (Env × Call)) (s : StreamMqtt),
    ResendQueue.submissions mqttResendAttempts (sendQueue s) (runActs s calls) = submissions s calls
  | [], s => rfl
  | (env, call) :: calls, s => by
    rw [runActs, submissions_append, ← sendQueue_step, submissions_sendQueue calls, submissions]
    congr 1
    cases call with
    | time =>
      simp only [acts]
      split <;> rfl
    | receive header body =>
      simp only [acts]
      unfold receiveActs
      split <;> rfl
    | _ => rfl

/-- In every state of every run, what waits behind a message that is no PUBREL has never been
transmitted; and the messages of the application are first transmitted in the order in which it
submitted them. -/
theorem sendWindow (calls : List (Env × Call)) :
    (∀ front item behind, (run streamMqttInit calls).outgoing = front ++ item :: behind → item.type ≠ .pubrel →
      ∀ later ∈ behind, later.tag ∉ transmitted (run streamMqttInit calls).trace) ∧
    (ResendQueue.firsts (transmittedMessages (run streamMqttInit calls).trace)).Sublist
      (submissions streamMqttInit calls) := by
  refine ⟨fun front item behind ho ht later hm => ?_, ?_⟩
  · have hw := (window_reachable ⟨calls, rfl⟩).waiting
    simp only [sendQueue, sentTags_queueEvent] at hw
    rw [ho, List.map_append, List.pairwise_append, List.map_cons, List.pairwise_cons] at hw
    exact hw.2.1.1 later.entry (List.mem_map_of_mem hm) (by simpa [MqttFrameItem.entry] using ht)
  · have h := ResendQueue.firsts_sublist mqttResendAttempts (runActs streamMqttInit calls)
    rw [← sendQueue_init, ← sendQueue_run, submissions_sendQueue] at h
    rwa [← ordinaryTags_queueEvent]

/-! ## The resend timer -/

/-- In every state of every run, a running resend timer waits for the head of the outgoing queue,
which has been transmitted; and behind every `stream_mqtt_do_time` the timer runs unless the queue
is empty. -/
theorem resendTimer_waits (calls : List (Env × Call)) :
    (timerRunning (run streamMqttInit calls).resendTimer = true →
      ∃ item behind, (run streamMqttInit calls).outgoing = item :: behind ∧
        item.tag ∈ transmitted (run streamMqttInit calls).trace) ∧
    ∀ env, (streamMqttDoTime env (run streamMqttInit calls)).2.outgoing ≠ [] →
      timerRunning (streamMqttDoTime env (run streamMqttInit calls)).2.resendTimer = true := by
  constructor
  · intro hrun
    have hw := ResendQueue.run_timerWaits mqttResendAttempts (runActs streamMqttInit calls)
    rw [← sendQueue_init, ← sendQueue_run] at hw
    obtain ⟨e, rest, he, hsent⟩ := hw hrun
    obtain ⟨item, behind, ho, rfl, -⟩ := List.map_eq_cons_iff.1 he
    exact ⟨item, behind, ho, by rw [← sentTags_queueEvent]; exact hsent⟩
  · intro env hne
    generalize run streamMqttInit calls = s at hne ⊢
    -- the last thing the call does is to send the head if no timer runs
    have hkick : sendQueue (streamMqttDoTime env s).2 = ResendQueue.step mqttResendAttempts
        (sendQueue (streamMqttResendTime env (streamMqttKeepAliveTime env s))) .kick := sendQueue_sendTime env _
    have harm := ResendQueue.kick_armed mqttResendAttempts
      (sendQueue (streamMqttResendTime env (streamMqttKeepAliveTime env s)))
    rw [← hkick] at harm
    exact harm (by simpa [sendQueue] using hne)

/-! ## Abandonment -/

/-- How often a message has been transmitted. -/
def transmissions (s : StreamMqtt) (tag : Nat) : Nat := (transmitted s.trace).count tag

/-- The outgoing queue when a received acknowledgement has removed what it answers. -/
def acknowledged (s : StreamMqtt) (type : MqttPacketType) (id : UInt16) : Bool × List MqttFrameItem :=
  streamMqttRemoveFrame s.outgoing (mqttRequestType type) id

/-- The attempt counter, which no acknowledgement but PUBREC resets, fits the queue behind a call:
a SUBACK, UNSUBACK, PUBACK or PUBCOMP that removes a message leaves a head that has been
transmitted at least `resend_attempts` times (or nothing), and the application itself sends a
PUBREL only while the counter stands for at most one transmission. -/
def FitsCounter (s : StreamMqtt) : Call → Prop
  | .receive header body =>
    ∀ type, MqttPacketType.ofByte header.type = some type → type ∈ [.suback, .unsuback, .puback, .pubcomp] →
      (acknowledged s type (shortAt body 0)).1 = true →
        ∀ item, (acknowledged s type (shortAt body 0)).2.head? = some item →
          s.resendAttempts ≤ transmissions s item.tag
  | .pubrel _ => s.resendAttempts + (if timerRunning s.resendTimer then 1 else 0) ≤ 1
  | _ => True

/-- A run all of whose calls fit. -/
def RunFits : StreamMqtt → List (Env × Call) → Prop
  | _, [] => True
  | s, (env, call) :: calls => FitsCounter s call ∧ RunFits (step s env call) calls

/-- An acknowledgement that fits is fair to the queue. -/
theorem fair_acknowledge {s : StreamMqtt} {type : MqttPacketType} {id : UInt16}
    (h : (acknowledged s type id).1 = true → ∀ item, (acknowledged s type id).2.head? = some item →
      s.resendAttempts ≤ transmissions s item.tag) :
    ResendQueue.Fair (sendQueue s) (.ack (ackKey type id)) := by
  intro hany e he
  have hany' : (acknowledged s type id).1 = true := by
    simp only [sendQueue, List.any_map] at hany
    exact hany
  rw [← sendQueue_acknowledge] at he
  have hout : (streamMqttAcknowledge s type id).outgoing = (acknowledged s type id).2 := by
    unfold streamMqttAcknowledge
    simp only
    split <;> rfl
  simp only [sendQueue, hout, List.head?_map, Option.map_eq_some_iff] at he
  obtain ⟨item, hi, rfl⟩ := he
  rw [sentCount_sendQueue]
  exact h hany' item hi

theorem fairRun_append {limit : Nat} {s : ResendQueue.State Key} {acts acts' : List (ResendQueue.Act Key)}
    (h : ResendQueue.FairRun limit s acts) (h' : ResendQueue.FairRun limit (ResendQueue.run limit s acts) acts') :
    ResendQueue.FairRun limit s (acts ++ acts') := by
  induction h with
  | nil s => exact h'
  | cons ha _ ih => exact .cons ha (ih h')

theorem fairRun_one {limit : Nat} {s : ResendQueue.State Key} {a : ResendQueue.Act Key} (h : ResendQueue.Fair s a) :
    ResendQueue.FairRun limit s [a] := .cons h (.nil _)

theorem fairRun_acts {s : StreamMqtt} (env : Env) {call : Call} (h : FitsCounter s call) :
    ResendQueue.FairRun mqttResendAttempts (sendQueue s) (acts s env call) := by
  cases call with
  | publish retain dup qos id topic payload => exact fairRun_one trivial
  | subscribe id topic qos => exact fairRun_one trivial
  | unsubscribe id topic => exact fairRun_one trivial
  | pubrel id => exact fairRun_one h
  | time =>
    simp only [acts]
    split
    · exact .cons trivial (fairRun_one trivial)
    · exact fairRun_one trivial
  | receive header body =>
    simp only [acts]
    cases ht : MqttPacketType.ofByte header.type with
    | none => exact .nil _
    | some type =>
      have hfits := h type ht
      cases type with
      | suback => exact fairRun_one (fair_acknowledge (hfits (by simp)))
      | unsuback => exact fairRun_one (fair_acknowledge (hfits (by simp)))
      | puback => exact fairRun_one (fair_acknowledge (hfits (by simp)))
      | pubcomp => exact fairRun_one (fair_acknowledge (hfits (by simp)))
      | pubrec => exact fairRun_one trivial
      | _ => exact .nil _
  | _ => exact .nil _

theorem fairRun_runActs : ∀ {calls : List (Env × Call)} {s : StreamMqtt}, RunFits s calls →
    ResendQueue.FairRun mqttResendAttempts (sendQueue s) (runActs s calls)
  | [], s, _ => .nil _
  | (env, call) :: calls, s, ⟨hfit, hrest⟩ => by
    refine fairRun_append (fairRun_acts env hfit) ?_
    rw [← sendQueue_step]
    exact fairRun_runActs hrest

/-- In a run whose acknowledgements fit the attempt counter, a message is abandoned only after
`MQTT_RESEND_ATTEMPTS` transmissions. -/
theorem abandoned_afterAttempts {calls : List (Env × Call)} (h : RunFits streamMqttInit calls) :
    ∀ pre tag post, (run streamMqttInit calls).trace = pre ++ .abandon tag :: post →
      mqttResendAttempts ≤ (transmitted pre).count tag := by
  intro pre tag post he
  have hb := ResendQueue.run_budget (fairRun_runActs h)
    (by rw [sendQueue_init]; exact ResendQueue.budget_empty mqttResendAttempts)
  rw [← sendQueue_run] at hb
  rw [← sentTags_queueEvent]
  refine hb.drops _ tag (post.filterMap Event.queueEvent) ?_
  simp only [sendQueue, he, List.filterMap_append, List.filterMap_cons]
  rfl

/-- A run of `calls` at given seconds. -/
def timed (calls : List (Int × Call)) : List (Env × Call) := calls.map fun c => (Env.at c.1, c.2)

theorem topicA_noNul : 0 ∉ [(0x61 : UInt8)] := by decide

def topicA : CString := ⟨[0x61], topicA_noNul⟩

/-- Message 0 is resent twice and acknowledged; message 1 is then abandoned after one transmission. -/
def acknowledgedLate : List (Env × Call) :=
  timed [(0, .subscribe 1 topicA 0), (0, .subscribe 2 topicA 0), (30, .time), (60, .time),
    (60, .receive ⟨9, 0, 3⟩ (memOf [0, 1, 0] fun _ => 0)), (61, .time), (91, .time)]

theorem abandoned_early : ¬ ∀ calls : List (Env × Call), ∀ pre tag post,
    (run streamMqttInit calls).trace = pre ++ .abandon tag :: post →
      mqttResendAttempts ≤ (transmitted pre).count tag := by
  intro h
  have htrace : (run streamMqttInit acknowledgedLate).trace =
      (run streamMqttInit acknowledgedLate).trace.dropLast ++ .abandon 1 :: [] := by decide +kernel
  exact absurd (h acknowledgedLate _ 1 [] htrace) (by decide +kernel)

/-- Message 0 is acknowledged before it is resent; message 1 is then sent, resent twice and abandoned. -/
def acknowledgedEarly : List (Env × Call) :=
  timed [(0, .subscribe 1 topicA 0), (0, .subscribe 2 topicA 0), (5, .receive ⟨9, 0, 3⟩ (memOf [0, 1, 0] fun _ => 0)),
    (6, .time), (36, .time), (66, .time), (96, .time)]

theorem abandoned_afterAttempts_acknowledged :
    let s := run streamMqttInit acknowledgedEarly
    .acknowledge .suback 1 ∈ s.trace ∧ s.trace.getLast? = some (.abandon 1) ∧
      mqttResendAttempts ≤ (transmitted s.trace.dropLast).count 1 := by
  intro s
  have hfits : RunFits streamMqttInit acknowledgedEarly := by
    refine ⟨trivial, trivial, fun type _ _ _ item _ => ?_, trivial, trivial, trivial, trivial, trivial⟩
    -- no attempt has been counted yet
    exact Nat.zero_le _
  have htrace : s.trace = s.trace.dropLast ++ .abandon 1 :: [] := by decide +kernel
  exact ⟨by decide +kernel, by decide +kernel, abandoned_afterAttempts hfits _ 1 [] htrace⟩

/-! ## QoS 0 -/

/-- Calls at seconds that do not go backwards from `now`. -/
def Ticking : Int → List (Env × Call) → Prop
  | _, [] => True
  | now, (env, _) :: calls => now ≤ env.clock.clockS ∧ Ticking env.clock.clockS calls

/-- There is a later time at which a running timer has expired. -/
theorem exists_expired (now : Int) (t : Timer) :
    ∃ seconds, now ≤ seconds ∧ (timerRunning t = true → timerExpired (Env.at seconds).clock t = true) := by
  refine ⟨max now (max 0 (t.start + t.interval)), le_max_left _ _, fun hrun => ?_⟩
  have hzero : t.interval ≠ 0 := by simpa [timerRunning] using hrun
  generalize hs : max now (max 0 (t.start + t.interval)) = seconds
  have h0 : 0 ≤ seconds := by omega
  have hdue : t.start + t.interval ≤ seconds := by omega
  have hstamp : seconds ≤ timerTstamp (Env.at seconds).clock t.flags := by
    unfold timerTstamp timerClock
    split <;> split
    · simp [clockGetSeconds, clockUpdateSys, Env.at]
    · split
      · simp [clockGetChrono, clockUpdateSys, Env.at]
      · simp [clockGetMilis, clockUpdateSys, Env.at]; omega
    · simp [clockGetSeconds, Env.at]
    · split
      · simp [clockGetChrono, Env.at]
      · simp [clockGetMilis, Env.at]; omega
  unfold timerExpired timerValue
  rw [if_neg hzero, if_neg (by omega)]

/-- Time passes until the timer expires: one tick of the queue. -/
theorem exists_tick (now : Int) (s : StreamMqtt) :
    ∃ seconds, now ≤ seconds ∧
      sendQueue (step s (Env.at seconds) .time) = ResendQueue.tick mqttResendAttempts (sendQueue s) := by
  obtain ⟨seconds, hle, hexp⟩ := exists_expired now s.resendTimer
  refine ⟨seconds, hle, ?_⟩
  rw [sendQueue_step]
  cases hrun : timerRunning s.resendTimer with
  | true => simp only [acts, hexp hrun, if_true]; rfl
  | false =>
    have hne : timerExpired (Env.at seconds).clock s.resendTimer ≠ true := fun h => by
      rw [timerRunning_of_expired h] at hrun; cases hrun
    have hidle : ResendQueue.step mqttResendAttempts (sendQueue s) .timeout = sendQueue s := by
      simp [ResendQueue.step, sendQueue, hrun]
    simp only [acts, if_neg hne, ResendQueue.tick, hidle]
    rfl

theorem exists_ticks : ∀ (k : Nat) (now : Int) (s : StreamMqtt),
    ∃ calls, Ticking now calls ∧ sendQueue (run s calls) = ResendQueue.ticks mqttResendAttempts k (sendQueue s)
  | 0, now, s => ⟨[], trivial, rfl⟩
  | k + 1, now, s => by
    obtain ⟨seconds, hle, htick⟩ := exists_tick now s
    obtain ⟨calls, ht, hq⟩ := exists_ticks k seconds (step s (Env.at seconds) .time)
    refine ⟨(Env.at seconds, .time) :: calls, ⟨hle, ht⟩, ?_⟩
    rw [run_cons, hq, htick]
    rfl

/-- The PUBLISH of a QoS 0 message is written at most once, whatever happens afterwards, exactly
if nothing waits in the outgoing queue when it is published. -/
theorem publishQos0_once_iff {s : StreamMqtt} (h : Reachable s) (env : Env) (now : Int) (retain dup : Bool)
    (id : UInt16) (topic : CString) (payload : Bytes) :
    (∀ calls, Ticking now calls →
      transmissions (run (streamMqttPublish env s retain dup mqttQos0 id topic payload).2 calls) s.nextTag ≤ 1) ↔
      s.outgoing = [] := by
  have hpub := sendQueue_publish env s retain dup mqttQos0 id topic payload
  generalize hs' : (streamMqttPublish env s retain dup mqttQos0 id topic payload).2 = s' at hpub ⊢
  have hqos : decide (mqttQos0 > mqttQos0) = false := by decide
  rw [hqos] at hpub
  simp only [transmissions, ← sentCount_sendQueue]
  constructor
  · intro hall
    by_contra hne
    -- the message waits behind others: the timer brings it to the head and resends it there
    have hentries : (sendQueue s').entries =
        s.outgoing.map MqttFrameItem.entry ++ [⟨s.nextTag, false, (.publish, id)⟩] := by
      rw [hpub]
      simp [ResendQueue.step, sendQueue, hne]
    obtain ⟨k, hk⟩ := ResendQueue.ticks_resent (show 1 < mqttResendAttempts by decide) _ (sendQueue s')
      (by simpa using hne) hentries
    obtain ⟨calls, ht, hq⟩ := exists_ticks k now s'
    have honce := hall calls ht
    rw [hq] at honce
    exact absurd (hk.trans honce) (by decide)
  · rintro hempty calls -
    have hw := window_reachable h
    -- nothing waits: the message is written now and forgotten
    have hstep : sendQueue s' = { ({ sendQueue s with next := s.nextTag + 1 } : ResendQueue.State Key).send
        ⟨s.nextTag, false, (.publish, id)⟩ with entries := [] } := by
      rw [hpub]
      simp [ResendQueue.step, sendQueue, hempty, ResendQueue.State.send]
    have hgone : ResendQueue.Gone s.nextTag (sendQueue s') := by
      rw [hstep]
      exact ⟨Nat.lt_succ_self _, by simp⟩
    rw [sendQueue_run, ResendQueue.run_gone hgone]
    have hbefore : (sendQueue s).sentCount s.nextTag = 0 :=
      List.count_eq_zero.2 fun hm => Nat.lt_irrefl _ (hw.sentIssued _ hm)
    have hcount : (sendQueue s').sentCount s.nextTag = (sendQueue s).sentCount s.nextTag + 1 := by
      rw [hstep]
      simp [ResendQueue.State.sentCount]
    omega

/-- On a fresh stream. -/
theorem publishQos0_once_fresh :
    let s := (streamMqttPublish (Env.at 0) streamMqttInit false false mqttQos0 7 topicA [0x78]).2
    transmissions (run s (timed [(30, .time), (60, .time)])) 0 ≤ 1 := by
  intro s
  have honce := (publishQos0_once_iff ⟨[], rfl⟩ (Env.at 0) 0 false false 7 topicA [0x78]).2 rfl
  exact honce _ ⟨by decide, by decide, trivial⟩

/-- A QoS 0 message behind a SUBSCRIBE that nobody acknowledges is written twice. -/
theorem publishQos0_twice : ¬ ∀ (s : StreamMqtt), Reachable s → ∀ (env : Env) (retain dup : Bool) (id : UInt16)
    (topic : CString) (payload : Bytes) (calls : List (Env × Call)),
      transmissions (run (streamMqttPublish env s retain dup mqttQos0 id topic payload).2 calls) s.nextTag ≤ 1 := by
  intro h
  have hwaiting := h (run streamMqttInit (timed [(0, .subscribe 1 topicA 0)])) ⟨_, rfl⟩ (Env.at 0) false false 7 topicA
    [0x78] (timed [(30, .time), (60, .time), (90, .time), (120, .time)])
  exact absurd hwaiting (by decide +kernel)

end CMx.Mqtt
