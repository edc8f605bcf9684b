/-
The clock of `timer.c` over many calls of `clock_update`. The seconds are advanced from what the milliseconds have
left over, and stay the milliseconds divided by 1000 on a clock that is not negative; and no timer of seconds or
milliseconds that has expired comes back.
-/
import CMx.Timer

namespace CMx

/-! ## The time of the system -/

/-- What `clock_gettime` answers for CLOCK_MONOTONIC. -/
structure SystemTime.Valid (time : SystemTime) : Prop where
  sec : 0 ≤ time.tvSec
  nsec : 0 ≤ time.tvNsec
  nsec_lt : time.tvNsec < 10 ^ 9

theorem tdiv_nsec {time : SystemTime} (h : time.Valid) :
    (time.tvNsec.tdiv 1000).tdiv 1000 = time.tvNsec / 1000 / 1000 := by
  have hnsec := h.nsec
  have hus : time.tvNsec.tdiv 1000 = time.tvNsec / 1000 := Int.tdiv_eq_ediv_of_nonneg hnsec
  rw [hus]
  exact Int.tdiv_eq_ediv_of_nonneg (by omega)

/-- A later answer. -/
def SystemTime.Later (time later : SystemTime) : Prop :=
  time.tvSec < later.tvSec ∨ time.tvSec = later.tvSec ∧ time.tvNsec ≤ later.tvNsec

/-! ## Steps of the clock -/

/-- What happens between two actions on a timer: the clock is updated, or the timer is asked, which updates the clock
from the system if the timer says so. -/
inductive ClockOp where
  | update (ms chrono : Int)
  | ask

/-- The clock behind a call, at which the system would answer `time`. -/
def clockStep (t : Timer) (c : Clock) (time : SystemTime) : ClockOp → Clock
  | .update ms chrono => clockUpdate { c with system := time } ms chrono
  | .ask => timerClock { c with system := time } t.flags

def clockRun (t : Timer) (c : Clock) (ops : List (SystemTime × ClockOp)) : Clock :=
  ops.foldl (fun c op => clockStep t c op.1 op.2) c

/-- No increment is negative, and the system does not go back. -/
def ClockFair (time : SystemTime) : List (SystemTime × ClockOp) → Prop
  | [] => True
  | (later, op) :: ops =>
    later.Valid ∧ time.Later later ∧ (∀ ms chrono, op = .update ms chrono → 0 ≤ ms) ∧ ClockFair later ops

/-- The seconds are the milliseconds divided by 1000. -/
structure Clock.InStep (c : Clock) : Prop where
  ms : 0 ≤ c.clockMs
  s : c.clockS = c.clockMs / 1000

theorem inStep_init (time : SystemTime) : Clock.InStep ⟨0, 0, 0, time⟩ := ⟨le_refl _, rfl⟩

theorem inStep_clockUpdateSys {c : Clock} (h : c.system.Valid) : (clockUpdateSys c).InStep := by
  have hms := tdiv_nsec h
  obtain ⟨hsec, hnsec, hlt⟩ := h
  constructor
  · simp only [clockUpdateSys, hms]
    omega
  · simp only [clockUpdateSys, hms]
    omega

/-- The carry: what is left over of the milliseconds and the increment make the seconds. -/
theorem inStep_clockUpdate {c : Clock} (h : c.InStep) {ms : Int} (hms : 0 ≤ ms) (chrono : Int) :
    (clockUpdate c ms chrono).InStep := by
  obtain ⟨hpos, hs⟩ := h
  unfold clockUpdate
  by_cases hzero : ms = 0
  · rw [if_neg (not_not.2 hzero)]
    exact ⟨hpos, hs⟩
  · rw [if_pos hzero]
    have hrest : c.clockMs.tmod 1000 = c.clockMs % 1000 := Int.tmod_eq_emod_of_nonneg hpos
    have hcarry : (c.clockMs % 1000 + ms).tdiv 1000 = (c.clockMs % 1000 + ms) / 1000 :=
      Int.tdiv_eq_ediv_of_nonneg (by omega)
    constructor
    · exact add_nonneg hpos hms
    · simp only [hs, hrest, hcarry]
      omega

theorem inStep_clockStep {t : Timer} {c : Clock} (h : c.InStep) {time : SystemTime} (htime : time.Valid) {op : ClockOp}
    (hop : ∀ ms chrono, op = .update ms chrono → 0 ≤ ms) : (clockStep t c time op).InStep := by
  have hc : Clock.InStep { c with system := time } := ⟨h.ms, h.s⟩
  cases op with
  | update ms chrono => exact inStep_clockUpdate hc (hop ms chrono rfl) chrono
  | ask =>
    rw [clockStep, timerClock]
    by_cases hupdate : t.flags &&& timerUpdate ≠ 0
    · rw [if_pos hupdate]
      exact inStep_clockUpdateSys htime
    · rw [if_neg hupdate]
      exact hc

theorem inStep_clockRun {t : Timer} {ops : List (SystemTime × ClockOp)} {c : Clock} (h : c.InStep)
    {time : SystemTime} (hops : ClockFair time ops) : (clockRun t c ops).InStep := by
  induction ops generalizing c time with
  | nil => exact h
  | cons op ops ih =>
    obtain ⟨hvalid, -, hop, hrest⟩ := hops
    exact ih (inStep_clockStep h hvalid hop) hrest

/-! ## Timers that have expired -/

/-- A timer of seconds or of milliseconds, which may update the clock on its own. -/
def Timer.OfClock (t : Timer) : Prop := t.flags &&& timerSec ≠ 0 ∨ t.flags &&& timerChrono = 0

theorem timerTstamp_of_update {c : Clock} {flags : UInt8} (h : flags &&& timerUpdate ≠ 0) :
    timerTstamp c flags =
      if flags &&& timerSec ≠ 0 then c.system.tvSec
      else if flags &&& timerChrono ≠ 0 then clockGetChrono (clockUpdateSys c)
      else c.system.tvSec * 1000 + (c.system.tvNsec.tdiv 1000).tdiv 1000 := by
  rw [timerTstamp, timerClock, if_pos h]
  rfl

theorem timerTstamp_of_not_update {c : Clock} {flags : UInt8} (h : ¬ flags &&& timerUpdate ≠ 0) :
    timerTstamp c flags =
      if flags &&& timerSec ≠ 0 then c.clockS
      else if flags &&& timerChrono ≠ 0 then clockGetChrono c
      else c.clockMs := by
  rw [timerTstamp, timerClock, if_neg h]
  rfl

theorem system_clockStep (t : Timer) (c : Clock) (time : SystemTime) (op : ClockOp) :
    (clockStep t c time op).system = time := by
  cases op with
  | update ms chrono =>
    rw [clockStep, clockUpdate]
    split <;> rfl
  | ask =>
    rw [clockStep, timerClock]
    split <;> rfl

/-- Neither of the two counters goes back. -/
theorem clockUpdate_le (c : Clock) {ms : Int} (hms : 0 ≤ ms) (chrono : Int) :
    c.clockMs ≤ (clockUpdate c ms chrono).clockMs ∧ c.clockS ≤ (clockUpdate c ms chrono).clockS := by
  unfold clockUpdate
  by_cases hzero : ms = 0
  · rw [if_neg (not_not.2 hzero)]
    exact ⟨le_refl _, le_refl _⟩
  · rw [if_pos hzero]
    -- what is left over is above -1000, so not a whole second is taken back
    have hrest : -1000 < c.clockMs.tmod 1000 := Int.lt_tmod_of_pos c.clockMs (by norm_num)
    have hcarry : 0 ≤ (c.clockMs.tmod 1000 + ms).tdiv 1000 := by
      rcases Int.lt_or_le (c.clockMs.tmod 1000 + ms) 0 with hneg | hpos
      · have hback : (c.clockMs.tmod 1000 + ms).tdiv 1000 = -((-(c.clockMs.tmod 1000 + ms)).tdiv 1000) := by
          rw [Int.neg_tdiv, neg_neg]
        rw [hback, Int.tdiv_eq_ediv_of_nonneg (by omega)]
        omega
      · exact Int.tdiv_nonneg hpos (by norm_num)
    constructor
    · exact le_add_of_nonneg_right hms
    · exact le_add_of_nonneg_right hcarry

/-- What the timer reads does not go back. -/
theorem timerTstamp_clockStep {t : Timer} (ht : t.OfClock) {c : Clock} (hsystem : c.system.Valid) {time : SystemTime}
    (htime : time.Valid) (hlater : c.system.Later time) {op : ClockOp}
    (hop : ∀ ms chrono, op = .update ms chrono → 0 ≤ ms) :
    timerTstamp c t.flags ≤ timerTstamp (clockStep t c time op) t.flags := by
  by_cases hupdate : t.flags &&& timerUpdate ≠ 0
  · -- the reading comes from the system, whatever the clock shows
    rw [timerTstamp_of_update hupdate, timerTstamp_of_update hupdate, system_clockStep]
    by_cases hsec : t.flags &&& timerSec ≠ 0
    · rw [if_pos hsec, if_pos hsec]
      rcases hlater with hlt | ⟨heq, -⟩ <;> omega
    · have hchrono : ¬ t.flags &&& timerChrono ≠ 0 := not_not.2 (ht.resolve_left hsec)
      rw [if_neg hsec, if_neg hsec, if_neg hchrono, if_neg hchrono, tdiv_nsec hsystem, tdiv_nsec htime]
      have hnsec := hsystem.nsec_lt
      have hnsec' := htime.nsec
      rcases hlater with hlt | ⟨heq, hle⟩ <;> omega
  · rw [timerTstamp_of_not_update hupdate, timerTstamp_of_not_update hupdate]
    have hle : c.clockMs ≤ (clockStep t c time op).clockMs ∧ c.clockS ≤ (clockStep t c time op).clockS := by
      cases op with
      | update ms chrono => exact clockUpdate_le { c with system := time } (hop ms chrono rfl) chrono
      | ask =>
        rw [clockStep, timerClock, if_neg hupdate]
        exact ⟨le_refl _, le_refl _⟩
    by_cases hsec : t.flags &&& timerSec ≠ 0
    · rw [if_pos hsec, if_pos hsec]
      exact hle.2
    · have hchrono : ¬ t.flags &&& timerChrono ≠ 0 := not_not.2 (ht.resolve_left hsec)
      rw [if_neg hsec, if_neg hsec, if_neg hchrono, if_neg hchrono]
      exact hle.1

theorem timerExpired_of_le {c c' : Clock} {t : Timer} (hle : timerTstamp c t.flags ≤ timerTstamp c' t.flags)
    (h : timerExpired c t = true) : timerExpired c' t = true := by
  unfold timerExpired timerValue at *
  split at h
  · cases h
  · rename_i hinterval
    rw [if_neg hinterval]
    split at h
    · cases h
    · rename_i hvalue
      rw [if_neg (by omega)]

theorem timerExpired_clockRun {t : Timer} (ht : t.OfClock) {ops : List (SystemTime × ClockOp)} {c : Clock}
    (hsystem : c.system.Valid) (hops : ClockFair c.system ops) (h : timerExpired c t = true) :
    timerExpired (clockRun t c ops) t = true := by
  induction ops generalizing c with
  | nil => exact h
  | cons op ops ih =>
    obtain ⟨hvalid, hlater, hop, hrest⟩ := hops
    have hsame := system_clockStep t c op.1 op.2
    refine ih (c := clockStep t c op.1 op.2) ?_ ?_ ?_
    · rw [hsame]
      exact hvalid
    · rw [hsame]
      exact hrest
    · exact timerExpired_of_le (timerTstamp_clockStep ht hsystem hvalid hlater hop) h

/-- Along every run of the clock: from a state that is in step it stays in step, and from any state a timer of
seconds or of milliseconds that has expired stays expired, as long as nothing but asking is done with it. -/
theorem clockRun_inStep (t : Timer) {c : Clock} (hsystem : c.system.Valid) {ops : List (SystemTime × ClockOp)}
    (hops : ClockFair c.system ops) :
    (0 ≤ c.clockMs → c.clockS = c.clockMs / 1000 → (clockRun t c ops).clockS = (clockRun t c ops).clockMs / 1000) ∧
      (t.OfClock → timerExpired c t = true → timerExpired (clockRun t c ops) t = true) := by
  constructor
  · intro hms hs
    exact (inStep_clockRun ⟨hms, hs⟩ hops).s
  · intro ht h
    exact timerExpired_clockRun ht hsystem hops h

/-- A timer of 700 ms, asked behind two updates that together make more than a second. -/
theorem clockRun_inStep_carry :
    let start : Clock := ⟨1500, 1, 0, ⟨5, 0, 0⟩⟩
    let t : Timer := timerStart ⟨800, 0, 0, ⟨4, 0, 0⟩⟩ 0 700
    let ops : List (SystemTime × ClockOp) :=
      [(⟨5, 10, 0⟩, .update 700 9), (⟨6, 0, 0⟩, .ask), (⟨6, 0, 0⟩, .update 900 0)]
    (clockRun t start ops).clockS = (clockRun t start ops).clockMs / 1000 ∧
      timerExpired (clockRun t start ops) t = true := by
  intro start t ops
  have hsystem : start.system.Valid := ⟨by decide, by decide, by decide⟩
  have hops : ClockFair start.system ops := by
    refine ⟨⟨by decide, by decide, by decide⟩, .inr ⟨rfl, by decide⟩, ?_,
      ⟨by decide, by decide, by decide⟩, .inl (by decide), ?_,
      ⟨by decide, by decide, by decide⟩, .inr ⟨rfl, by decide⟩, ?_, trivial⟩
    · rintro ms chrono ⟨⟩
      decide
    · rintro ms chrono ⟨⟩
    · rintro ms chrono ⟨⟩
      decide
  have h := clockRun_inStep t hsystem hops
  exact ⟨h.1 (by decide) (by decide), h.2 (.inr (by decide)) (by decide)⟩

/-- Below zero the remainder rounds the other way: a clock that was set back by one second and then runs up to zero
stays a second behind. -/
theorem clockRun_not_inStep_negative :
    let start : Clock := clockUpdate ⟨0, 0, 0, ⟨0, 0, 0⟩⟩ (-1000) 0
    let c : Clock := clockRun timerStop start [(⟨0, 0, 0⟩, .update 1 0), (⟨0, 0, 0⟩, .update 999 0)]
    start.clockS = start.clockMs / 1000 ∧ c.clockMs = 0 ∧ c.clockS = -1 ∧ c.clockS ≠ c.clockMs / 1000 := by
  intro start c
  refine ⟨?_, ?_, ?_, ?_⟩ <;> decide

end CMx
