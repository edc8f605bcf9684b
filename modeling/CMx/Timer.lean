/-
The clock of `timer.c` and the timers of `timer.h`. A `time_t` is an integer here: overflow of the
clock is not modelled. The statics of `timer.c` are the fields of `Clock`, together with what the
system would answer if it were asked for the time now.
-/
import Mathlib.Tactic

namespace CMx

/-! ## The clock -/

/-- What `clock_gettime` and `time` answer. -/
structure SystemTime where
  tvSec : Int
  tvNsec : Int
  time : Int
  deriving DecidableEq, Repr

structure Clock where
  clockMs : Int
  clockS : Int
  clockChrono : Int
  system : SystemTime
  deriving DecidableEq, Repr

def clockUpdate (c : Clock) (ms chrono : Int) : Clock :=
  let c := if ms ≠ 0 then
      { c with clockS := c.clockS + (c.clockMs.tmod 1000 + ms).tdiv 1000, clockMs := c.clockMs + ms }
    else c
  { c with clockChrono := chrono }

def clockUpdateSys (c : Clock) : Clock :=
  { c with clockS := c.system.tvSec,
           clockMs := c.system.tvSec * 1000 + (c.system.tvNsec.tdiv 1000).tdiv 1000,
           clockChrono := c.system.time }

def clockGetMilis (c : Clock) : Int := c.clockMs

def clockGetSeconds (c : Clock) : Int := c.clockS

def clockGetChrono (c : Clock) : Int := if c.clockChrono ≠ 0 then c.clockChrono else c.clockS

/-! ## Timers -/

def timerSec : UInt8 := 0x1
def timerChrono : UInt8 := 0x2
def timerUpdate : UInt8 := 0x80

structure Timer where
  start : Int
  interval : Int
  flags : UInt8
  deriving DecidableEq, Repr

/-- The clock as a reading with these flags leaves it. -/
def timerClock (c : Clock) (flags : UInt8) : Clock :=
  if flags &&& timerUpdate ≠ 0 then clockUpdateSys c else c

def timerTstamp (c : Clock) (flags : UInt8) : Int :=
  let c := timerClock c flags
  if flags &&& timerSec ≠ 0 then clockGetSeconds c
  else if flags &&& timerChrono ≠ 0 then clockGetChrono c
  else clockGetMilis c

def timerStart (c : Clock) (flags : UInt8) (interval : Int) : Timer :=
  ⟨timerTstamp c flags, interval, flags⟩

/-- A stopped timer does not depend on what it was. -/
def timerStop : Timer := ⟨0, 0, 0⟩

def timerRestart (c : Clock) (t : Timer) : Timer := { t with start := timerTstamp c t.flags }

def timerRunning (t : Timer) : Bool := t.interval ≠ 0

def timerValue (c : Clock) (t : Timer) : Int := timerTstamp c t.flags - t.start

def timerExpired (c : Clock) (t : Timer) : Bool :=
  if t.interval = 0 then false
  else if timerValue c t < t.interval then false
  else true

@[simp] theorem timerRunning_stop : timerRunning timerStop = false := rfl

@[simp] theorem timerExpired_stop (c : Clock) : timerExpired c timerStop = false := rfl

theorem timerRunning_start (c : Clock) (flags : UInt8) {interval : Int} (h : interval ≠ 0) :
    timerRunning (timerStart c flags interval) = true := by simp [timerRunning, timerStart, h]

/-- Only a running timer expires. -/
theorem timerRunning_of_expired {c : Clock} {t : Timer} (h : timerExpired c t = true) : timerRunning t = true := by
  unfold timerExpired at h
  split at h
  · cases h
  · rename_i h'; simp [timerRunning, h']

end CMx
