/-
A heartbeat between a pulse and its monitor over two channels with bounded delays. The pulse looks
at its timer once in a while; a full interval behind its last beat it sends the next one if the last
has been answered, and gives up if not. The monitor gives up when no beat has reached it for its
limit. With a limit that covers the lag of the first interval, one interval and one delay, and an
interval longer than two delays, neither ever gives up.
-/
import Mathlib.Logic.Relation
import Mathlib.Tactic

namespace Heartbeat

/-! ## The parties and the channels -/

/-- The interval of the pulse, the limit of the monitor, the longest delay of a packet, how long after
the monitor the pulse may have been started, and the longest time between two looks at the timer. -/
structure Params where
  interval : Int
  limit : Int
  delay : Int
  lag : Int
  gap : Int

/-- The times are long enough for the delays. -/
structure Params.Sound (p : Params) : Prop where
  lag : 0 ≤ p.lag
  gap : 0 ≤ p.gap
  delay : 0 ≤ p.delay
  answer : 2 * p.delay < p.interval
  limit : p.lag + p.interval + p.gap + p.delay ≤ p.limit

/-- The clock, when the monitor was last fed, when the pulse last started its interval and last
looked at its timer, whether the last beat has been answered, and the times at which the beats and
the answers in flight were sent. -/
structure State where
  now : Int
  fedAt : Int
  beatAt : Int
  checkedAt : Int
  answered : Bool
  beats : List Int
  answers : List Int

/-- One step. Time passes as long as nothing is late; the packets arrive in order. -/
inductive Step (p : Params) : State → State → Prop where
  | wait {s : State} (d : Nat) : (∀ t ∈ s.beats ++ s.answers, s.now + d ≤ t + p.delay) →
      s.now + d ≤ s.checkedAt + p.gap → Step p s { s with now := s.now + d }
  | check {s : State} : s.now < s.beatAt + p.interval → Step p s { s with checkedAt := s.now }
  | beat {s : State} : s.beatAt + p.interval ≤ s.now → s.answered = true →
      Step p s { s with checkedAt := s.now, beatAt := s.now, answered := false, beats := s.beats ++ [s.now] }
  | feed {s : State} {t : Int} {rest : List Int} : s.beats = t :: rest →
      Step p s { s with beats := rest, fedAt := s.now, answers := s.answers ++ [s.now] }
  | answer {s : State} {t : Int} {rest : List Int} : s.answers = t :: rest →
      Step p s { s with answers := rest, answered := true }

/-- The pulse has just been started, with nothing in flight. -/
structure Start (p : Params) (s : State) : Prop where
  beatAt : s.beatAt = s.now
  checkedAt : s.checkedAt = s.now
  lag : s.now ≤ s.fedAt + p.lag
  answered : s.answered = true
  beats : s.beats = []
  answers : s.answers = []

/-! ## The invariant -/

/-- The timer has been looked at in time and nothing in flight is late. Between two beats the last
one has fed the monitor; a beat in flight was sent about an interval behind that. A beat without an
answer is in flight, or its answer is. -/
structure Inv (p : Params) (s : State) : Prop where
  beat_le : s.beatAt ≤ s.now
  checked : s.checkedAt < s.beatAt + p.interval
  looked : s.now ≤ s.checkedAt + p.gap
  onTime : ∀ t ∈ s.beats ++ s.answers, s.now ≤ t + p.delay
  fed : (s.beats = [] ∧ s.beatAt ≤ s.fedAt + p.lag) ∨
    (s.beats = [s.beatAt] ∧ s.beatAt < s.fedAt + p.lag + p.interval + p.gap)
  answered : s.answered = true ∨ s.beats = [s.beatAt] ∨ ∃ t ∈ s.answers, t ≤ s.beatAt + p.delay

variable {p : Params} {s s' : State}

/-- The timer is looked at soon behind the end of the interval. -/
theorem Inv.due (i : Inv p s) : s.now < s.beatAt + p.interval + p.gap := by
  have hchecked := i.checked
  have hlooked := i.looked
  omega

/-- The monitor never gives up, -/
theorem Inv.not_expired (i : Inv p s) (hp : p.Sound) : s.now < s.fedAt + p.limit := by
  have hlimit := hp.limit
  rcases i.fed with ⟨-, hfed⟩ | ⟨hbeats, hfed⟩
  · have hdue := i.due
    have hdelay := hp.delay
    omega
  · have honTime := i.onTime s.beatAt (by rw [hbeats]; simp)
    omega

/-- and neither does the pulse. -/
theorem Inv.answered_of_due (i : Inv p s) (hp : p.Sound) (hdue : s.beatAt + p.interval ≤ s.now) :
    s.answered = true := by
  have hanswer := hp.answer
  have hdelay := hp.delay
  rcases i.answered with ha | hbeats | ⟨t, ht, hle⟩
  · exact ha
  · have honTime := i.onTime s.beatAt (by rw [hbeats]; simp)
    omega
  · have honTime := i.onTime t (List.mem_append_right _ ht)
    omega

/-- Behind a whole interval no beat is in flight. -/
theorem Inv.beats_of_due (i : Inv p s) (hp : p.Sound) (hdue : s.beatAt + p.interval ≤ s.now) : s.beats = [] := by
  rcases i.fed with ⟨hbeats, -⟩ | ⟨hbeats, -⟩
  · exact hbeats
  · have honTime := i.onTime s.beatAt (by rw [hbeats]; simp)
    have hanswer := hp.answer
    have hdelay := hp.delay
    omega

theorem inv_start (hp : p.Sound) (h : Start p s) : Inv p s where
  beat_le := by rw [h.beatAt]
  checked := by
    have hanswer := hp.answer
    have hdelay := hp.delay
    rw [h.checkedAt, h.beatAt]
    omega
  looked := by
    have hgap := hp.gap
    rw [h.checkedAt]
    omega
  onTime := by simp [h.beats, h.answers]
  fed := .inl ⟨h.beats, by rw [h.beatAt]; exact h.lag⟩
  answered := .inl h.answered

theorem inv_step (hp : p.Sound) (i : Inv p s) (h : Step p s s') : Inv p s' := by
  have hlag := hp.lag
  have hdelay := hp.delay
  cases h with
  | wait d htimely hlooked =>
    have hle := i.beat_le
    exact ⟨by simp only; omega, i.checked, hlooked, htimely, i.fed, i.answered⟩
  | check hbefore =>
    have hgap := hp.gap
    exact ⟨i.beat_le, hbefore, by simp only; omega, i.onTime, i.fed, i.answered⟩
  -- the last beat has arrived by the time the next one is due
  | beat hdue hanswered =>
    have hgap := hp.gap
    have hanswer := hp.answer
    have hbefore := i.due
    have hnone := i.beats_of_due hp hdue
    obtain ⟨-, hfed⟩ | ⟨hbeats, -⟩ := i.fed
    · refine ⟨le_refl _, by simp only; omega, by simp only; omega, ?_, .inr ⟨by simp [hnone], by simp only; omega⟩,
        .inr (.inl (by simp [hnone]))⟩
      intro t ht
      simp only [hnone, List.nil_append, List.mem_append, List.mem_singleton] at ht
      rcases ht with rfl | ht
      · simp only
        omega
      · exact i.onTime t (List.mem_append_right _ ht)
    · rw [hnone] at hbeats
      cases hbeats
  -- the one beat on its way comes, and is answered at once
  | feed hbeats =>
    rename_i t rest
    have hle := i.beat_le
    obtain ⟨hnone, -⟩ | ⟨hone, -⟩ := i.fed
    · rw [hnone] at hbeats
      cases hbeats
    · rw [hone] at hbeats
      obtain ⟨rfl, rfl⟩ := List.cons.inj hbeats
      have honTime := i.onTime s.beatAt (by rw [hone]; simp)
      refine ⟨hle, i.checked, i.looked, ?_, .inl ⟨rfl, by simp only; omega⟩,
        .inr (.inr ⟨s.now, by simp, honTime⟩)⟩
      intro t ht
      simp only [List.nil_append, List.mem_append, List.mem_singleton] at ht
      rcases ht with ht | rfl
      · exact i.onTime t (List.mem_append_right _ ht)
      · simp only
        omega
  | answer hanswers =>
    refine ⟨i.beat_le, i.checked, i.looked, ?_, i.fed, .inl rfl⟩
    intro t ht
    apply i.onTime t
    rw [hanswers]
    rcases List.mem_append.1 ht with ht | ht
    · exact List.mem_append_left _ ht
    · exact List.mem_append_right _ (List.mem_cons_of_mem _ ht)

end Heartbeat
