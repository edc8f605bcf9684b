/-
The repeater of `repeater.c`, which waits longer after every attempt, and the random increase of its
timeout in `rand.c`. What `rand` draws is an argument.
-/
import CMx.Timer

namespace CMx

/-! ## Increasing a time -/

/-- `rand_time_increase`: what it returns, and the value it leaves. -/
def randTimeIncrease (draw val max : UInt32) : UInt32 × UInt32 :=
  if max ≠ 0 ∧ val ≥ max then (max, val)
  else
    let tmp := val + (val + 2) / 2
    let tmp := if tmp > 4 then tmp + draw % (val / 4 + 1) else tmp
    let tmp := if max ≠ 0 ∧ tmp ≥ max then max else tmp
    (tmp, tmp)

/-! ## The repeater -/

structure Repeater where
  counter : UInt32
  limit : UInt32
  timeout : UInt32
  timer : Timer
  deriving DecidableEq, Repr

def repeaterInit : Repeater := ⟨0, 0, 1, timerStop⟩

def repeaterSetTimeout (self : Repeater) (timeout : UInt32) : Repeater := { self with timeout }

def repeaterWait (c : Clock) (self : Repeater) : Repeater :=
  { self with timer := timerStart c timerSec self.timeout.toNat }

def repeaterBackOff (c : Clock) (draw : UInt32) (self : Repeater) (maxTimeout : UInt32) : Repeater :=
  repeaterWait c { self with timeout := (randTimeIncrease draw self.timeout maxTimeout).2 }

/-- How long the timer waits, in seconds. -/
def Repeater.waits (self : Repeater) : Int := self.timer.interval

/-! ## One back-off -/

/-- The increased time, of any size. -/
def increased (draw val : UInt32) : Nat :=
  let tmp := val.toNat + (val + 2).toNat / 2
  if tmp > 4 then tmp + draw.toNat % (val.toNat / 4 + 1) else tmp

/-- The time is within the maximum, and its increase fits in 32 bits. -/
def Fits (draw val max : UInt32) : Prop := val ≤ max ∧ (val < max → increased draw val < 2 ^ 32)

instance (draw val max : UInt32) : Decidable (Fits draw val max) := inferInstanceAs (Decidable (_ ∧ _))

theorem waits_backOff (c : Clock) (draw : UInt32) (self : Repeater) (max : UInt32) :
    (repeaterBackOff c draw self max).waits = (randTimeIncrease draw self.timeout max).2.toNat := rfl

/-- A time that has come to the maximum stays as it is. -/
theorem randTimeIncrease_of_ge (draw : UInt32) {val max : UInt32} (hmax : 0 < max) (h : max ≤ val) :
    (randTimeIncrease draw val max).2 = val := by
  have hne : max ≠ 0 := fun h0 => by subst h0; exact absurd hmax (by decide)
  rw [randTimeIncrease, if_pos ⟨hne, h⟩]

/-- The share of the draw that is added. -/
theorem toNat_random (draw val : UInt32) :
    (draw % (val / 4 + 1)).toNat = draw.toNat % (val.toNat / 4 + 1) := by
  have := val.toNat_lt
  rw [UInt32.toNat_mod, UInt32.toNat_add, UInt32.toNat_div]
  rw [Nat.mod_eq_of_lt (show val.toNat / (4 : UInt32).toNat + (1 : UInt32).toNat < 2 ^ 32 by simp; omega)]
  rfl

/-- The increase in 32 bits: what it would be in natural numbers, or less than there was before. -/
theorem toNat_increased (draw val : UInt32) :
    let tmp := val + (val + 2) / 2
    let tmp := if tmp > 4 then tmp + draw % (val / 4 + 1) else tmp
    (tmp.toNat = increased draw val ∧ increased draw val < 2 ^ 32) ∨
      (tmp.toNat < val.toNat ∧ 2 ^ 32 ≤ increased draw val) := by
  intro tmp tmp'
  have hval := val.toNat_lt
  have hhalf : (val + 2).toNat / 2 < 2 ^ 31 := by have := (val + 2).toNat_lt; omega
  have hr : draw.toNat % (val.toNat / 4 + 1) ≤ val.toNat / 4 := Nat.le_of_lt_succ (Nat.mod_lt _ (by omega))
  have htmp : tmp.toNat = (val.toNat + (val + 2).toNat / 2) % 2 ^ 32 := by
    rw [UInt32.toNat_add, UInt32.toNat_div]; rfl
  have htmp' : tmp'.toNat =
      if tmp.toNat > 4 then (tmp.toNat + draw.toNat % (val.toNat / 4 + 1)) % 2 ^ 32 else tmp.toNat := by
    have h4 : tmp > 4 ↔ tmp.toNat > 4 := UInt32.lt_iff_toNat_lt
    by_cases hlt : tmp > 4
    · rw [if_pos (h4.1 hlt), ← toNat_random, ← UInt32.toNat_add, show tmp' = _ from if_pos hlt]
    · rw [if_neg fun h => hlt (h4.2 h), show tmp' = _ from if_neg hlt]
  rw [htmp', htmp, increased]
  by_cases hfits : val.toNat + (val + 2).toNat / 2 < 2 ^ 32
  · rw [Nat.mod_eq_of_lt hfits]
    split <;> omega
  · -- the sum has wrapped around: whether the draw counts then does not matter
    have hbig : val.toNat + (val + 2).toNat / 2 > 4 := by omega
    simp only [if_pos hbig]
    refine .inr ⟨?_, by omega⟩
    split <;> omega

/-- Below the maximum, the increase is cut off there if it fits; if not, what is left is less than before. -/
theorem randTimeIncrease_of_lt (draw : UInt32) {val max : UInt32} (h : val < max) :
    ((randTimeIncrease draw val max).2.toNat = min (increased draw val) max.toNat ∧ increased draw val < 2 ^ 32) ∨
      ((randTimeIncrease draw val max).2 < val ∧ 2 ^ 32 ≤ increased draw val) := by
  have hne : max ≠ 0 := fun h0 => by subst h0; exact absurd h (by simp)
  have hnot : ¬ (max ≠ 0 ∧ val ≥ max) := fun hge => absurd h (UInt32.not_lt.2 hge.2)
  rw [UInt32.lt_iff_toNat_lt] at h
  have hcut := toNat_increased draw val
  rw [randTimeIncrease, if_neg hnot]
  simp only [hne, ne_eq, not_false_eq_true, true_and]
  simp only at hcut
  generalize (if val + (val + 2) / 2 > 4 then val + (val + 2) / 2 + draw % (val / 4 + 1)
    else val + (val + 2) / 2) = tmp at hcut ⊢
  rw [UInt32.lt_iff_toNat_lt]
  obtain ⟨heq, hfits⟩ | ⟨hlt, hbig⟩ := hcut
  · refine .inl ⟨?_, hfits⟩
    rw [← heq]
    by_cases hge : tmp ≥ max
    · rw [if_pos hge]
      exact (Nat.min_eq_right (UInt32.le_iff_toNat_le.1 hge)).symm
    · rw [if_neg hge]
      exact (Nat.min_eq_left (Nat.le_of_lt (UInt32.lt_iff_toNat_lt.1 (UInt32.not_le.1 hge)))).symm
  · refine .inr ⟨?_, hbig⟩
    rwa [if_neg fun hge => absurd (UInt32.le_iff_toNat_le.1 hge) (by omega)]

/-- The time is not shortened while its increase fits. -/
theorem le_increased (draw val : UInt32) : val.toNat ≤ increased draw val := by
  simp only [increased]
  split <;> omega

theorem waits_of_ge (c : Clock) (draw : UInt32) (self : Repeater) {max : UInt32} (hmax : 0 < max)
    (h : max ≤ self.timeout) : (repeaterBackOff c draw self max).waits = self.timeout.toNat := by
  rw [waits_backOff, randTimeIncrease_of_ge draw hmax h]

theorem backOff_within_iff (c : Clock) (draw : UInt32) (self : Repeater) {max : UInt32} (hmax : 0 < max) :
    ((repeaterBackOff c draw self max).waits ≤ max.toNat ∧
        min (self.timeout.toNat : Int) max.toNat ≤ (repeaterBackOff c draw self max).waits) ↔
      Fits draw self.timeout max := by
  rw [waits_backOff, Fits]
  have hle := le_increased draw self.timeout
  rcases lt_trichotomy self.timeout.toNat max.toNat with hlt | heq | hgt
  · have hlt' : self.timeout < max := UInt32.lt_iff_toNat_lt.2 hlt
    have hle' : self.timeout ≤ max := UInt32.le_iff_toNat_le.2 hlt.le
    simp only [hlt', hle', true_and, forall_const]
    obtain ⟨heq, hfits⟩ | ⟨hless, hbig⟩ := randTimeIncrease_of_lt draw hlt'
    · rw [heq]
      constructor
      · exact fun _ => hfits
      · omega
    · rw [UInt32.lt_iff_toNat_lt] at hless
      omega
  · have hle' : max ≤ self.timeout := UInt32.le_iff_toNat_le.2 heq.ge
    have hge' : self.timeout ≤ max := UInt32.le_iff_toNat_le.2 heq.le
    rw [randTimeIncrease_of_ge draw hmax hle']
    simp only [hge', UInt32.lt_iff_toNat_lt, true_and]
    omega
  · have hle' : max ≤ self.timeout := UInt32.le_iff_toNat_le.2 hgt.le
    rw [randTimeIncrease_of_ge draw hmax hle', UInt32.le_iff_toNat_le]
    omega

/-! ## Backing off again and again -/

/-- The repeater after each of the back-offs, with the clock and the draw of each. -/
def backOffs (max : UInt32) (self : Repeater) : List (Clock × UInt32) → List Repeater
  | [] => []
  | (c, draw) :: steps =>
    repeaterBackOff c draw self max :: backOffs max (repeaterBackOff c draw self max) steps

/-- Every one of the back-offs starts from a timeout that `Fits`. -/
def AllFit (max : UInt32) (self : Repeater) : List (Clock × UInt32) → Prop
  | [] => True
  | (c, draw) :: steps =>
    Fits draw self.timeout max ∧ AllFit max (repeaterBackOff c draw self max) steps

/-- A waiting time of at most the maximum is not followed by a shorter one. -/
def NotShortened (max : UInt32) (t t' : Int) : Prop := t ≤ max.toNat → t ≤ t'

theorem timeout_backOff (c : Clock) (draw : UInt32) (self : Repeater) (max : UInt32) :
    ((repeaterBackOff c draw self max).timeout.toNat : Int) = (repeaterBackOff c draw self max).waits := rfl

theorem backOffs_within_iff {max : UInt32} (hmax : 0 < max) :
    ∀ (self : Repeater) (steps : List (Clock × UInt32)),
      ((∀ r ∈ backOffs max self steps, r.waits ≤ max.toNat) ∧
          ((self.timeout.toNat : Int) :: (backOffs max self steps).map Repeater.waits).IsChain (NotShortened max)) ↔
        AllFit max self steps
  | self, [] => by simp [backOffs, AllFit]
  | self, (c, draw) :: steps => by
    have hstep := backOff_within_iff c draw self hmax
    have hrest := backOffs_within_iff hmax (repeaterBackOff c draw self max) steps
    rw [timeout_backOff] at hrest
    rw [AllFit, backOffs, List.map_cons, List.isChain_cons_cons, List.forall_mem_cons, ← hrest, ← hstep, NotShortened]
    constructor
    · rintro ⟨⟨hle, hall⟩, hnot, hchain⟩
      refine ⟨⟨hle, ?_⟩, hall, hchain⟩
      -- a timeout above the maximum would still be waited for
      have := waits_of_ge c draw self hmax
      rcases Nat.lt_or_ge self.timeout.toNat max.toNat with hlt | hge
      · omega
      · specialize this (UInt32.le_iff_toNat_le.2 hge)
        omega
    · rintro ⟨⟨hle, hmin⟩, hall, hchain⟩
      refine ⟨⟨hle, hall⟩, ?_, hchain⟩
      intro h
      omega

/-- A back-off waits at most the maximum and at least as long as before, or the maximum, exactly when the
timeout `Fits`; and over any run of back-offs no waiting time exceeds the maximum and none at most the maximum
is followed by a shorter one exactly when every timeout on the way does. -/
theorem repeaterBackOff_bounded_iff (self : Repeater) (max : UInt32) (hmax : 0 < max) :
    (∀ (c : Clock) (draw : UInt32),
        ((repeaterBackOff c draw self max).waits ≤ max.toNat ∧
            min (self.timeout.toNat : Int) max.toNat ≤ (repeaterBackOff c draw self max).waits) ↔
          Fits draw self.timeout max) ∧
      ∀ steps : List (Clock × UInt32),
        ((∀ r ∈ backOffs max self steps, r.waits ≤ max.toNat) ∧
            ((self.timeout.toNat : Int) :: (backOffs max self steps).map Repeater.waits).IsChain (NotShortened max)) ↔
          AllFit max self steps :=
  ⟨fun c draw => backOff_within_iff c draw self hmax, backOffs_within_iff hmax self⟩

theorem repeaterBackOff_bounded_iff_ten :
    AllFit 10 repeaterInit (List.replicate 6 (⟨0, 0, 0, ⟨0, 0, 0⟩⟩, 1)) ∧
      (∀ r ∈ backOffs 10 repeaterInit (List.replicate 6 (⟨0, 0, 0, ⟨0, 0, 0⟩⟩, 1)), r.waits ≤ (10 : UInt32).toNat) :=
  have hfit : AllFit 10 repeaterInit (List.replicate 6 (⟨0, 0, 0, ⟨0, 0, 0⟩⟩, 1)) := by
    simp only [List.replicate, AllFit]
    decide
  ⟨hfit, (((repeaterBackOff_bounded_iff repeaterInit 10 (by decide)).2 _).2 hfit).1⟩

/-- A timeout set above the maximum is waited for as it is: what is returned for it is not stored. An increase
that does not fit in 32 bits makes the timeout shorter. -/
theorem repeaterBackOff_above_and_shorter :
    ¬ (repeaterBackOff ⟨0, 0, 0, ⟨0, 0, 0⟩⟩ 0 (repeaterSetTimeout repeaterInit 10) 5).waits ≤ (5 : UInt32).toNat ∧
      ¬ min ((3000000000 : UInt32).toNat : Int) (4294967295 : UInt32).toNat ≤
        (repeaterBackOff ⟨0, 0, 0, ⟨0, 0, 0⟩⟩ 0 (repeaterSetTimeout repeaterInit 3000000000) 4294967295).waits := by
  decide

end CMx
