/-
Loops, for any state: a round is a partial function, which has no result where the loop stops, and the loop
runs it until then. When every round makes some measure smaller, the loop ends, and as many rounds as the
measure says are enough for it.
-/
import Mathlib.Computability.StateTransition
import Mathlib.Tactic

namespace Loop

open StateTransition (eval)

variable {σ : Type} {round : σ → Option σ}

/-- At most `n` rounds. -/
def rounds (round : σ → Option σ) : (n : Nat) → σ → σ
  | 0, s => s
  | n + 1, s =>
    match round s with
    | none => s
    | some s' => rounds round n s'

theorem rounds_stop {s : σ} (h : round s = none) (n : Nat) : rounds round (n + 1) s = s := by
  rw [rounds, h]

theorem rounds_next {s s' : σ} (h : round s = some s') (n : Nat) : rounds round (n + 1) s = rounds round n s' := by
  rw [rounds, h]

section Measure

variable {measure : σ → Nat} (hless : ∀ s s', round s = some s' → measure s' < measure s)
include hless

/-- The bounded loop comes to where the loop stops. -/
theorem rounds_mem_eval : ∀ {n : Nat} {s : σ}, measure s ≤ n → rounds round n s ∈ eval round s
  | 0, s, h => by
    refine StateTransition.mem_eval.2 ⟨Relation.ReflTransGen.refl, ?_⟩
    by_contra hround
    obtain ⟨s', hs'⟩ := Option.ne_none_iff_exists'.1 hround
    have := hless s s' hs'
    omega
  | n + 1, s, h => by
    cases hround : round s with
    | none =>
      rw [rounds_stop hround]
      exact StateTransition.mem_eval.2 ⟨Relation.ReflTransGen.refl, hround⟩
    | some s' =>
      rw [rounds_next hround]
      have hs' := hless s s' hround
      obtain ⟨hreaches, hstop⟩ := StateTransition.mem_eval.1 (@rounds_mem_eval n s' (by omega))
      exact StateTransition.mem_eval.2 ⟨Relation.ReflTransGen.head hround hreaches, hstop⟩

/-- The loop ends, in the state that the bounded loop comes to. -/
theorem eval_eq_rounds {n : Nat} {s : σ} (h : measure s ≤ n) : eval round s = Part.some (rounds round n s) :=
  Part.eq_some_iff.2 (rounds_mem_eval hless h)

end Measure

end Loop
