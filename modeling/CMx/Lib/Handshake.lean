/-
The two-phase handshake that delivers one message exactly once over two reliable FIFO channels,
with retransmission, abandonment and duplicated packets: the sender publishes until it is told
"received", then releases until it is told "complete"; the receiver holds the message until it is
released. In every state reachable from the idle one the message has been delivered at most once,
and exactly once when the sender has seen its release completed.
-/
import Mathlib.Logic.Relation
import Mathlib.Tactic

namespace Handshake

/-! ## The two parties and the channels -/

/-- The sender's packets. -/
inductive Request where
  | publish
  | release
  deriving DecidableEq

/-- The receiver's packets. -/
inductive Response where
  | received
  | complete
  deriving DecidableEq

/-- The sender's queued copies of both packets, the packets in flight in both directions, and the
receiver's side: whether it holds the message and how often it has delivered it. -/
structure State where
  submitted : Bool
  publishes : Nat
  releases : Nat
  forward : List Request
  backward : List Response
  held : Bool
  delivered : Nat
  completed : Bool

/-- Nothing has been submitted. -/
def State.idle : State := ⟨false, 0, 0, [], [], false, 0, false⟩

/-- One step of either party. The message is submitted once; queued packets may be retransmitted
and abandoned at any time. -/
inductive Step : State → State → Prop where
  | submit {s : State} (now : Bool) : s.submitted = false →
      Step s { s with submitted := true, publishes := s.publishes + 1,
                      forward := s.forward ++ if now then [.publish] else [] }
  | resendPublish {s : State} : 0 < s.publishes → Step s { s with forward := s.forward ++ [.publish] }
  | resendRelease {s : State} : 0 < s.releases → Step s { s with forward := s.forward ++ [.release] }
  | dropPublish {s : State} : Step s { s with publishes := s.publishes - 1 }
  | dropRelease {s : State} : Step s { s with releases := s.releases - 1 }
  | received {s : State} {rest : List Response} : s.backward = .received :: rest →
      Step s { s with backward := rest, publishes := 0, releases := s.releases + 1,
                      forward := s.forward ++ [.release] }
  | complete {s : State} {rest : List Response} : s.backward = .complete :: rest →
      Step s { s with backward := rest, releases := 0, completed := s.completed || decide (0 < s.releases) }
  | publish {s : State} {rest : List Request} : s.forward = .publish :: rest →
      Step s { s with forward := rest, held := true, backward := s.backward ++ [.received] }
  | release {s : State} {rest : List Request} : s.forward = .release :: rest →
      Step s { s with forward := rest, held := false, backward := s.backward ++ [.complete],
                      delivered := s.delivered + if s.held then 1 else 0 }

/-- Any number of steps. -/
abbrev Steps : State → State → Prop := Relation.ReflTransGen Step

/-- Queued publishes may go one by one. -/
theorem steps_dropPublishes (s : State) (k : Nat) : Steps s { s with publishes := s.publishes - k } := by
  induction k with
  | zero => exact .refl
  | succ k ih => exact ih.tail .dropPublish

/-! ## The invariant -/

/-- Nothing is in flight before the submission; publishes travel ahead of releases; a release
means that the sender has stopped publishing and the receiver has the message or has delivered it;
so does a "received"; after the delivery no publish is left anywhere; a "complete" comes after the
delivery. -/
structure Inv (s : State) : Prop where
  idle : s.submitted = false → s = .idle
  order : s.forward.Pairwise fun a b => a = .release → b = .release
  released : 0 < s.releases ∨ .release ∈ s.forward → s.publishes = 0 ∧ (s.held = true ∨ s.delivered = 1)
  received : .received ∈ s.backward → s.held = true ∨ s.delivered = 1
  once : s.delivered ≤ 1
  spent : s.delivered = 1 → s.held = false ∧ .publish ∉ s.forward ∧ s.publishes = 0
  complete : .complete ∈ s.backward ∨ s.completed = true → s.delivered = 1

theorem inv_idle : Inv .idle := by
  constructor <;> simp [State.idle]

/-- A packet may be put behind the others: always a release, a publish if no release is ahead. -/
theorem order_concat {l : List Request} (h : l.Pairwise fun a b => a = .release → b = .release) (r : Request)
    (hr : r = .release ∨ .release ∉ l) : (l ++ [r]).Pairwise fun a b => a = .release → b = .release := by
  rw [List.pairwise_append]
  refine ⟨h, List.pairwise_singleton .., fun a ha b hb hab => ?_⟩
  rw [List.mem_singleton] at hb; subst hb; subst hab
  exact hr.resolve_right fun hn => hn ha

/-- While a publish is queued no release is. -/
theorem Inv.publishing {s : State} (i : Inv s) (h : 0 < s.publishes) :
    s.releases = 0 ∧ .release ∉ s.forward ∧ s.delivered = 0 := by
  refine ⟨?_, fun hf => ?_, ?_⟩
  · by_contra hr
    have := (i.released (.inl (by omega))).1; omega
  · have := (i.released (.inr hf)).1; omega
  · have h1 := i.once
    by_contra hd
    have := (i.spent (by omega)).2.2; omega

theorem Inv.submitted {s : State} (i : Inv s) (h : s ≠ .idle) : s.submitted ≠ false := fun hs => h (i.idle hs)

/-- Once there is a release, the message is held or has been delivered, and not both. -/
theorem Inv.accounted {s : State} (i : Inv s) (h : 0 < s.releases ∨ .release ∈ s.forward) :
    s.delivered + (if s.held then 1 else 0) = 1 := by
  have h1 := i.once
  cases hh : s.held with
  | true =>
    have : s.delivered ≠ 1 := fun h => by rw [(i.spent h).1] at hh; cases hh
    simp only [if_true]; omega
  | false =>
    have := (i.released h).2.resolve_left (by simp [hh])
    simpa using this

/-- Behind a release only releases travel. -/
theorem publish_not_mem {rest : List Request}
    (h : (.release :: rest).Pairwise fun a b => a = Request.release → b = .release) : .publish ∉ rest := by
  intro hp
  have := (List.pairwise_cons.1 h).1 _ hp rfl
  cases this

theorem inv_step {s s' : State} (i : Inv s) (h : Step s s') : Inv s' := by
  cases h with
  | submit now hs =>
    have hid := i.idle hs
    subst hid
    cases now <;> constructor <;> simp [State.idle]
  | resendPublish hp =>
    obtain ⟨hr, hf, hd⟩ := i.publishing hp
    have hsub := i.submitted (by rintro rfl; cases hp)
    refine ⟨fun h => absurd h hsub, order_concat i.order _ (.inr hf), ?_, i.received, i.once, ?_, i.complete⟩
    · intro h
      simp only [hr, List.mem_append, List.mem_singleton, hf, reduceCtorEq, or_false] at h
      exact absurd h (by simp)
    · intro h; simp only at h; omega
  | resendRelease hp =>
    have hsub := i.submitted (by rintro rfl; cases hp)
    have hrel := i.released (.inl hp)
    refine ⟨fun h => absurd h hsub, order_concat i.order _ (.inl rfl), fun _ => hrel, i.received, i.once, ?_,
      i.complete⟩
    intro h
    obtain ⟨h1, h2, h3⟩ := i.spent h
    exact ⟨h1, by simpa using h2, h3⟩
  | dropPublish =>
    refine ⟨fun h => ?_, i.order, fun h => ?_, i.received, i.once, fun h => ?_, i.complete⟩
    · have := i.idle h; subst this; rfl
    · obtain ⟨h1, h2⟩ := i.released h
      exact ⟨by simp only; omega, h2⟩
    · obtain ⟨h1, h2, h3⟩ := i.spent h
      exact ⟨h1, h2, by simp only; omega⟩
  | dropRelease =>
    refine ⟨fun h => ?_, i.order, fun h => ?_, i.received, i.once, i.spent, i.complete⟩
    · have := i.idle h; subst this; rfl
    · exact i.released (h.imp (fun h => by simp only at h; omega) id)
  -- the answer has come: publishing is over and the release goes out
  | received hb =>
    have hsub := i.submitted (by rintro rfl; cases hb)
    have hrec := i.received (by rw [hb]; exact List.mem_cons_self ..)
    refine ⟨fun h => absurd h hsub, order_concat i.order _ (.inl rfl), fun _ => ⟨rfl, hrec⟩, fun _ => hrec, i.once,
      fun h => ?_, fun h => ?_⟩
    · obtain ⟨h1, h2, -⟩ := i.spent h
      exact ⟨h1, by simpa using h2, rfl⟩
    · exact i.complete (h.imp (fun h => by rw [hb]; exact List.mem_cons_of_mem _ h) id)
  | complete hb =>
    have hsub := i.submitted (by rintro rfl; cases hb)
    have hdone : s.delivered = 1 := i.complete (.inl (by rw [hb]; exact List.mem_cons_self ..))
    refine ⟨fun h => absurd h hsub, i.order, fun h => ?_, fun h => .inr hdone, i.once, i.spent, fun _ => hdone⟩
    exact i.released (.inr (by simpa using h))
  | publish hf =>
    have hsub := i.submitted (by rintro rfl; cases hf)
    have hmem : .publish ∈ s.forward := by rw [hf]; exact List.mem_cons_self ..
    have hnot : s.delivered ≠ 1 := fun h => (i.spent h).2.1 hmem
    have hord := i.order
    rw [hf, List.pairwise_cons] at hord
    refine ⟨fun h => absurd h hsub, hord.2, fun h => ?_, fun _ => .inl rfl, i.once, fun h => absurd h hnot, fun h => ?_⟩
    · refine ⟨(i.released (h.imp id fun h => ?_)).1, .inl rfl⟩
      rw [hf]; exact List.mem_cons_of_mem _ h
    · exact i.complete (h.imp (fun h => by simpa using h) id)
  -- the release is what delivers, and it finds the message held
  | release hf =>
    have hsub := i.submitted (by rintro rfl; cases hf)
    have hmem : .release ∈ s.forward := by rw [hf]; exact List.mem_cons_self ..
    have hrel := i.released (.inr hmem)
    have hdel := i.accounted (.inr hmem)
    have hord := i.order
    rw [hf] at hord
    refine ⟨fun h => absurd h hsub, hord.tail, fun _ => ⟨hrel.1, .inr hdel⟩, fun _ => .inr hdel, by simp only; omega,
      fun _ => ⟨rfl, publish_not_mem hord, hrel.1⟩, fun _ => hdel⟩

theorem steps_inv {s s' : State} (i : Inv s) (h : Steps s s') : Inv s' := by
  induction h with
  | refl => exact i
  | tail _ h ih => exact inv_step ih h

/-- At most one delivery, and exactly one once the release is known to be complete. -/
theorem delivered_once {s : State} (h : Steps .idle s) :
    s.delivered ≤ 1 ∧ (s.completed = true → s.delivered = 1) :=
  have i := steps_inv inv_idle h
  ⟨i.once, fun hc => i.complete (.inr hc)⟩

end Handshake
