/-
A stop-and-wait send queue, for any kind of message: messages wait in submission order and only
the head is transmitted, a resend timer retransmits the head a bounded number of times and then
drops it, an acknowledgement removes messages anywhere, and urgent messages jump to the front and
are transmitted at once. Results over whole runs: nothing behind the first ordinary message has
been transmitted, ordinary messages are first transmitted in submission order, a message that has
left the queue is never transmitted again, and a message is dropped only after `limit`
transmissions as long as every acknowledgement leaves a head that the attempt counter fits.
-/
import Mathlib.Tactic

namespace ResendQueue

variable {κ : Type}

/-! ## The queue and its steps -/

/-- A queued message: its submission number, whether it jumps the queue, and what an
acknowledgement compares. -/
structure Entry (κ : Type) where
  tag : Nat
  urgent : Bool
  key : κ

/-- What happened to messages: a transmission, or a drop without acknowledgement. -/
inductive Event where
  | sent (tag : Nat) (urgent : Bool)
  | dropped (tag : Nat)
  deriving DecidableEq

/-- The queue, whether its timer runs, the attempt counter, the next submission number and the
history. -/
structure State (κ : Type) where
  entries : List (Entry κ)
  armed : Bool
  attempts : Nat
  next : Nat
  history : List Event

/-- The queue nothing has been submitted to. -/
def State.empty : State κ := ⟨[], false, 0, 0, []⟩

inductive Act (κ : Type) where
  /-- A message is submitted; one that need not be kept is forgotten if it can be sent at once. -/
  | submit (key : κ) (keep : Bool)
  /-- An urgent message is put in front and sent. -/
  | urgent (key : κ)
  /-- An acknowledgement of the messages satisfying `p`. -/
  | ack (p : κ → Bool)
  /-- An acknowledgement that an urgent message answers, with the timer and the counter anew. -/
  | exchange (p : κ → Bool) (key : κ)
  /-- The timer, if it runs, expires. -/
  | timeout
  /-- The head is sent if no timer runs. -/
  | kick

def State.send (s : State κ) (e : Entry κ) : State κ :=
  { s with history := s.history ++ [.sent e.tag e.urgent] }

def State.acknowledge (s : State κ) (p : κ → Bool) : State κ :=
  { s with entries := s.entries.filter (fun e => !p e.key),
           armed := s.armed && !s.entries.any (fun e => p e.key) }

def State.jump (s : State κ) (key : κ) : State κ :=
  State.send { s with entries := ⟨s.next, true, key⟩ :: s.entries, next := s.next + 1 } ⟨s.next, true, key⟩

/-- One step of the queue, with at most `limit` transmissions per timer run. -/
def step (limit : Nat) (s : State κ) : Act κ → State κ
  | .submit key keep =>
    let e : Entry κ := ⟨s.next, false, key⟩
    let s := { s with next := s.next + 1 }
    if s.entries.isEmpty then
      if keep then { s.send e with entries := [e], armed := true, attempts := 0 } else s.send e
    else { s with entries := s.entries ++ [e] }
  | .urgent key => s.jump key
  | .ack p => s.acknowledge p
  | .exchange p key => { (s.acknowledge p).jump key with armed := true, attempts := 0 }
  | .timeout =>
    if s.armed then
      match s.entries with
      | [] => s
      | e :: rest =>
        if s.attempts + 1 < limit then { s.send e with attempts := s.attempts + 1 }
        else { s with entries := rest, armed := false, attempts := 0,
                      history := s.history ++ [.dropped e.tag] }
    else s
  | .kick =>
    if s.armed then s
    else
      match s.entries with
      | [] => s
      | e :: _ => { s.send e with armed := true }

/-- A run of the queue. -/
def run (limit : Nat) (s : State κ) (acts : List (Act κ)) : State κ := acts.foldl (step limit) s

@[simp] theorem run_nil (limit : Nat) (s : State κ) : run limit s [] = s := rfl

@[simp] theorem run_cons (limit : Nat) (s : State κ) (a : Act κ) (acts : List (Act κ)) :
    run limit s (a :: acts) = run limit (step limit s a) acts := rfl

theorem run_append (limit : Nat) (s : State κ) (acts acts' : List (Act κ)) :
    run limit s (acts ++ acts') = run limit (run limit s acts) acts' := List.foldl_append

/-- What every step preserves holds along every run. -/
theorem run_inv {limit : Nat} {P : State κ → Prop} (hstep : ∀ s a, P s → P (step limit s a))
    {s : State κ} (h : P s) (acts : List (Act κ)) : P (run limit s acts) :=
  List.foldlRecOn acts _ h fun s hs a _ => hstep s a hs

/-! ## Reading the history -/

/-- The transmissions of a history. -/
def sentTags (h : List Event) : List Nat :=
  h.filterMap fun
    | .sent t _ => some t
    | .dropped _ => none

/-- The transmissions of ordinary messages. -/
def ordinaryTags (h : List Event) : List Nat :=
  h.filterMap fun
    | .sent t false => some t
    | _ => none

/-- How often a message has been transmitted. -/
def State.sentCount (s : State κ) (t : Nat) : Nat := (sentTags s.history).count t

@[simp] theorem sentTags_append (h h' : List Event) : sentTags (h ++ h') = sentTags h ++ sentTags h' :=
  List.filterMap_append

@[simp] theorem ordinaryTags_append (h h' : List Event) :
    ordinaryTags (h ++ h') = ordinaryTags h ++ ordinaryTags h' := List.filterMap_append

@[simp] theorem sentTags_nil : sentTags [] = [] := rfl
@[simp] theorem sentTags_sent (t : Nat) (u : Bool) (h : List Event) :
    sentTags (.sent t u :: h) = t :: sentTags h := rfl
@[simp] theorem sentTags_dropped (t : Nat) (h : List Event) : sentTags (.dropped t :: h) = sentTags h := rfl
@[simp] theorem ordinaryTags_nil : ordinaryTags [] = [] := rfl
@[simp] theorem ordinaryTags_ordinary (t : Nat) (h : List Event) :
    ordinaryTags (.sent t false :: h) = t :: ordinaryTags h := rfl
@[simp] theorem ordinaryTags_urgent (t : Nat) (h : List Event) :
    ordinaryTags (.sent t true :: h) = ordinaryTags h := rfl
@[simp] theorem ordinaryTags_dropped (t : Nat) (h : List Event) :
    ordinaryTags (.dropped t :: h) = ordinaryTags h := rfl

theorem ordinaryTags_subset (h : List Event) : ∀ t ∈ ordinaryTags h, t ∈ sentTags h := by
  intro t ht
  obtain ⟨e, he, hte⟩ := List.mem_filterMap.1 ht
  refine List.mem_filterMap.2 ⟨e, he, ?_⟩
  cases e with
  | sent t' u => cases u <;> simp_all
  | dropped t' => cases hte

@[simp] theorem sentCount_send (s : State κ) (e : Entry κ) (t : Nat) :
    (s.send e).sentCount t = s.sentCount t + if e.tag = t then 1 else 0 := by
  by_cases h : e.tag = t <;> simp [State.send, State.sentCount, h]

@[simp] theorem send_entries (s : State κ) (e : Entry κ) : (s.send e).entries = s.entries := rfl
@[simp] theorem send_armed (s : State κ) (e : Entry κ) : (s.send e).armed = s.armed := rfl
@[simp] theorem send_attempts (s : State κ) (e : Entry κ) : (s.send e).attempts = s.attempts := rfl
@[simp] theorem send_next (s : State κ) (e : Entry κ) : (s.send e).next = s.next := rfl
@[simp] theorem send_history (s : State κ) (e : Entry κ) :
    (s.send e).history = s.history ++ [.sent e.tag e.urgent] := rfl

/-! ## The send window -/

/-- Each value at its first occurrence, in order. -/
def firsts (l : List Nat) : List Nat := l.reverse.dedup.reverse

theorem mem_firsts {l : List Nat} {t : Nat} : t ∈ firsts l ↔ t ∈ l := by simp [firsts]

theorem firsts_concat_mem {l : List Nat} {t : Nat} (h : t ∈ l) : firsts (l ++ [t]) = firsts l := by
  simp [firsts, List.dedup_cons_of_mem (List.mem_reverse.2 h)]

theorem firsts_concat_new {l : List Nat} {t : Nat} (h : t ∉ l) : firsts (l ++ [t]) = firsts l ++ [t] := by
  simp [firsts, List.dedup_cons_of_notMem (mt List.mem_reverse.1 h)]

/-- The window invariant: urgent entries stand in front, tags are issued below `next`, ordinary
entries stand in submission order, an ordinary entry that has not been transmitted was submitted
after everything that has, and nothing behind an ordinary entry has been transmitted. -/
structure Window (s : State κ) : Prop where
  front : s.entries.Pairwise fun a b => b.urgent = true → a.urgent = true
  issued : ∀ e ∈ s.entries, e.tag < s.next
  sentIssued : ∀ t ∈ sentTags s.history, t < s.next
  order : s.entries.Pairwise fun a b => a.urgent = false → a.tag < b.tag
  nodup : (s.entries.map (·.tag)).Nodup
  fresh : ∀ e ∈ s.entries, e.urgent = false → e.tag ∉ ordinaryTags s.history →
    ∀ t ∈ ordinaryTags s.history, t < e.tag
  waiting : s.entries.Pairwise fun a b => a.urgent = false → b.tag ∉ sentTags s.history
  inOrder : (firsts (ordinaryTags s.history)).Pairwise (· < ·)

theorem window_empty : Window (State.empty : State κ) :=
  ⟨.nil, by simp [State.empty], by simp [State.empty, sentTags], .nil, by simp [State.empty],
    by simp [State.empty], .nil, by simp [State.empty, ordinaryTags, firsts]⟩

/-- Entries may leave the queue, and drops may be recorded. -/
theorem Window.shrink {s s' : State κ} (w : Window s) (he : s'.entries.Sublist s.entries)
    (hn : s'.next = s.next) (hs : sentTags s'.history = sentTags s.history)
    (ho : ordinaryTags s'.history = ordinaryTags s.history) : Window s' := by
  refine ⟨w.front.sublist he, ?_, ?_, w.order.sublist he, w.nodup.sublist (he.map _), ?_, ?_, ?_⟩
  · intro e h; rw [hn]; exact w.issued e (he.subset h)
  · rw [hs, hn]; exact w.sentIssued
  · intro e h; rw [ho]; exact w.fresh e (he.subset h)
  · rw [hs]; exact w.waiting.sublist he
  · rw [ho]; exact w.inOrder

/-- The head may be transmitted. -/
theorem Window.send_head {s : State κ} (w : Window s) {e : Entry κ} {rest : List (Entry κ)}
    (he : s.entries = e :: rest) : Window (s.send e) := by
  have hmem : e ∈ s.entries := by rw [he]; exact List.mem_cons_self ..
  have hnd := w.nodup
  have hord := w.order
  have hwait := w.waiting
  have hfront := w.front
  rw [he] at hnd hord hwait hfront
  rw [List.map_cons, List.nodup_cons] at hnd
  rw [List.pairwise_cons] at hord hwait hfront
  -- an ordinary entry behind the head is not the head
  have hne : ∀ b ∈ rest, b.tag ≠ e.tag := fun b hb h => hnd.1 (h ▸ List.mem_map_of_mem hb)
  refine ⟨w.front, w.issued, ?_, w.order, w.nodup, ?_, ?_, ?_⟩
  · intro t ht
    simp only [send_history, sentTags_append, sentTags_sent, sentTags_nil, List.mem_append, List.mem_singleton] at ht
    rcases ht with ht | rfl
    · exact w.sentIssued t ht
    · exact w.issued e hmem
  · intro b hb hbu hbs t ht
    simp only [send_history, ordinaryTags_append, List.mem_append, not_or] at hbs ht
    rcases ht with ht | ht
    · exact w.fresh b hb hbu hbs.1 t ht
    · cases heu : e.urgent with
      | true => rw [heu] at ht; simp at ht
      | false =>
        rw [heu, ordinaryTags_ordinary, ordinaryTags_nil, List.mem_singleton] at ht hbs
        subst ht
        rw [send_entries, he] at hb
        rcases List.mem_cons.1 hb with rfl | hb
        · exact absurd rfl hbs.2
        · exact hord.1 b hb heu
  · rw [send_entries, he, List.pairwise_cons]
    have key : ∀ b ∈ rest, b.tag ∉ sentTags s.history → b.tag ∉ sentTags (s.send e).history := by
      intro b hb h
      simp only [send_history, sentTags_append, sentTags_sent, sentTags_nil, List.mem_append, List.mem_singleton, not_or]
      exact ⟨h, hne b hb⟩
    refine ⟨fun b hb hu => key b hb (hwait.1 b hb hu), ?_⟩
    exact hwait.2.imp_of_mem fun {a b} _ hb h hu => key b hb (h hu)
  · cases heu : e.urgent with
    | true => simpa [heu] using w.inOrder
    | false =>
      rw [send_history, ordinaryTags_append, heu, ordinaryTags_ordinary, ordinaryTags_nil]
      by_cases hin : e.tag ∈ ordinaryTags s.history
      · rw [firsts_concat_mem hin]; exact w.inOrder
      · rw [firsts_concat_new hin, List.pairwise_append]
        refine ⟨w.inOrder, List.pairwise_singleton .., fun a ha b hb => ?_⟩
        rw [List.mem_singleton] at hb; subst hb
        exact w.fresh e hmem heu hin a (mem_firsts.1 ha)

/-- A message may be appended at the end. -/
theorem Window.append {s : State κ} (w : Window s) (key : κ) :
    Window { s with entries := s.entries ++ [⟨s.next, false, key⟩], next := s.next + 1 } := by
  have hnew : s.next ∉ sentTags s.history := fun h => Nat.lt_irrefl _ (w.sentIssued _ h)
  refine ⟨?_, ?_, ?_, ?_, ?_, ?_, ?_, w.inOrder⟩
  · rw [List.pairwise_append]
    exact ⟨w.front, List.pairwise_singleton .., fun a _ b hb h => by
      rw [List.mem_singleton] at hb; subst hb; cases h⟩
  · intro e he
    rcases List.mem_append.1 he with he | he
    · have := w.issued e he; simp only; omega
    · rw [List.mem_singleton] at he; subst he; exact Nat.lt_succ_self _
  · intro t ht
    have := w.sentIssued t ht; simp only; omega
  · rw [List.pairwise_append]
    exact ⟨w.order, List.pairwise_singleton .., fun a ha b hb _ => by
      rw [List.mem_singleton] at hb; subst hb; exact w.issued a ha⟩
  · rw [List.map_append, List.nodup_append]
    refine ⟨w.nodup, List.nodup_singleton _, fun a ha b hb => ?_⟩
    obtain ⟨e, he, rfl⟩ := List.mem_map.1 ha
    have := w.issued e he
    simp at hb; omega
  · intro e he heu hes t ht
    rcases List.mem_append.1 he with he | he
    · exact w.fresh e he heu hes t ht
    · rw [List.mem_singleton] at he; subst he
      exact w.sentIssued t (ordinaryTags_subset _ t ht)
  · rw [List.pairwise_append]
    exact ⟨w.waiting, List.pairwise_singleton .., fun a _ b hb _ => by
      rw [List.mem_singleton] at hb; subst hb; exact hnew⟩

/-- An urgent message may be put in front. -/
theorem Window.cons {s : State κ} (w : Window s) (key : κ) :
    Window { s with entries := ⟨s.next, true, key⟩ :: s.entries, next := s.next + 1 } := by
  refine ⟨?_, ?_, ?_, ?_, ?_, ?_, ?_, w.inOrder⟩
  · rw [List.pairwise_cons]; exact ⟨fun _ _ _ => rfl, w.front⟩
  · intro e he
    rcases List.mem_cons.1 he with rfl | he
    · exact Nat.lt_succ_self _
    · have := w.issued e he; simp only; omega
  · intro t ht
    have := w.sentIssued t ht; simp only; omega
  · rw [List.pairwise_cons]; exact ⟨fun _ _ h => by (cases h), w.order⟩
  · rw [List.map_cons, List.nodup_cons]
    refine ⟨fun h => ?_, w.nodup⟩
    obtain ⟨e, he, heq⟩ := List.mem_map.1 h
    have := w.issued e he
    simp only at heq; omega
  · intro e he heu hes t ht
    rcases List.mem_cons.1 he with rfl | he
    · cases heu
    · exact w.fresh e he heu hes t ht
  · rw [List.pairwise_cons]; exact ⟨fun _ _ h => by (cases h), w.waiting⟩

/-- The window depends on neither the timer nor the attempt counter. -/
theorem Window.timer {s : State κ} (w : Window s) (armed : Bool) (attempts : Nat) :
    Window { s with armed := armed, attempts := attempts } :=
  w.shrink (List.Sublist.refl _) rfl rfl rfl

theorem Window.jump {s : State κ} (w : Window s) (key : κ) : Window (s.jump key) :=
  (w.cons key).send_head rfl

theorem Window.acknowledge {s : State κ} (w : Window s) (p : κ → Bool) : Window (s.acknowledge p) :=
  w.shrink List.filter_sublist rfl rfl rfl

theorem window_step {limit : Nat} (s : State κ) (a : Act κ) (w : Window s) : Window (step limit s a) := by
  cases a with
  | submit key keep =>
    have happ := w.append key
    -- only a queue that was empty sends at once
    by_cases he : s.entries = []
    · rw [he] at happ
      have hsend := happ.send_head rfl
      cases keep
      · simp only [step, he, List.isEmpty_nil, if_true, Bool.false_eq_true, if_false]
        exact hsend.shrink (by simp) rfl rfl rfl
      · simp only [step, he, List.isEmpty_nil, if_true]
        exact hsend.timer true 0
    · simp only [step, List.isEmpty_iff, he, if_false]
      exact happ
  | urgent key => exact w.jump key
  | ack p => exact w.acknowledge p
  | exchange p key => exact ((w.acknowledge p).jump key).timer true 0
  | timeout =>
    simp only [step]
    split
    · split
      · exact w
      · rename_i e rest he
        split
        · exact (w.send_head he).timer _ _
        · refine w.shrink ?_ rfl (by simp) (by simp)
          rw [he]; exact List.sublist_cons_self ..
    · exact w
  | kick =>
    simp only [step]
    split
    · exact w
    · split
      · exact w
      · rename_i e rest he
        exact (w.send_head he).timer _ _

theorem run_window (limit : Nat) (acts : List (Act κ)) : Window (run limit (.empty : State κ) acts) :=
  run_inv window_step window_empty acts

/-! ## The order of submission -/

/-- The number an action submits. -/
def issued (s : State κ) : Act κ → List Nat
  | .submit _ _ => [s.next]
  | _ => []

/-- The numbers submitted along a run, in order. -/
def submissions (limit : Nat) : State κ → List (Act κ) → List Nat
  | _, [] => []
  | s, a :: acts => issued s a ++ submissions limit (step limit s a) acts

/-- Numbers are issued in ascending order. -/
theorem next_step (limit : Nat) (s : State κ) (a : Act κ) :
    s.next ≤ (step limit s a).next ∧ ∀ t ∈ issued s a, t = s.next ∧ t < (step limit s a).next := by
  cases a with
  | submit key keep =>
    have h : (step limit s (.submit key keep)).next = s.next + 1 := by
      simp only [step]
      split
      · split <;> rfl
      · rfl
    rw [h]
    exact ⟨Nat.le_succ _, by simp [issued]⟩
  | urgent key => exact ⟨Nat.le_succ _, by simp [issued]⟩
  | ack p => exact ⟨le_refl _, by simp [issued]⟩
  | exchange p key => exact ⟨Nat.le_succ _, by simp [issued]⟩
  | timeout =>
    refine ⟨?_, by simp [issued]⟩
    simp only [step]
    split
    · split
      · exact le_refl _
      · split <;> exact le_refl _
    · exact le_refl _
  | kick =>
    refine ⟨?_, by simp [issued]⟩
    simp only [step]
    split
    · exact le_refl _
    · split <;> exact le_refl _

theorem submissions_ascending (limit : Nat) : ∀ (acts : List (Act κ)) (s : State κ),
    (submissions limit s acts).Pairwise (· < ·) ∧ ∀ t ∈ submissions limit s acts, s.next ≤ t
  | [], s => ⟨.nil, by simp [submissions]⟩
  | a :: acts, s => by
    obtain ⟨hle, hissued⟩ := next_step limit s a
    obtain ⟨hsorted, hge⟩ := submissions_ascending limit acts (step limit s a)
    refine ⟨?_, fun t ht => ?_⟩
    · rw [submissions, List.pairwise_append]
      refine ⟨?_, hsorted, fun t ht t' ht' => lt_of_lt_of_le (hissued t ht).2 (hge t' ht')⟩
      cases a <;> simp [issued]
    · rcases List.mem_append.1 ht with ht | ht
      · exact (hissued t ht).1.ge
      · exact hle.trans (hge t ht)

/-- The ordinary messages in the queue and in the history are among the submitted ones. -/
structure Known (submitted : List Nat) (s : State κ) : Prop where
  entries : ∀ e ∈ s.entries, e.urgent = false → e.tag ∈ submitted
  sent : ∀ t ∈ ordinaryTags s.history, t ∈ submitted

theorem Known.send {submitted : List Nat} {s : State κ} (k : Known submitted s) {e : Entry κ}
    (he : e.urgent = false → e.tag ∈ submitted) : Known submitted (s.send e) := by
  refine ⟨k.entries, fun t ht => ?_⟩
  rw [send_history, ordinaryTags_append, List.mem_append] at ht
  rcases ht with ht | ht
  · exact k.sent t ht
  · cases hu : e.urgent with
    | true => rw [hu] at ht; simp at ht
    | false =>
      rw [hu, ordinaryTags_ordinary, ordinaryTags_nil, List.mem_singleton] at ht
      rw [ht]; exact he hu

/-- Entries may leave, and the rest does not matter. -/
theorem Known.shrink {submitted : List Nat} {s s' : State κ} (k : Known submitted s)
    (he : ∀ e ∈ s'.entries, e ∈ s.entries) (hh : ordinaryTags s'.history = ordinaryTags s.history) :
    Known submitted s' :=
  ⟨fun e hm => k.entries e (he e hm), by rw [hh]; exact k.sent⟩

theorem Known.jump {submitted : List Nat} {s : State κ} (k : Known submitted s) (key : κ) :
    Known submitted (s.jump key) := by
  have k' : Known submitted { s with entries := ⟨s.next, true, key⟩ :: s.entries, next := s.next + 1 } := by
    refine ⟨fun e he hu => ?_, k.sent⟩
    rcases List.mem_cons.1 he with rfl | he
    · cases hu
    · exact k.entries e he hu
  refine k'.send fun h => ?_
  cases h

theorem known_step {submitted : List Nat} (limit : Nat) (s : State κ) (a : Act κ) (k : Known submitted s) :
    Known (submitted ++ issued s a) (step limit s a) := by
  have weaken : ∀ l, Known (submitted ++ l) s := fun l =>
    ⟨fun e he hu => List.mem_append_left _ (k.entries e he hu), fun t ht => List.mem_append_left _ (k.sent t ht)⟩
  cases a with
  | submit key keep =>
    have k' := weaken [s.next]
    have hnew : s.next ∈ submitted ++ [s.next] := List.mem_append_right _ (List.mem_singleton.2 rfl)
    have hnext : Known (submitted ++ [s.next]) { s with next := s.next + 1 } := ⟨k'.entries, k'.sent⟩
    have hsend := hnext.send (e := ⟨s.next, false, key⟩) fun _ => hnew
    simp only [step, issued]
    split
    · split
      · refine ⟨fun e he _ => ?_, hsend.sent⟩
        rw [List.mem_singleton] at he; subst he; exact hnew
      · exact hsend
    · refine ⟨fun e he hu => ?_, k'.sent⟩
      rcases List.mem_append.1 he with he | he
      · exact k'.entries e he hu
      · rw [List.mem_singleton] at he; subst he; exact hnew
  -- nothing else is issued a tag: what is sent again has its entry
  | urgent key => exact (weaken []).jump key
  | ack p => exact (weaken []).shrink (fun e he => List.mem_of_mem_filter he) rfl
  | exchange p key =>
    have hack : Known (submitted ++ []) (s.acknowledge p) :=
      (weaken []).shrink (fun e he => List.mem_of_mem_filter he) rfl
    exact (hack.jump key).shrink (fun e he => he) rfl
  | timeout =>
    simp only [step, issued]
    split
    · split
      · exact weaken []
      · rename_i e rest he
        have hmem : e ∈ s.entries := by rw [he]; exact List.mem_cons_self ..
        split
        · exact ((weaken []).send ((weaken []).entries e hmem)).shrink (fun e he => he) rfl
        · refine (weaken []).shrink (fun e' h => ?_) (by simp)
          rw [he]; exact List.mem_cons_of_mem _ h
    · exact weaken []
  | kick =>
    simp only [step, issued]
    split
    · exact weaken []
    · split
      · exact weaken []
      · rename_i e rest he
        have hmem : e ∈ s.entries := by rw [he]; exact List.mem_cons_self ..
        exact ((weaken []).send ((weaken []).entries e hmem)).shrink (fun e he => he) rfl

theorem run_known (limit : Nat) : ∀ (acts : List (Act κ)) {submitted : List Nat} {s : State κ}, Known submitted s →
    Known (submitted ++ submissions limit s acts) (run limit s acts)
  | [], submitted, s, k => by simpa [submissions] using k
  | a :: acts, submitted, s, k => by
    have := run_known limit acts (known_step limit s a k)
    rwa [List.append_assoc] at this

/-- Ordinary messages are first transmitted in the order of their submission. -/
theorem firsts_sublist (limit : Nat) (acts : List (Act κ)) :
    (firsts (ordinaryTags (run limit (.empty : State κ) acts).history)).Sublist (submissions limit .empty acts) := by
  have hsorted := (run_window limit acts).inOrder
  have hknown : Known ([] ++ submissions limit .empty acts) (run limit (.empty : State κ) acts) :=
    run_known limit acts ⟨by simp [State.empty], by simp [State.empty]⟩
  refine List.sublist_of_subperm_of_pairwise ?_ (hsorted.imp le_of_lt)
    ((submissions_ascending limit acts .empty).1.imp le_of_lt)
  refine List.subperm_of_subset (hsorted.imp ne_of_lt) fun t ht => ?_
  simpa using hknown.sent t (mem_firsts.1 ht)

/-! ## The attempt budget -/

/-- The transmissions the attempt counter stands for: one more while the timer runs. -/
def State.budget (s : State κ) : Nat := s.attempts + if s.armed then 1 else 0

/-- The head has been transmitted as often as the attempt counter says, and every drop so far came
after `limit` transmissions. -/
structure Budget (limit : Nat) (s : State κ) : Prop where
  head : ∀ e, s.entries.head? = some e → s.budget ≤ s.sentCount e.tag
  drops : ∀ pre t post, s.history = pre ++ .dropped t :: post → limit ≤ (sentTags pre).count t

/-- A step whose new head fits the attempt counter: an acknowledgement that removes something leaves
a head that has been transmitted at least as often as the counter says, and an urgent message comes
while its one transmission is all the counter stands for. -/
def Fair (s : State κ) : Act κ → Prop
  | .ack p => s.entries.any (fun e => p e.key) = true →
      ∀ e, (s.acknowledge p).entries.head? = some e → s.attempts ≤ s.sentCount e.tag
  | .urgent _ => s.budget ≤ 1
  | _ => True

theorem budget_empty (limit : Nat) : Budget limit (State.empty : State κ) :=
  ⟨by simp [State.empty], fun pre t post h => by cases pre <;> cases h⟩

theorem drops_sent {limit : Nat} {h : List Event} {t' : Nat} {u : Bool}
    (hd : ∀ pre t post, h = pre ++ .dropped t :: post → limit ≤ (sentTags pre).count t) :
    ∀ pre t post, h ++ [.sent t' u] = pre ++ .dropped t :: post → limit ≤ (sentTags pre).count t := by
  intro pre t post he
  rcases List.eq_nil_or_concat' post with rfl | ⟨post', e, rfl⟩
  · have := (List.append_inj' he rfl).2
    cases this
  · have he' : h ++ [.sent t' u] = (pre ++ .dropped t :: post') ++ [e] := by simpa using he
    exact hd pre t post' (List.append_inj' he' rfl).1

/-- A further drop that comes after `limit` transmissions. -/
theorem drops_dropped {limit : Nat} {h : List Event} {t' : Nat}
    (hd : ∀ pre t post, h = pre ++ .dropped t :: post → limit ≤ (sentTags pre).count t)
    (hlimit : limit ≤ (sentTags h).count t') :
    ∀ pre t post, h ++ [.dropped t'] = pre ++ .dropped t :: post → limit ≤ (sentTags pre).count t := by
  intro pre t post he
  rcases List.eq_nil_or_concat' post with rfl | ⟨post', e, rfl⟩
  · obtain ⟨h1, h2⟩ := List.append_inj' he rfl
    cases h2
    exact h1 ▸ hlimit
  · have he' : h ++ [.dropped t'] = (pre ++ .dropped t :: post') ++ [e] := by simpa using he
    exact hd pre t post' (List.append_inj' he' rfl).1

section Steps

variable {limit : Nat} {s : State κ} (b : Budget limit s)
include b

theorem budget_submit (key : κ) (keep : Bool) : Budget limit (step limit s (.submit key keep)) := by
  by_cases he : s.entries = []
  · cases keep
    · refine ⟨?_, ?_⟩ <;> simp only [step, he, List.isEmpty_nil, if_true, Bool.false_eq_true, if_false]
      · intro e h; cases h
      · exact drops_sent b.drops
    · refine ⟨?_, ?_⟩ <;> simp only [step, he, List.isEmpty_nil, if_true]
      · rintro e ⟨⟩
        simp [State.budget, State.sentCount]
      · exact drops_sent b.drops
  · refine ⟨?_, ?_⟩ <;> simp only [step, List.isEmpty_iff, he, if_false]
    · intro e h
      rw [List.head?_append_of_ne_nil _ he] at h
      exact b.head e h
    · exact b.drops

theorem budget_ack {p : κ → Bool} (hfair : Fair s (.ack p)) : Budget limit (s.acknowledge p) := by
  refine ⟨?_, b.drops⟩
  intro e h
  by_cases hany : s.entries.any (fun e => p e.key) = true
  · have hb : (s.acknowledge p).budget = s.attempts := by simp [State.budget, State.acknowledge, hany]
    show (s.acknowledge p).budget ≤ s.sentCount e.tag
    rw [hb]; exact hfair hany e h
  · -- nothing was acknowledged: the queue is as it was
    have hsame : (s.acknowledge p) = s := by
      simp only [Bool.not_eq_true] at hany
      have hf : s.entries.filter (fun e => !p e.key) = s.entries := by
        rw [List.filter_eq_self]; simpa using hany
      cases s; simp_all [State.acknowledge]
    rw [hsame] at h ⊢
    exact b.head e h

/-- While the timer runs, the head is sent again or, after `limit` transmissions, dropped. -/
theorem budget_timeout : Budget limit (step limit s .timeout) := by
  simp only [step]
  split
  · rename_i harm
    split
    · exact b
    · rename_i e rest he
      have hhead : s.attempts + 1 ≤ s.sentCount e.tag := by
        have := b.head e (by rw [he]; rfl)
        simpa [State.budget, harm] using this
      split
      · refine ⟨?_, drops_sent b.drops⟩
        intro e' h'
        rw [show ({ s.send e with attempts := s.attempts + 1 } : State κ).entries = s.entries from rfl, he] at h'
        cases h'
        have hc : ({ s.send e with attempts := s.attempts + 1 } : State κ).sentCount e.tag =
            (s.send e).sentCount e.tag := rfl
        rw [hc, sentCount_send]
        simp only [State.budget, send_armed, harm, if_true]
        omega
      · rename_i hlim
        have hlimit : limit ≤ s.sentCount e.tag := le_trans (by omega) hhead
        exact ⟨fun e' _ => by simp [State.budget], drops_dropped b.drops hlimit⟩
  · exact b

theorem budget_kick : Budget limit (step limit s .kick) := by
  simp only [step]
  split
  · exact b
  · rename_i harm
    split
    · exact b
    · rename_i e rest he
      refine ⟨?_, drops_sent b.drops⟩
      intro e' h'
      rw [show ({ s.send e with armed := true } : State κ).entries = s.entries from rfl, he] at h'
      cases h'
      have := b.head e (by rw [he]; rfl)
      have hc : ({ s.send e with armed := true } : State κ).sentCount e.tag = (s.send e).sentCount e.tag := rfl
      rw [hc, sentCount_send]
      simp only [State.budget, harm, send_attempts, if_true, Bool.false_eq_true, if_false] at this ⊢
      omega

end Steps

theorem budget_step {limit : Nat} (s : State κ) (a : Act κ) (hfair : Fair s a) (b : Budget limit s) :
    Budget limit (step limit s a) := by
  cases a with
  | submit key keep => exact budget_submit b key keep
  | urgent key =>
    refine ⟨?_, drops_sent b.drops⟩
    rintro e ⟨⟩
    show (s.jump key).budget ≤ (s.jump key).sentCount s.next
    have h1 : (s.jump key).budget ≤ 1 := hfair
    have h2 : 1 ≤ (s.jump key).sentCount s.next := by simp [State.jump]
    omega
  | ack p => exact budget_ack b hfair
  | exchange p key =>
    refine ⟨?_, drops_sent b.drops⟩
    rintro e ⟨⟩
    simp [step, State.budget, State.jump, State.acknowledge, State.sentCount]
  | timeout => exact budget_timeout b
  | kick => exact budget_kick b

/-- A run all of whose steps are fair. -/
inductive FairRun (limit : Nat) : State κ → List (Act κ) → Prop where
  | nil (s : State κ) : FairRun limit s []
  | cons {s : State κ} {a : Act κ} {acts : List (Act κ)} :
      Fair s a → FairRun limit (step limit s a) acts → FairRun limit s (a :: acts)

theorem run_budget {limit : Nat} {s : State κ} {acts : List (Act κ)} (hf : FairRun limit s acts)
    (b : Budget limit s) : Budget limit (run limit s acts) := by
  induction hf with
  | nil s => exact b
  | cons ha _ ih => exact ih (budget_step _ _ ha b)

/-! ## A message that has left the queue -/

/-- An issued tag that is not in the queue. -/
def Gone (t : Nat) (s : State κ) : Prop := t < s.next ∧ ∀ e ∈ s.entries, e.tag ≠ t

theorem gone_jump {t : Nat} {s : State κ} (g : Gone t s) (key : κ) :
    Gone t (s.jump key) ∧ (s.jump key).sentCount t = s.sentCount t := by
  obtain ⟨hlt, hne⟩ := g
  have hnext : s.next ≠ t := by omega
  refine ⟨⟨by simp only [State.jump, send_next]; omega, fun e he => ?_⟩, ?_⟩
  · rcases List.mem_cons.1 he with rfl | he
    · exact hnext
    · exact hne e he
  · simp [State.jump, State.sentCount, hnext]

/-- A gone message stays gone and is not transmitted again. -/
theorem gone_step {limit : Nat} {t : Nat} (s : State κ) (a : Act κ) (g : Gone t s) :
    Gone t (step limit s a) ∧ (step limit s a).sentCount t = s.sentCount t := by
  obtain ⟨hlt, hne⟩ := g
  -- tags are never given again
  have hnext : s.next ≠ t := by omega
  cases a with
  | submit key keep =>
    simp only [step]
    split
    · split
      · refine ⟨⟨by simp only [send_next]; omega, fun e he => ?_⟩, ?_⟩
        · simp only [List.mem_singleton] at he; subst he; exact hnext
        · simp [State.sentCount, hnext]
      · exact ⟨⟨by simp only [send_next]; omega, hne⟩, by simp [State.sentCount, hnext]⟩
    · refine ⟨⟨by simp only; omega, fun e he => ?_⟩, rfl⟩
      rcases List.mem_append.1 he with he | he
      · exact hne e he
      · rw [List.mem_singleton] at he; subst he; exact hnext
  | urgent key => exact gone_jump ⟨hlt, hne⟩ key
  | ack p => exact ⟨⟨hlt, fun e he => hne e (List.mem_of_mem_filter he)⟩, rfl⟩
  | exchange p key =>
    exact gone_jump (s := s.acknowledge p) ⟨hlt, fun e he => hne e (List.mem_of_mem_filter he)⟩ key
  | timeout =>
    simp only [step]
    split
    · split
      · exact ⟨⟨hlt, hne⟩, rfl⟩
      · rename_i e rest he
        have het : e.tag ≠ t := hne e (by rw [he]; exact List.mem_cons_self ..)
        split
        · exact ⟨⟨hlt, hne⟩, by simp [State.sentCount, het]⟩
        · refine ⟨⟨hlt, fun e' h' => hne e' ?_⟩, by simp [State.sentCount]⟩
          rw [he]; exact List.mem_cons_of_mem _ h'
    · exact ⟨⟨hlt, hne⟩, rfl⟩
  | kick =>
    simp only [step]
    split
    · exact ⟨⟨hlt, hne⟩, rfl⟩
    · split
      · exact ⟨⟨hlt, hne⟩, rfl⟩
      · rename_i e rest he
        have het : e.tag ≠ t := hne e (by rw [he]; exact List.mem_cons_self ..)
        exact ⟨⟨hlt, hne⟩, by simp [State.sentCount, het]⟩

theorem run_gone {limit : Nat} {t : Nat} {s : State κ} (g : Gone t s) (acts : List (Act κ)) :
    (run limit s acts).sentCount t = s.sentCount t := by
  have h : Gone t (run limit s acts) ∧ (run limit s acts).sentCount t = s.sentCount t := by
    refine run_inv (P := fun s' => Gone t s' ∧ s'.sentCount t = s.sentCount t) ?_ ⟨g, rfl⟩ acts
    rintro s' a ⟨hg, hs⟩
    obtain ⟨hg', hs'⟩ := gone_step s' a hg
    exact ⟨hg', hs'.trans hs⟩
  exact h.2

/-! ## A queued message is transmitted -/

/-- The timer expires and the head is sent if no timer runs. -/
def tick (limit : Nat) (s : State κ) : State κ := step limit (step limit s .timeout) .kick

/-- That many expiries. -/
def ticks (limit : Nat) : Nat → State κ → State κ
  | 0, s => s
  | k + 1, s => ticks limit k (tick limit s)

theorem ticks_add (limit : Nat) : ∀ (j k : Nat) (s : State κ), ticks limit (j + k) s = ticks limit k (ticks limit j s)
  | 0, k, s => by simp [ticks]
  | j + 1, k, s => by
    rw [show j + 1 + k = (j + k) + 1 by omega]
    exact ticks_add limit j k (tick limit s)

section Tick

variable {limit : Nat} {s : State κ} {e : Entry κ} {rest : List (Entry κ)}

theorem tick_idle (harm : s.armed = false) (he : s.entries = e :: rest) :
    tick limit s = { s.send e with armed := true } := by
  simp [tick, step, harm, he]

theorem tick_resend (harm : s.armed = true) (he : s.entries = e :: rest) (hl : s.attempts + 1 < limit) :
    tick limit s = { s.send e with attempts := s.attempts + 1 } := by
  simp [tick, step, harm, he, hl]

theorem tick_drop {e' : Entry κ} (harm : s.armed = true) (he : s.entries = e' :: e :: rest)
    (hl : ¬ s.attempts + 1 < limit) :
    (tick limit s).entries = e :: rest ∧ (tick limit s).armed = true ∧ (tick limit s).attempts = 0 ∧
      1 ≤ (tick limit s).sentCount e.tag := by
  simp [tick, step, harm, he, hl, State.sentCount]

variable (limit) in
/-- Expiries alone drop the head and transmit the next message. -/
theorem ticks_next {e' : Entry κ} (he : s.entries = e' :: e :: rest) :
    ∃ k, (ticks limit k s).entries = e :: rest ∧ (ticks limit k s).armed = true ∧
      (ticks limit k s).attempts = 0 ∧ 1 ≤ (ticks limit k s).sentCount e.tag := by
  -- from a running timer, by induction on the attempts left
  have armed : ∀ (left : Nat) (s : State κ), s.armed = true → s.entries = e' :: e :: rest →
      limit ≤ s.attempts + 1 + left →
      ∃ k, (ticks limit k s).entries = e :: rest ∧ (ticks limit k s).armed = true ∧
        (ticks limit k s).attempts = 0 ∧ 1 ≤ (ticks limit k s).sentCount e.tag := by
    intro left
    induction left with
    | zero =>
      intro s harm he hl
      exact ⟨1, tick_drop harm he (by omega)⟩
    | succ left ih =>
      intro s harm he hl
      by_cases hlt : s.attempts + 1 < limit
      · have ht := tick_resend harm he hlt
        obtain ⟨k, hk⟩ := ih (tick limit s) (by rw [ht]; exact harm) (by rw [ht]; exact he)
          (by rw [ht]; simp only; omega)
        exact ⟨k + 1, hk⟩
      · exact ⟨1, tick_drop harm he hlt⟩
  cases harm : s.armed with
  | true => exact armed limit s harm he (by omega)
  | false =>
    have ht : tick limit s = { s.send e' with armed := true } := tick_idle harm he
    obtain ⟨k, hk⟩ := armed limit (tick limit s) (by rw [ht]) (by rw [ht]; exact he) (by omega)
    exact ⟨k + 1, hk⟩

/-- Every message that waits behind another one comes to the head and is transmitted there. -/
theorem ticks_head : ∀ (queue : List (Entry κ)) (s : State κ), queue ≠ [] → s.entries = queue ++ e :: rest →
    ∃ k, (ticks limit k s).entries = e :: rest ∧ (ticks limit k s).armed = true ∧
      (ticks limit k s).attempts = 0 ∧ 1 ≤ (ticks limit k s).sentCount e.tag
  | [], _, hne, _ => absurd rfl hne
  | [e'], _, _, he => ticks_next limit he
  | e' :: e'' :: queue, s, _, he => by
    obtain ⟨k, hk, _⟩ := ticks_next limit he
    obtain ⟨j, hj⟩ := ticks_head (e'' :: queue) (ticks limit k s) (by simp) hk
    exact ⟨k + j, by rw [ticks_add]; exact hj⟩

/-- A message that waits behind another one is transmitted twice if nobody acknowledges it. -/
theorem ticks_resent (hl : 1 < limit) (queue : List (Entry κ)) (s : State κ) (hne : queue ≠ [])
    (he : s.entries = queue ++ e :: rest) : ∃ k, 2 ≤ (ticks limit k s).sentCount e.tag := by
  obtain ⟨k, hk, harm, hatt, hsent⟩ := ticks_head queue s hne he
  refine ⟨k + 1, ?_⟩
  rw [ticks_add]
  show 2 ≤ (tick limit (ticks limit k s)).sentCount e.tag
  rw [tick_resend harm hk (by omega)]
  have : ({ (ticks limit k s).send e with attempts := (ticks limit k s).attempts + 1 } : State κ).sentCount e.tag =
      ((ticks limit k s).send e).sentCount e.tag := rfl
  rw [this, sentCount_send, if_pos rfl]
  omega

end Tick

/-! ## The timer waits for the head -/

/-- The head of the queue has been transmitted. -/
def HeadSent (s : State κ) : Prop := ∃ e rest, s.entries = e :: rest ∧ e.tag ∈ sentTags s.history

/-- A running timer waits for the head of the queue, which has been transmitted. -/
def TimerWaits (s : State κ) : Prop := s.armed = true → HeadSent s

theorem headSent_send {s : State κ} {e : Entry κ} {rest : List (Entry κ)} (he : s.entries = e :: rest) :
    HeadSent (s.send e) := ⟨e, rest, he, by simp⟩

theorem headSent_jump (s : State κ) (key : κ) : HeadSent (s.jump key) := headSent_send rfl

theorem timerWaits_empty : TimerWaits (State.empty : State κ) := fun h => by cases h

/-- An acknowledgement that leaves the timer running has removed nothing. -/
theorem acknowledge_of_armed {s : State κ} {p : κ → Bool} (h : (s.acknowledge p).armed = true) :
    s.armed = true ∧ (s.acknowledge p).entries = s.entries := by
  simp only [State.acknowledge, Bool.and_eq_true, Bool.not_eq_true', List.any_eq_false] at h
  refine ⟨h.1, ?_⟩
  rw [State.acknowledge, List.filter_eq_self]
  intro e he
  simpa using h.2 e he

theorem TimerWaits.acknowledge {s : State κ} (w : TimerWaits s) (p : κ → Bool) : TimerWaits (s.acknowledge p) := by
  intro harm
  obtain ⟨hs, he⟩ := acknowledge_of_armed harm
  obtain ⟨e, rest, hq, hsent⟩ := w hs
  exact ⟨e, rest, he.trans hq, hsent⟩

theorem TimerWaits.submit {s : State κ} (w : TimerWaits s) (limit : Nat) (key : κ) (keep : Bool) :
    TimerWaits (step limit s (.submit key keep)) := by
  intro harm
  by_cases he : s.entries = []
  · cases keep
    · -- the message is forgotten, and no timer runs for an empty queue
      simp only [step, he, List.isEmpty_nil, if_true, Bool.false_eq_true, if_false, send_armed] at harm
      obtain ⟨e, rest, hq, -⟩ := w harm
      rw [he] at hq
      cases hq
    · simp only [step, he, List.isEmpty_nil, if_true]
      exact ⟨_, [], rfl, by simp⟩
  · simp only [step, List.isEmpty_iff, he, if_false] at harm ⊢
    obtain ⟨e, rest, hq, hsent⟩ := w harm
    exact ⟨e, rest ++ [⟨s.next, false, key⟩], by rw [hq]; rfl, hsent⟩

theorem timerWaits_step (limit : Nat) (s : State κ) (a : Act κ) (w : TimerWaits s) : TimerWaits (step limit s a) := by
  cases a with
  | submit key keep => exact w.submit limit key keep
  | urgent key => exact fun _ => headSent_jump s key
  | ack p => exact w.acknowledge p
  | exchange p key => exact fun _ => headSent_jump (s.acknowledge p) key
  | timeout =>
    simp only [step]
    split
    · split
      · exact w
      · rename_i e rest he
        split
        · exact fun _ => headSent_send he
        · exact fun h => by cases h
    · exact w
  | kick =>
    simp only [step]
    split
    · exact w
    · split
      · exact w
      · rename_i e rest he
        exact fun _ => headSent_send he

theorem run_timerWaits (limit : Nat) (acts : List (Act κ)) : TimerWaits (run limit (.empty : State κ) acts) :=
  run_inv (timerWaits_step limit) timerWaits_empty acts

/-- Once the head has been sent for want of a timer, a timer runs unless the queue is empty. -/
theorem kick_armed (limit : Nat) (s : State κ) (h : (step limit s .kick).entries ≠ []) :
    (step limit s .kick).armed = true := by
  simp only [step] at h ⊢
  split
  · assumption
  · rename_i harm
    rw [if_neg harm] at h
    split
    · rename_i he
      rw [he] at h
      exact absurd he h
    · rfl

/-! ## Urgent messages are transmitted at once -/

/-- No urgent message waits for its transmission. -/
def UrgentSent (s : State κ) : Prop := ∀ e ∈ s.entries, e.urgent = true → e.tag ∈ sentTags s.history

/-- Ordinary messages may enter, others may leave, and the history may grow. -/
theorem UrgentSent.mono {s s' : State κ} (u : UrgentSent s)
    (he : ∀ e ∈ s'.entries, e.urgent = true → e ∈ s.entries)
    (hh : ∀ t ∈ sentTags s.history, t ∈ sentTags s'.history) : UrgentSent s' :=
  fun e hm hu => hh _ (u e (he e hm hu) hu)

theorem UrgentSent.jump {s : State κ} (u : UrgentSent s) (key : κ) : UrgentSent (s.jump key) := by
  intro e he hu
  rcases List.mem_cons.1 he with rfl | he
  · simp [State.jump]
  · have hsent := u e he hu
    simp [State.jump, hsent]

theorem urgentSent_step (limit : Nat) (s : State κ) (a : Act κ) (u : UrgentSent s) : UrgentSent (step limit s a) := by
  -- what has been sent stays in the history
  have grow : ∀ (e : Entry κ), ∀ t ∈ sentTags s.history, t ∈ sentTags (s.send e).history := by
    intro e t ht
    rw [send_history, sentTags_append]
    exact List.mem_append_left _ ht
  cases a with
  | submit key keep =>
    simp only [step]
    split
    · split
      · refine u.mono (fun e he hu => ?_) (grow ⟨s.next, false, key⟩)
        rw [List.mem_singleton] at he
        subst he
        cases hu
      · exact u.mono (fun e he _ => he) (grow ⟨s.next, false, key⟩)
    · refine u.mono (fun e he hu => ?_) (fun t ht => ht)
      rcases List.mem_append.1 he with he | he
      · exact he
      · rw [List.mem_singleton] at he
        subst he
        cases hu
  | urgent key => exact u.jump key
  | ack p => exact u.mono (fun e he _ => List.mem_of_mem_filter he) (fun t ht => ht)
  | exchange p key =>
    have hack : UrgentSent (s.acknowledge p) := u.mono (fun e he _ => List.mem_of_mem_filter he) (fun t ht => ht)
    exact hack.jump key
  | timeout =>
    simp only [step]
    split
    · split
      · exact u
      · rename_i e rest he
        split
        · exact u.mono (fun e' h _ => h) (grow e)
        · refine u.mono (fun e' h _ => ?_) (by simp)
          rw [he]
          exact List.mem_cons_of_mem _ h
    · exact u
  | kick =>
    simp only [step]
    split
    · exact u
    · split
      · exact u
      · rename_i e rest he
        exact u.mono (fun e' h _ => h) (grow e)

theorem run_urgentSent (limit : Nat) (acts : List (Act κ)) : UrgentSent (run limit (.empty : State κ) acts) :=
  run_inv (urgentSent_step limit) (by simp [UrgentSent, State.empty]) acts

/-! ## Distinct keys -/

/-- No two messages of the queue have the same key. -/
def Distinct (s : State κ) : Prop := (s.entries.map (·.key)).Nodup

/-- A message that enters the queue has a key that is not in it. -/
def NewKey (s : State κ) : Act κ → Prop
  | .submit key _ | .urgent key => key ∉ s.entries.map (·.key)
  | .exchange p key => key ∉ (s.acknowledge p).entries.map (·.key)
  | _ => True

theorem Distinct.acknowledge {s : State κ} (d : Distinct s) (p : κ → Bool) : Distinct (s.acknowledge p) :=
  List.Nodup.sublist (List.filter_sublist.map _) d

/-- An urgent message keeps the keys distinct exactly if its key is new. -/
theorem distinct_jump_iff {s : State κ} (d : Distinct s) (key : κ) :
    Distinct (s.jump key) ↔ key ∉ s.entries.map (·.key) := by
  show (key :: s.entries.map (·.key)).Nodup ↔ _
  rw [List.nodup_cons]
  exact and_iff_left d

theorem distinct_step (limit : Nat) (s : State κ) (a : Act κ) (d : Distinct s) (hnew : NewKey s a) :
    Distinct (step limit s a) := by
  cases a with
  | submit key keep =>
    simp only [step]
    split
    · split
      · exact List.nodup_singleton key
      · exact d
    · show ((s.entries ++ [(⟨s.next, false, key⟩ : Entry κ)]).map (·.key)).Nodup
      rw [List.map_append, List.map_singleton]
      exact List.nodup_append.2 ⟨d, List.nodup_singleton key, fun a ha b hb => by
        rw [List.mem_singleton] at hb
        subst hb
        exact ne_of_mem_of_not_mem ha hnew⟩
  | urgent key => exact (distinct_jump_iff d key).2 hnew
  | ack p => exact d.acknowledge p
  | exchange p key => exact (distinct_jump_iff (d.acknowledge p) key).2 hnew
  -- sending again keeps the entries, giving up drops the head
  | timeout =>
    simp only [step]
    split
    · split
      · exact d
      · rename_i e rest he
        split
        · exact d
        · unfold Distinct at d
          rw [he, List.map_cons, List.nodup_cons] at d
          exact d.2
    · exact d
  | kick =>
    simp only [step]
    split
    · exact d
    · split <;> exact d

theorem distinct_exchange_iff (limit : Nat) {s : State κ} (d : Distinct s) (p : κ → Bool) (key : κ) :
    Distinct (step limit s (.exchange p key)) ↔ NewKey s (.exchange p key) :=
  distinct_jump_iff (d.acknowledge p) key

end ResendQueue
