/-
Plain streams at the two ends of a connection: what the one descriptor has accepted, the other one
hands over in order, in pieces of any size and at any time. As long as no `write` fails for good, they
are a reliable medium, whatever is accepted at once and wherever a call would block.
-/
import CMx.Stream.Conserved
import CMx.Stream.Medium

namespace CMx

open Mqtt (Bytes ReadEnd)

/-! ## The connection -/

/-- The answer to a `read`: at most so many bytes and one more, or no bytes and why. -/
inductive ReadAnswer where
  | give (n : Nat)
  | refuse (last : ReadEnd)
  deriving DecidableEq, Repr

/-- The plain streams at both ends, how many of the bytes accepted at the other end each `read` has handed over
so far, and the answers to come. -/
structure Sockets where
  stream : Bool → Plain
  taken : Bool → Nat
  answers : Bool → List ReadAnswer

namespace Sockets

/-- What has been accepted at the other end and not been handed over. -/
def incoming (t : Sockets) (e : Bool) : Bytes := (t.stream (!e)).below.accepted.drop (t.taken e)

def put (e : Bool) (t : Sockets) (s : Plain) : Sockets := { t with stream := Function.update t.stream e s }

/-- `read`; behind its last answer, and where nothing has come, it would block. -/
def read (e : Bool) (length : Nat) (t : Sockets) : Except ReadEnd (ReadData length) × Sockets :=
  match t.answers e with
  | [] => (.error .again, t)
  | .refuse last :: answers => (.error last, { t with answers := Function.update t.answers e answers })
  | .give n :: answers =>
    let data := (t.incoming e).take (min (n + 1) length)
    let t := { t with answers := Function.update t.answers e answers }
    if h : data = [] then (.error .again, t)
    else
      (.ok ⟨data, h, by rw [List.length_take]; omega⟩,
        { t with taken := Function.update t.taken e (t.taken e + data.length) })

/-- Two new streams. -/
def new (writes : Bool → List WriteAnswer) (reads : Bool → List ReadAnswer) : Sockets :=
  ⟨fun e => ⟨[], ⟨[], writes e, false⟩⟩, fun _ => 0, reads⟩

end Sockets

/-- Plain streams do nothing about time. -/
def sockets (rounds : Nat) : Medium Sockets where
  below e := (Below.plain rounds).within (·.stream e) (.put e)
  read e length t := some (t.read e length)
  time _ t := t

/-! ## What a stream keeps of its descriptor -/

/-- A descriptor later on: it has accepted more, and used up some answers. -/
structure Descriptor.Continues (fd fd' : Descriptor) : Prop where
  accepted : fd.accepted <+: fd'.accepted
  answers : fd'.answers <:+ fd.answers

theorem Descriptor.Continues.refl (fd : Descriptor) : fd.Continues fd := ⟨List.prefix_refl _, List.suffix_refl _⟩

theorem Descriptor.Continues.trans {fd fd' fd'' : Descriptor} (h : fd.Continues fd') (h' : fd'.Continues fd'') :
    fd.Continues fd'' := ⟨h.accepted.trans h'.accepted, h'.answers.trans h.answers⟩

theorem continues_write (fd : Descriptor) (buffer : Bytes) : fd.Continues (fd.write buffer).2 := by
  unfold Descriptor.write
  split
  · exact ⟨List.prefix_refl _, List.suffix_refl _⟩
  · rename_i n answers hanswers
    exact ⟨List.prefix_append _ _, by rw [hanswers]; exact List.suffix_cons _ _⟩
  · rename_i answers hanswers
    exact ⟨List.prefix_refl _, by rw [hanswers]; exact List.suffix_cons _ _⟩
  · rename_i answers hanswers
    exact ⟨List.prefix_refl _, by rw [hanswers]; exact List.suffix_cons _ _⟩

theorem continues_doWrite (s : Plain) (buffer : Bytes) :
    s.below.Continues (streamDoWrite Below.descriptor s buffer).2.below := by
  rcases doWrite_below Below.descriptor s buffer with hbelow | hbelow
  · rw [hbelow]
    exact .refl _
  · rw [hbelow]
    exact continues_write s.below buffer

theorem continues_handleLoop : ∀ (outgoing : List Bytes) (written : Int) (fd : Descriptor),
    fd.Continues (streamHandleOutgoingLoop Below.descriptor outgoing written fd).2.below
  | [], _, fd => .refl fd
  | slice :: outgoing, written, fd => by
    have hfirst : fd.Continues (Below.descriptor.write fd slice).2 := continues_write fd slice
    unfold streamHandleOutgoingLoop
    simp only
    split
    · exact hfirst
    · split
      · exact hfirst
      · exact hfirst.trans (continues_handleLoop outgoing _ _)

theorem continues_handle (s : Plain) : s.below.Continues (streamHandleOutgoingData Below.descriptor s).2.below :=
  continues_handleLoop s.outgoing 0 s.below

theorem continues_flush : ∀ (rounds : Nat) (s : Plain),
    s.below.Continues (streamDoFlush Below.descriptor rounds s).2.below := by
  intro rounds
  induction rounds with
  | zero =>
    intro s
    unfold streamDoFlush
    split <;> exact .refl _
  | succ rounds ih =>
    intro s
    unfold streamDoFlush
    split
    · exact .refl _
    · simp only
      split
      · exact continues_handle s
      · split
        · exact continues_handle s
        · exact (continues_handle s).trans (ih _)

/-! ## Reliability -/

/-- No `write` will fail, the descriptor and the queue of each stream hold what has been written to it, and an end
has read what has been handed over to it. -/
structure Sockets.Holds (written taken : Bool → Bytes) (t : Sockets) : Prop where
  sound : ∀ e, .error ∉ (t.stream e).below.answers
  total : ∀ e, (t.stream e).total Descriptor.accepted = written e
  fits : ∀ e, t.taken e ≤ (t.stream (!e)).below.accepted.length
  taken : ∀ e, taken e = (t.stream (!e)).below.accepted.take (t.taken e)

section Holds

variable {written taken : Bool → Bytes} {t : Sockets}

/-- One of the streams takes bytes. -/
theorem Sockets.Holds.put (h : Holds written taken t) {e : Bool} {s : Plain} {data : Bytes}
    (hcontinues : (t.stream e).below.Continues s.below) (htotal : s.total Descriptor.accepted = written e ++ data) :
    Holds (grow written e data) taken (t.put e s) := by
  have hself : (t.put e s).stream e = s := Function.update_self ..
  have hother : (t.put e s).stream (!e) = t.stream (!e) := update_not ..
  refine ⟨forall_ends (e := e) ?_ ?_, forall_ends (e := e) ?_ ?_, forall_ends (e := e) ?_ ?_,
    forall_ends (e := e) ?_ ?_⟩
  · rw [hself]
    exact fun hm => h.sound e (hcontinues.answers.mem hm)
  · rw [hother]
    exact h.sound (!e)
  · rw [hself, grow_self]
    exact htotal
  · rw [hother, grow_not]
    exact h.total (!e)
  · rw [hother]
    exact h.fits e
  · rw [Bool.not_not, hself]
    have hfits := h.fits (!e)
    rw [Bool.not_not] at hfits
    exact hfits.trans hcontinues.accepted.length_le
  · rw [hother]
    exact h.taken e
  · have hfits := h.fits (!e)
    have htaken := h.taken (!e)
    rw [Bool.not_not] at hfits htaken ⊢
    rw [hself, htaken]
    obtain ⟨more, hmore⟩ := hcontinues.accepted
    rw [← hmore]
    exact (List.take_append_of_le_length hfits).symm

/-- A `read` hands over the next bytes, -/
theorem Sockets.Holds.taking (h : Holds written taken t) (e : Bool) {data : Bytes} (hdata : data <+: t.incoming e)
    (answers : Bool → List ReadAnswer) :
    Holds written (grow taken e data)
      { t with answers, taken := Function.update t.taken e (t.taken e + data.length) } := by
  obtain ⟨rest, hrest⟩ := hdata
  have hsplit : (t.stream (!e)).below.accepted = taken e ++ data ++ rest := by
    rw [List.append_assoc, hrest, h.taken e]
    exact (List.take_append_drop ..).symm
  have hlength : (taken e).length = t.taken e := by
    rw [h.taken e, List.length_take_of_le (h.fits e)]
  refine ⟨h.sound, h.total, forall_ends (e := e) ?_ ?_, forall_ends (e := e) ?_ ?_⟩
  · show Function.update t.taken e _ e ≤ (t.stream (!e)).below.accepted.length
    rw [Function.update_self, hsplit, ← hlength, List.length_append, List.length_append]
    omega
  · show Function.update t.taken e _ (!e) ≤ (t.stream (!(!e))).below.accepted.length
    rw [update_not]
    exact h.fits (!e)
  · show grow taken e data e = (t.stream (!e)).below.accepted.take (Function.update t.taken e _ e)
    rw [grow_self, Function.update_self, hsplit, ← hlength, ← List.length_append, List.take_left]
  · show grow taken e data (!e) = (t.stream (!(!e))).below.accepted.take (Function.update t.taken e _ (!e))
    rw [grow_not, update_not]
    exact h.taken (!e)

/-- or none. -/
theorem Sockets.Holds.refusing (h : Holds written taken t) (e : Bool) (answers : Bool → List ReadAnswer) :
    Holds written (grow taken e []) { t with answers } := by
  rw [grow_nil]
  exact ⟨h.sound, h.total, h.fits, h.taken⟩

theorem Sockets.Holds.read (h : Holds written taken t) (e : Bool) (length : Nat) :
    Holds written (grow taken e (bytesRead (t.read e length).1)) (t.read e length).2 := by
  unfold Sockets.read
  split
  · exact h.refusing e t.answers
  · exact h.refusing e _
  · rename_i n answers hanswers
    simp only
    split
    · exact h.refusing e _
    · exact h.taking e (List.take_prefix ..) _

end Holds

/-- Between two messages: nothing is queued, all that has been written has been taken, and no `write` will fail. -/
structure Sockets.Quiet (t : Sockets) : Prop where
  sound : ∀ e, .error ∉ (t.stream e).below.answers
  outgoing : ∀ e, (t.stream e).outgoing = []
  taken : ∀ e, t.taken e = (t.stream (!e)).below.accepted.length

theorem Sockets.quiet_new {writes : Bool → List WriteAnswer} (h : ∀ e, .error ∉ writes e) (reads : Bool → List ReadAnswer) :
    (Sockets.new writes reads).Quiet := ⟨h, fun _ => rfl, fun _ => rfl⟩

theorem Sockets.Quiet.holds {t : Sockets} (h : t.Quiet) :
    Sockets.Holds (fun e => (t.stream e).below.accepted) (fun e => (t.stream (!e)).below.accepted) t where
  sound := h.sound
  total e := by
    unfold Stream.total
    rw [h.outgoing, List.flatten_nil, List.append_nil]
  fits e := (h.taken e).le
  taken e := by rw [h.taken, List.take_length]

/-- Plain streams whose descriptors do not fail are a reliable medium. -/
theorem sockets_reliable (rounds : Nat) :
    (sockets rounds).Reliable (2 ^ 31) (fun _ _ => True) Sockets.Holds where
  front := by
    intro written taken t h e
    rw [h.taken e, ← h.total (!e)]
    exact (List.take_prefix ..).trans (List.prefix_append ..)
  write := by
    intro written taken t e data h hdata
    have hfits : Plain.Fits (t.stream e) data := fun _ n answers _ => by omega
    obtain ⟨-, htakes⟩ := plain_doWrite hfits
    -- no answer of a descriptor is an error, so no write fails
    have hpos : 0 ≤ (streamDoWrite Below.descriptor (t.stream e) data).1 := by
      by_contra hneg
      obtain ⟨⟨-, hhead⟩, -⟩ := plain_error hfits (by omega)
      exact h.sound e (List.mem_of_head? hhead)
    obtain ⟨hall, htotal⟩ := htakes hpos
    rw [h.total e] at htotal
    refine ⟨h.put (continues_doWrite _ _) htotal, ?_, ?_⟩
    · exact hall.ge
    · refine hall.trans_lt ?_
      omega
  ready := fun _ _ _ _ => trivial
  handle := by
    intro written taken t e h
    have htotal := (total_handle conserves_descriptor (t.stream e)).trans ((h.total e).trans (List.append_nil _).symm)
    have hholds := h.put (continues_handle _) htotal
    rw [grow_nil] at hholds
    exact hholds
  flush := by
    intro written taken t e h
    have htotal := (total_flush conserves_descriptor rounds (t.stream e)).trans
      ((h.total e).trans (List.append_nil _).symm)
    have hholds := h.put (continues_flush rounds _) htotal
    rw [grow_nil] at hholds
    exact hholds
  time := fun _ h => h
  read := by
    intro written taken t e length h _
    exact ⟨_, _, rfl, trivial, h.read e length⟩

/-- Every answer to a `read` is used once. -/
theorem sockets_bounded (rounds : Nat) : (sockets rounds).Bounded fun e t => (t.answers e).length where
  read := by
    intro e length t piece t' hread
    have hread : t.read e length = (.ok piece, t') := Option.some.inj hread
    unfold Sockets.read at hread
    split at hread
    · cases hread
    · cases hread
    · rename_i n answers hanswers
      simp only at hread
      split at hread
      · cases hread
      · cases hread
        show (Function.update t.answers e answers e).length < (t.answers e).length
        rw [Function.update_self, hanswers]
        exact Nat.lt_succ_self _
  write := fun _ _ _ => le_refl _

end CMx
