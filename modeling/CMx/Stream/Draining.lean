/-
Draining the queue of a plain stream. `stream_handle_outgoing_data` writes slice after slice and
stops where a write takes nothing; so on a descriptor that takes all that it is offered it stops at
the first slice without bytes, and never gets past it. Such a slice enters the queue when
`stream_do_write` is called with no bytes and cannot write them through.
-/
import Mathlib.Data.List.TakeWhile
import CMx.Stream.Conserved

namespace CMx

open Mqtt (Bytes)

/-! ## A descriptor that takes everything -/

/-- The answers of the descriptor to writes of some slices, each taken whole. -/
def TakesAll : (answers : List WriteAnswer) → (slices : List Bytes) → Prop
  | _, [] => True
  | .accept n :: answers, slice :: slices => slice.length ≤ n ∧ TakesAll answers slices
  | _, _ :: _ => False

theorem write_takes {slice : Bytes} {n : Nat} (h : slice.length ≤ n) (accepted : Bytes) (answers : List WriteAnswer)
    (tryAgain : Bool) :
    Below.descriptor.write ⟨accepted, .accept n :: answers, tryAgain⟩ slice =
      ((slice.length : Int), ⟨accepted ++ slice, answers, tryAgain⟩) := by
  simp only [Below.descriptor, Descriptor.write, List.take_of_length_le h]
  rw [Int.min_eq_right (by omega)]

/-- A descriptor that takes everything leaves the queue from its first empty slice on. -/
theorem outgoing_handleLoop : ∀ {slices : List Bytes} {answers : List WriteAnswer} (written : Int) (accepted : Bytes)
    (tryAgain : Bool), TakesAll answers slices →
    (streamHandleOutgoingLoop Below.descriptor slices written ⟨accepted, answers, tryAgain⟩).2.outgoing =
      slices.dropWhile (· ≠ [])
  | [], _, _, _, _, _ => rfl
  | slice :: slices, .accept n :: answers, written, accepted, tryAgain, h => by
    obtain ⟨hle, hrest⟩ := h
    unfold streamHandleOutgoingLoop
    rw [write_takes hle]
    by_cases hslice : slice = []
    · subst hslice
      rfl
    · have hpos : ¬ (slice.length : Int) ≤ 0 := by
        have := List.length_pos_of_ne_nil hslice
        omega
      have hall : ¬ (slice.drop (slice.length : Int).toNat).length > 0 := by simp
      simp only [if_neg hpos, if_neg hall]
      rw [List.dropWhile_cons_of_pos (by simpa using hslice)]
      exact outgoing_handleLoop _ _ _ hrest
  | _ :: _, [], _, _, _, h => h.elim
  | _ :: _, .again :: _, _, _, _, h => h.elim
  | _ :: _, .error :: _, _, _, _, h => h.elim

theorem dropWhile_ne_nil_iff (slices : List Bytes) : slices.dropWhile (· ≠ []) = [] ↔ [] ∉ slices := by
  rw [List.dropWhile_eq_nil_iff]
  constructor
  · intro h hm
    exact absurd (h [] hm) (by decide)
  · intro h slice hs
    have hne : slice ≠ [] := ne_of_mem_of_not_mem hs h
    simpa using hne

/-! ## How an empty slice gets in -/

/-- The next write would block. -/
def Descriptor.blocks (fd : Descriptor) : Bool :=
  match fd.answers with
  | [] | .again :: _ => true
  | _ => false

/-- A write queues an empty slice exactly if it has no bytes and cannot be written through. -/
theorem nil_mem_doWrite (s : Plain) (buffer : Bytes) :
    [] ∈ (streamDoWrite Below.descriptor s buffer).2.outgoing ↔
      [] ∈ s.outgoing ∨ (buffer = [] ∧ ¬ (s.outgoing = [] ∧ s.below.blocks = false)) := by
  unfold streamDoWrite
  by_cases hempty : s.outgoing = []
  · rw [if_neg (by simp [hempty])]
    by_cases hbuffer : buffer = []
    · subst hbuffer
      obtain ⟨outgoing, accepted, answers, tryAgain⟩ := s
      cases hempty
      rcases answers with - | ⟨n | - | -, answers⟩
      all_goals simp [Below.descriptor, Descriptor.write, Descriptor.blocks, streamQueueOutgoingData, cInt_eq]
    · -- what is queued of bytes is bytes
      simp only [hbuffer, false_and, or_false, hempty, List.not_mem_nil, iff_false]
      split
      · split
        · simpa [streamQueueOutgoingData, hempty] using Ne.symm hbuffer
        · exact List.not_mem_nil
      · split
        · rename_i hlt
          have hdrop : [] ≠ buffer.drop (cInt (Below.descriptor.write s.below buffer).1).toNat := by
            rw [ne_comm, Ne, List.drop_eq_nil_iff]
            exact Nat.not_le.2 hlt
          simpa [streamQueueOutgoingData, hempty] using hdrop
        · exact List.not_mem_nil
  · rw [if_pos (by simp [hempty])]
    simp only [streamQueueOutgoingData, List.mem_append, List.mem_singleton, hempty, false_and, not_false_eq_true,
      and_true]
    rw [eq_comm]

/-! ## Runs -/

/-- A plain stream behind some calls of `stream_do_write`. -/
def writtenTo (answers : List WriteAnswer) (tryAgain : Bool) (buffers : List Bytes) : Plain :=
  ((Plain.new answers tryAgain).run (fun _ => Below.descriptor) (buffers.map .doWrite)).stream

section Runs

variable (answers : List WriteAnswer) (tryAgain : Bool)

theorem writtenTo_concat (buffers : List Bytes) (buffer : Bytes) :
    writtenTo answers tryAgain (buffers ++ [buffer]) =
      (streamDoWrite Below.descriptor (writtenTo answers tryAgain buffers) buffer).2 := by
  simp [writtenTo, WriteRun.run, WriteRun.step]

/-- The queue has an empty slice exactly if some call had no bytes and could not write them
through. -/
theorem nil_mem_writtenTo (buffers : List Bytes) :
    [] ∉ (writtenTo answers tryAgain buffers).outgoing ↔
      ∀ before after, buffers = before ++ [] :: after →
        (writtenTo answers tryAgain before).outgoing = [] ∧
          (writtenTo answers tryAgain before).below.blocks = false := by
  induction buffers using List.reverseRecOn with
  | nil =>
    refine iff_of_true List.not_mem_nil fun before after h => ?_
    simp at h
  | append_singleton buffers buffer ih =>
    rw [writtenTo_concat, nil_mem_doWrite, not_or, ih]
    constructor
    · rintro ⟨hbefore, hlast⟩ before after hsplit
      rcases List.eq_nil_or_concat' after with rfl | ⟨after', last, rfl⟩
      · obtain ⟨rfl, hbuffer⟩ := List.append_inj' hsplit rfl
        rw [List.singleton_inj] at hbuffer
        simpa [hbuffer] using hlast
      · have hsplit' : buffers ++ [buffer] = (before ++ [] :: after') ++ [last] := by simpa using hsplit
        exact hbefore before after' (List.append_inj' hsplit' rfl).1
    · intro h
      refine ⟨fun before after hsplit => h before (after ++ [buffer]) (by simp [hsplit]), ?_⟩
      rintro ⟨rfl, hblocked⟩
      exact hblocked (h buffers [] rfl)

/-- From some calls of `stream_do_write` on, whatever the descriptor did so far, let it take
everything: then one `stream_handle_outgoing_data` empties the queue if and only if each call with
no bytes found an empty queue and a descriptor that would not block. -/
theorem handleOutgoing_empties_iff (buffers : List Bytes) (later : List WriteAnswer)
    (h : TakesAll later (writtenTo answers tryAgain buffers).outgoing) :
    (streamHandleOutgoingData Below.descriptor { writtenTo answers tryAgain buffers with
      below := { (writtenTo answers tryAgain buffers).below with answers := later } }).2.outgoing = [] ↔
    ∀ before after, buffers = before ++ [] :: after →
      (writtenTo answers tryAgain before).outgoing = [] ∧
        (writtenTo answers tryAgain before).below.blocks = false := by
  rw [← nil_mem_writtenTo, ← dropWhile_ne_nil_iff, ← outgoing_handleLoop 0 _ _ h]
  rfl

end Runs

/-- Two buffers behind a write that blocked. -/
theorem handleOutgoing_empties_two :
    let s := writtenTo [.again] false [[1, 2], [3]]
    (streamHandleOutgoingData Below.descriptor
      { s with below := { s.below with answers := [.accept 9, .accept 9] } }).2.outgoing = [] := by
  intro s
  refine (handleOutgoing_empties_iff [.again] false [[1, 2], [3]] [.accept 9, .accept 9] ?_).2 ?_
  · exact ⟨by decide, by decide, trivial⟩
  · intro before after hsplit
    rcases before with - | ⟨b, - | ⟨b', - | ⟨b'', before⟩⟩⟩ <;> simp at hsplit

/-- A write of nothing behind a write that blocked. -/
theorem handleOutgoing_stuck : ¬ ∀ (answers : List WriteAnswer) (tryAgain : Bool) (buffers : List Bytes)
    (later : List WriteAnswer), TakesAll later (writtenTo answers tryAgain buffers).outgoing →
      (streamHandleOutgoingData Below.descriptor { writtenTo answers tryAgain buffers with
        below := { (writtenTo answers tryAgain buffers).below with answers := later } }).2.outgoing = [] := by
  intro h
  have hstuck := h [.again] false [[1], []] [.accept 9, .accept 9] ⟨by decide, by decide, trivial⟩
  exact absurd hstuck (by decide)

end CMx
