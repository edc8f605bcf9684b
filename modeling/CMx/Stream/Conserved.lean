/-
Nothing is lost, duplicated or reordered on the way out: what the descriptor has accepted, then the
queue of the lower stream, then the queue of the upper one are the buffers that were submitted, in
the order of the calls. This holds as long as no write to the layer below takes 2^31 bytes or
more at once: `stream_do_write` keeps the count in an `int`.
-/
import CMx.Stream.State

namespace CMx

open Mqtt (Bytes)

/-! ## What a layer holds -/

/-- What has been taken from the layers above, in order: what lies below the stream, as `content`
reads it, and then its queue. -/
def Stream.total {σ : Type} (content : σ → Bytes) (s : Stream σ) : Bytes := content s.below ++ s.outgoing.flatten

/-- A write that returns a count has taken that many bytes, one that fails has taken none, and the
other calls move bytes within the layer only. -/
structure Below.Conserves {σ : Type} (b : Below σ) (content : σ → Bytes) : Prop where
  fails : ∀ s buffer, (b.write s buffer).1 < 0 → content (b.write s buffer).2 = content s
  takes : ∀ s buffer, 0 ≤ (b.write s buffer).1 →
    (b.write s buffer).1 ≤ buffer.length ∧
      content (b.write s buffer).2 = content s ++ buffer.take (b.write s buffer).1.toNat
  handle : ∀ s, content (b.handleOutgoingData s).2 = content s
  flush : ∀ s, content (b.flush s).2 = content s

theorem conserves_descriptor : Below.descriptor.Conserves Descriptor.accepted where
  fails := by
    intro fd buffer
    simp only [Below.descriptor, Descriptor.write]
    split <;> simp
  takes := by
    intro fd buffer
    simp only [Below.descriptor, Descriptor.write]
    split <;> simp
    rw [← Nat.cast_min, Int.toNat_natCast]
  handle := fun _ => rfl
  flush := fun _ => rfl

section Layer

variable {σ : Type} {b : Below σ} {content : σ → Bytes}

theorem total_queue (s : Stream σ) (buffer : Bytes) :
    (streamQueueOutgoingData s buffer).total content = s.total content ++ buffer := by
  simp [Stream.total, streamQueueOutgoingData]

/-- The loop moves the front of the queue to what lies below. -/
theorem total_handleLoop (h : b.Conserves content) : ∀ (outgoing : List Bytes) (written : Int) (below : σ),
    (streamHandleOutgoingLoop b outgoing written below).2.total content = content below ++ outgoing.flatten
  | [], written, below => rfl
  | slice :: outgoing, written, below => by
    have hfails := h.fails below slice
    have htakes := h.takes below slice
    unfold streamHandleOutgoingLoop
    generalize b.write below slice = w at *
    obtain ⟨ret, below'⟩ := w
    simp only at *
    split
    · rename_i hret
      rcases Int.lt_or_eq_of_le hret with hlt | rfl
      · simp [Stream.total, hfails hlt]
      · simp [Stream.total, (htakes (le_refl 0)).2]
    · rename_i hret
      obtain ⟨hle, htake⟩ := htakes (by omega)
      have hsplit := List.take_append_drop ret.toNat slice
      split
      · simp only [Stream.total, htake, List.flatten_cons, List.append_assoc]
        rw [← List.append_assoc (slice.take _), hsplit]
      · rename_i hnone
        have hall : slice.take ret.toNat = slice := by
          rw [List.length_drop] at hnone
          exact List.take_of_length_le (by omega)
        rw [total_handleLoop h, htake, hall, List.flatten_cons, List.append_assoc]

theorem total_handle (h : b.Conserves content) (s : Stream σ) :
    (streamHandleOutgoingData b s).2.total content = s.total content := by
  unfold streamHandleOutgoingData
  rw [total_handleLoop h, h.handle]
  rfl

theorem total_flush (h : b.Conserves content) : ∀ (rounds : Nat) (s : Stream σ),
    (streamDoFlush b rounds s).2.total content = s.total content := by
  intro rounds
  induction rounds with
  | zero =>
    intro s
    unfold streamDoFlush
    split
    · simp [Stream.total, h.flush]
    · rfl
  | succ rounds ih =>
    intro s
    unfold streamDoFlush
    split
    · simp [Stream.total, h.flush]
    · simp only
      split
      · exact total_handle h s
      · split
        · exact total_handle h s
        · rw [ih, total_handle h]

/-- A write queues behind a queue, writes through an empty one, and takes its whole buffer unless
the layer below has failed, if the count of that layer fits in an `int`. -/
theorem total_doWrite {s : Stream σ} {buffer : Bytes}
    (hfails : (b.write s.below buffer).1 < 0 → content (b.write s.below buffer).2 = content s.below)
    (htakes : 0 ≤ (b.write s.below buffer).1 → (b.write s.below buffer).1 ≤ buffer.length ∧
      content (b.write s.below buffer).2 = content s.below ++ buffer.take (b.write s.below buffer).1.toNat)
    (hfits : s.outgoing = [] → cInt (b.write s.below buffer).1 = (b.write s.below buffer).1) :
    ((streamDoWrite b s buffer).1 < 0 → (streamDoWrite b s buffer).2.total content = s.total content) ∧
      (0 ≤ (streamDoWrite b s buffer).1 → (streamDoWrite b s buffer).1 = buffer.length ∧
        (streamDoWrite b s buffer).2.total content = s.total content ++ buffer) := by
  unfold streamDoWrite
  split
  · exact ⟨fun h => absurd h (by simp only; omega), fun _ => ⟨rfl, total_queue s buffer⟩⟩
  · rename_i hempty
    have hempty : s.outgoing = [] := by simpa using hempty
    have hfits := hfits hempty
    generalize b.write s.below buffer = w at *
    obtain ⟨written, below⟩ := w
    simp only [hfits] at *
    split
    · rename_i hneg
      have hsame : Stream.total content { s with below } = s.total content := by
        simp [Stream.total, hfails hneg]
      split
      · refine ⟨fun h => absurd h (by simp only; omega), fun _ => ⟨rfl, ?_⟩⟩
        rw [total_queue, hsame]
      · exact ⟨fun _ => hsame, fun h => absurd h (by simp only; omega)⟩
    · rename_i hpos
      obtain ⟨hle, htake⟩ := htakes (by omega)
      -- what the stream below has not taken is queued
      have hsplit := List.take_append_drop written.toNat buffer
      split
      · refine ⟨fun h => absurd h (by simp only; omega), fun _ => ⟨rfl, ?_⟩⟩
        rw [total_queue]
        simp only [Stream.total, htake, hempty, List.flatten_nil, List.append_nil, List.append_assoc, hsplit]
      · rename_i hall
        refine ⟨fun h => absurd h (by simp only; omega), fun _ => ⟨rfl, ?_⟩⟩
        simp only [Stream.total, htake, hempty, List.flatten_nil, List.append_nil]
        rw [List.take_of_length_le (by omega)]

/-- A write returns the length of its buffer or an error. -/
theorem doWrite_whole (b : Below σ) (s : Stream σ) (buffer : Bytes) :
    (streamDoWrite b s buffer).1 < 0 ∨ (streamDoWrite b s buffer).1 = buffer.length := by
  unfold streamDoWrite
  split
  · exact .inr rfl
  · simp only
    split
    · rename_i hneg
      split
      · exact .inr rfl
      · exact .inl hneg
    · split <;> exact .inr rfl

theorem doWrite_low (b : Below σ) (s : Stream σ) (buffer : Bytes) : -2 ^ 31 ≤ (streamDoWrite b s buffer).1 := by
  have hlow := (cInt_bounds (b.write s.below buffer).1).1
  unfold streamDoWrite
  split
  · simp only
    omega
  · simp only
    split
    · split
      · simp only
        omega
      · exact hlow
    · split <;> simp only <;> omega

/-- Through an empty queue the layer below may fail the write for good, -/
theorem doWrite_fails {b : Below σ} {s : Stream σ} {buffer : Bytes} (hempty : s.outgoing = [])
    (hlow : -2 ^ 31 ≤ (b.write s.below buffer).1) (hneg : (b.write s.below buffer).1 < 0)
    (htry : b.tryAgain (b.write s.below buffer).2 = false) :
    streamDoWrite b s buffer = ((b.write s.below buffer).1, { s with below := (b.write s.below buffer).2 }) := by
  have hcount : cInt (b.write s.below buffer).1 = (b.write s.below buffer).1 := cInt_eq hlow (by omega)
  unfold streamDoWrite
  rw [if_neg (by simp [hempty])]
  simp only [hcount, if_pos hneg, htry, Bool.false_eq_true, if_false]

/-- or take the whole buffer. -/
theorem doWrite_passes {b : Below σ} {s : Stream σ} {buffer : Bytes} (hempty : s.outgoing = [])
    (hall : (b.write s.below buffer).1 = buffer.length) (hlt : buffer.length < 2 ^ 31) :
    streamDoWrite b s buffer = ((buffer.length : Int), { s with below := (b.write s.below buffer).2 }) := by
  have hcount : cInt buffer.length = buffer.length := cInt_eq (by omega) (by omega)
  unfold streamDoWrite
  rw [if_neg (by simp [hempty])]
  simp only [hall, hcount]
  rw [if_neg (by omega), if_neg (by omega)]

/-- What a write has gained for the layers below, counted in bytes, is more than what it says. -/
def Exceeds (len ret : Int) (before after : Bytes) : Prop :=
  (before.length : Int) + (if ret < 0 then 0 else len) < after.length

/-- A write through an empty queue exceeds if the one below does, or if its count does not fit. -/
theorem exceeds_doWrite {s : Stream σ} {buffer : Bytes} (hempty : s.outgoing = [])
    (hlo : -2 ^ 31 ≤ (b.write s.below buffer).1) (hhi : (b.write s.below buffer).1 ≤ buffer.length)
    (h : Exceeds (b.write s.below buffer).1 (b.write s.below buffer).1 (content s.below)
        (content (b.write s.below buffer).2) ∨
      2 ^ 31 ≤ (b.write s.below buffer).1 ∧
        (content (b.write s.below buffer).2).length = (content s.below).length + (b.write s.below buffer).1) :
    Exceeds buffer.length (streamDoWrite b s buffer).1 (s.total content) ((streamDoWrite b s buffer).2.total content) := by
  have htotal : s.total content = content s.below := by simp [Stream.total, hempty]
  rw [htotal]
  unfold streamDoWrite
  rw [if_neg (by simp [hempty])]
  generalize b.write s.below buffer = w at *
  obtain ⟨written, below⟩ := w
  simp only at *
  obtain ⟨hclo, hchi⟩ := cInt_bounds written
  have hceq : written < 2 ^ 31 → cInt written = written := cInt_eq hlo
  -- the count kept is not above the bytes gained, and below them where the count does not fit
  have hstrict : ((content s.below).length : Int) + (if cInt written < 0 then 0 else cInt written) <
      (content below).length := by
    unfold Exceeds at h
    rcases h with h | ⟨hbig, hlen⟩
    · split at h <;> split <;> omega
    · split <;> omega
  unfold Exceeds
  split
  · rename_i hneg
    rw [if_pos hneg] at hstrict
    split
    · rw [total_queue]
      simp only [Stream.total, hempty, List.flatten_nil, List.append_nil, List.length_append]
      rw [if_neg (by omega)]
      omega
    · simp only [Stream.total, hempty, List.flatten_nil, List.append_nil]
      omega
  · rename_i hpos
    rw [if_neg hpos] at hstrict
    split
    · rw [total_queue]
      simp only [Stream.total, hempty, List.flatten_nil, List.append_nil, List.length_append, List.length_drop]
      rw [if_neg (by omega)]
      omega
    · simp only [Stream.total, hempty, List.flatten_nil, List.append_nil]
      rw [if_neg (by omega)]
      omega

end Layer

/-! ## Writes that fit -/

/-- The descriptor does not accept 2^31 bytes or more of the buffer at once. -/
def Descriptor.Fits (fd : Descriptor) (buffer : Bytes) : Prop :=
  ∀ n answers, fd.answers = .accept n :: answers → min n buffer.length < 2 ^ 31

/-- A write of a plain stream to its descriptor fits. -/
def Plain.Fits (s : Plain) (buffer : Bytes) : Prop := s.outgoing = [] → s.below.Fits buffer

/-- The descriptor fails a write that goes through an empty queue. -/
def Plain.Refuses (s : Plain) : Prop := s.outgoing = [] ∧ s.below.answers.head? = some .error

/-- A write of a stream to the one that it decorates fits, and so does that one's; the lower
stream takes a buffer whole unless it fails. -/
def Layered.Fits (s : Layered) (buffer : Bytes) : Prop :=
  s.outgoing = [] → Plain.Fits s.below buffer ∧ (buffer.length < 2 ^ 31 ∨ Plain.Refuses s.below)

/-! ## A plain stream -/

theorem fits_count {fd : Descriptor} {buffer : Bytes} (h : fd.Fits buffer) :
    cInt (fd.write buffer).1 = (fd.write buffer).1 := by
  unfold Descriptor.write
  split
  · exact cInt_eq (by omega) (by omega)
  · rename_i n answers hanswers
    have hlt := h n answers hanswers
    exact cInt_eq (by simp only; omega) (by simp only; omega)
  · exact cInt_eq (by omega) (by omega)
  · exact cInt_eq (by omega) (by omega)

theorem plain_doWrite {s : Plain} {buffer : Bytes} (h : s.Fits buffer) :
    ((streamDoWrite Below.descriptor s buffer).1 < 0 →
        (streamDoWrite Below.descriptor s buffer).2.total Descriptor.accepted = s.total Descriptor.accepted) ∧
      (0 ≤ (streamDoWrite Below.descriptor s buffer).1 →
        (streamDoWrite Below.descriptor s buffer).1 = buffer.length ∧
          (streamDoWrite Below.descriptor s buffer).2.total Descriptor.accepted =
            s.total Descriptor.accepted ++ buffer) :=
  total_doWrite (conserves_descriptor.fails _ _) (conserves_descriptor.takes _ _) fun hempty =>
    fits_count (h hempty)

/-- A fitting write returns an error only where the descriptor fails, and leaves no `EAGAIN` then. -/
theorem plain_error {s : Plain} {buffer : Bytes} (h : s.Fits buffer)
    (hneg : (streamDoWrite Below.descriptor s buffer).1 < 0) :
    s.Refuses ∧ (streamDoWrite Below.descriptor s buffer).2.below.tryAgain = false := by
  unfold streamDoWrite at hneg ⊢
  split at hneg
  · exact absurd hneg (by simp only; omega)
  · rename_i hempty
    have hempty : s.outgoing = [] := by simpa using hempty
    rw [if_neg (by simp [hempty])]
    have hcount := fits_count (h hempty)
    simp only [Below.descriptor, hcount] at hneg ⊢
    unfold Descriptor.write at hneg ⊢
    split at hneg
    · simp only [if_true] at hneg
      exact absurd hneg (by norm_num)
    · rename_i n answers hanswers
      rw [if_neg (by simp only; omega)] at hneg
      exact absurd hneg (by split <;> simp only <;> omega)
    · simp only [if_true] at hneg
      exact absurd hneg (by norm_num)
    · rename_i answers hanswers
      exact ⟨⟨hempty, by rw [hanswers]; rfl⟩, rfl⟩

theorem plain_refuses {s : Plain} (h : s.Refuses) (buffer : Bytes) :
    (streamDoWrite Below.descriptor s buffer).1 < 0 := by
  obtain ⟨hempty, hhead⟩ := h
  obtain ⟨answers, hanswers⟩ : ∃ answers, s.below.answers = .error :: answers := by
    cases hall : s.below.answers with
    | nil => rw [hall] at hhead; cases hhead
    | cons a answers => rw [hall] at hhead; exact ⟨answers, by simpa using hhead⟩
  unfold streamDoWrite
  rw [if_neg (by simp [hempty])]
  have hcount : cInt (-1) = -1 := cInt_eq (by omega) (by omega)
  simp [Below.descriptor, Descriptor.write, hanswers, hcount]

/-- A misfit: the descriptor has taken more than `stream_do_write` reads in its count. -/
theorem plain_misfit {s : Plain} {buffer : Bytes} (h : ¬ s.Fits buffer) :
    Exceeds buffer.length (streamDoWrite Below.descriptor s buffer).1 (s.total Descriptor.accepted)
      ((streamDoWrite Below.descriptor s buffer).2.total Descriptor.accepted) := by
  simp only [Plain.Fits, Descriptor.Fits, not_forall, not_lt] at h
  obtain ⟨hempty, n, answers, hanswers, hbig⟩ := h
  have hcount : (s.below.write buffer).1 = (min n buffer.length : Nat) := by
    simp [Descriptor.write, hanswers]
  have haccepted : (s.below.write buffer).2.accepted = s.below.accepted ++ buffer.take n := by
    simp [Descriptor.write, hanswers]
  refine exceeds_doWrite hempty ?_ ?_ (.inr ⟨?_, ?_⟩) <;> simp only [Below.descriptor, hcount]
  · omega
  · omega
  · exact_mod_cast hbig
  · rw [haccepted, List.length_append, List.length_take]
    push_cast
    rfl

/-! ## A stream over a plain one -/

theorem layered_doWrite (rounds : Nat) {s : Layered} {buffer : Bytes} (hempty : s.outgoing = [])
    (h : s.Fits buffer) :
    (streamDoWrite (Below.plain rounds) s buffer).2.outgoing = [] ∧
      ((streamDoWrite (Below.plain rounds) s buffer).1 < 0 →
        (streamDoWrite (Below.plain rounds) s buffer).2.total (Stream.total Descriptor.accepted) =
          s.total (Stream.total Descriptor.accepted)) ∧
      (0 ≤ (streamDoWrite (Below.plain rounds) s buffer).1 →
        (streamDoWrite (Below.plain rounds) s buffer).2.total (Stream.total Descriptor.accepted) =
          s.total (Stream.total Descriptor.accepted) ++ buffer) := by
  obtain ⟨hlower, hsmall⟩ := h hempty
  obtain ⟨hfails, htakes⟩ := plain_doWrite hlower
  have herror := plain_error hlower
  have hrefuses := fun hr => plain_refuses (s := s.below) hr buffer
  have hlow := doWrite_low Below.descriptor s.below buffer
  by_cases hneg : (streamDoWrite Below.descriptor s.below buffer).1 < 0
  · have hthrough := doWrite_fails (b := Below.plain rounds) hempty hlow hneg (herror hneg).2
    rw [hthrough]
    refine ⟨hempty, fun _ => ?_, fun hpos => absurd hpos (not_le.2 hneg)⟩
    have hsame := hfails hneg
    simp only [Stream.total, Below.plain, hempty] at hsame ⊢
    rw [hsame]
  · obtain ⟨hall, htake⟩ := htakes (by omega)
    have hlt : buffer.length < 2 ^ 31 := by
      rcases hsmall with hlt | hr
      · exact hlt
      · exact absurd (plain_refuses hr buffer) hneg
    rw [doWrite_passes (b := Below.plain rounds) hempty hall hlt]
    refine ⟨hempty, fun hneg => absurd hneg (by simp only; omega), fun _ => ?_⟩
    simp only [Stream.total, Below.plain, hempty, List.flatten_nil, List.append_nil] at htake ⊢
    exact htake

theorem layered_handle (rounds : Nat) {s : Layered} (hempty : s.outgoing = []) :
    (streamHandleOutgoingData (Below.plain rounds) s).2.outgoing = [] ∧
      (streamHandleOutgoingData (Below.plain rounds) s).2.total (Stream.total Descriptor.accepted) =
        s.total (Stream.total Descriptor.accepted) := by
  have hlower := total_handle conserves_descriptor s.below
  simp [streamHandleOutgoingData, Below.plain, hempty, streamHandleOutgoingLoop, Stream.total] at hlower ⊢
  exact hlower

theorem layered_flush (rounds inner : Nat) {s : Layered} (hempty : s.outgoing = []) :
    (streamDoFlush (Below.plain inner) rounds s).2.outgoing = [] ∧
      (streamDoFlush (Below.plain inner) rounds s).2.total (Stream.total Descriptor.accepted) =
        s.total (Stream.total Descriptor.accepted) := by
  have hlower := total_flush conserves_descriptor inner s.below
  unfold streamDoFlush
  simp only [hempty, List.isEmpty_nil, if_true, Below.plain, Stream.total] at hlower ⊢
  exact ⟨trivial, by rw [hlower]⟩

/-- A misfit of the lower stream, or a buffer that this one took but whose length is no `int`. -/
theorem layered_misfit (rounds : Nat) {s : Layered} {buffer : Bytes} (h : ¬ s.Fits buffer) :
    Exceeds buffer.length (streamDoWrite (Below.plain rounds) s buffer).1 (s.total (Stream.total Descriptor.accepted))
      ((streamDoWrite (Below.plain rounds) s buffer).2.total (Stream.total Descriptor.accepted)) := by
  unfold Layered.Fits at h
  push Not at h
  obtain ⟨hempty, h⟩ := h
  have hlow := doWrite_low Below.descriptor s.below buffer
  have hwhole := doWrite_whole Below.descriptor s.below buffer
  refine exceeds_doWrite hempty hlow ?_ ?_
  · rcases hwhole with hneg | hall
    · simp only [Below.plain]
      omega
    · simp only [Below.plain]
      omega
  by_cases hfits : Plain.Fits s.below buffer
  · right
    obtain ⟨hbig, hr⟩ := h hfits
    have hpos : 0 ≤ (streamDoWrite Below.descriptor s.below buffer).1 := by
      by_contra hneg
      exact hr (plain_error hfits (by omega)).1
    obtain ⟨hall, htake⟩ := (plain_doWrite hfits).2 hpos
    simp only [Below.plain]
    rw [hall, htake, List.length_append]
    refine ⟨by exact_mod_cast hbig, by push_cast; rfl⟩
  · left
    have hexceeds := plain_misfit hfits
    simp only [Below.plain]
    rcases hwhole with hneg | hall
    · unfold Exceeds at hexceeds ⊢
      rw [if_pos hneg] at hexceeds ⊢
      exact hexceeds
    · rw [hall] at hexceeds ⊢
      exact hexceeds

/-! ## Runs -/

/-- What has left and what is queued is what was submitted. -/
def WriteRun.InOrder {σ : Type} (content : σ → Bytes) (r : WriteRun σ) : Prop := r.stream.total content = r.submitted

theorem WriteRun.not_inOrder {σ : Type} {b : Nat → Below σ} {content : σ → Bytes} {r : WriteRun σ}
    {buffer : Bytes} (h : r.InOrder content)
    (hexceeds : Exceeds buffer.length (streamDoWrite (b 0) r.stream buffer).1 (r.stream.total content)
      ((streamDoWrite (b 0) r.stream buffer).2.total content)) :
    ¬ (r.step b (.doWrite buffer)).InOrder content := by
  intro hafter
  unfold WriteRun.InOrder at h hafter
  simp only [WriteRun.step] at hafter
  rw [hafter, h] at hexceeds
  unfold Exceeds at hexceeds
  split at hexceeds
  · omega
  · rw [List.length_append] at hexceeds
    omega

/-- A call within the condition keeps the order and the invariant, a write outside of it exceeds what
was submitted: so a run keeps the order all along if and only if its writes are within the condition. -/
theorem inOrder_iff {σ : Type} {b : Nat → Below σ} {content : σ → Bytes} {Fits : Stream σ → Bytes → Prop}
    (Inv : Stream σ → Prop)
    (hkeep : ∀ (r : WriteRun σ) call, Inv r.stream → r.InOrder content →
      (∀ buffer, call = .doWrite buffer → Fits r.stream buffer) →
        Inv (r.step b call).stream ∧ (r.step b call).InOrder content)
    (hexceed : ∀ (s : Stream σ) buffer, ¬ Fits s buffer →
      Exceeds buffer.length (streamDoWrite (b 0) s buffer).1 (s.total content)
        ((streamDoWrite (b 0) s buffer).2.total content))
    (start : WriteRun σ) (hinv : Inv start.stream) (hstart : start.InOrder content) (calls : List WriteCall) :
    (∀ before after, calls = before ++ after → (start.run b before).InOrder content) ↔
      ∀ before buffer after, calls = before ++ .doWrite buffer :: after →
        Fits (start.run b before).stream buffer := by
  have hrun : ∀ before call, start.run b (before ++ [call]) = (start.run b before).step b call := by
    intro before call
    simp [WriteRun.run]
  constructor
  · rintro hall before buffer after rfl
    by_contra hmisfit
    have hbefore := hall before _ rfl
    have hafter := hall (before ++ [.doWrite buffer]) after (by simp)
    rw [hrun] at hafter
    exact WriteRun.not_inOrder hbefore (hexceed _ _ hmisfit) hafter
  · intro hfits before after hcalls
    suffices h : Inv (start.run b before).stream ∧ (start.run b before).InOrder content from h.2
    induction before using List.reverseRecOn generalizing after with
    | nil => exact ⟨hinv, hstart⟩
    | append_singleton before call ih =>
      obtain ⟨hi, ho⟩ := ih (call :: after) (by rw [hcalls]; simp)
      rw [hrun]
      apply hkeep _ _ hi ho
      rintro buffer rfl
      exact hfits before buffer after (by rw [hcalls]; simp)

theorem plain_keeps (r : WriteRun Descriptor) (call : WriteCall) (h : r.InOrder Descriptor.accepted)
    (hfits : ∀ buffer, call = .doWrite buffer → Plain.Fits r.stream buffer) :
    (r.step (fun _ => Below.descriptor) call).InOrder Descriptor.accepted := by
  unfold WriteRun.InOrder at *
  cases call with
  | doWrite buffer =>
    obtain ⟨hfails, htakes⟩ := plain_doWrite (hfits buffer rfl)
    simp only [WriteRun.step]
    split
    · rename_i hneg
      rw [hfails hneg, h]
    · rename_i hpos
      rw [(htakes (by omega)).2, h]
  | handleOutgoingData => exact (total_handle conserves_descriptor r.stream).trans h
  | flush rounds => exact (total_flush conserves_descriptor rounds r.stream).trans h

/-- The queue of the upper stream stays empty: the lower one takes all that it does not fail. -/
theorem layered_keeps (r : WriteRun Plain) (call : WriteCall) (hempty : r.stream.outgoing = [])
    (h : r.InOrder (Stream.total Descriptor.accepted))
    (hfits : ∀ buffer, call = .doWrite buffer → Layered.Fits r.stream buffer) :
    (r.step Below.plain call).stream.outgoing = [] ∧
      (r.step Below.plain call).InOrder (Stream.total Descriptor.accepted) := by
  unfold WriteRun.InOrder at *
  cases call with
  | doWrite buffer =>
    obtain ⟨hnone, hfails, htakes⟩ := layered_doWrite 0 hempty (hfits buffer rfl)
    refine ⟨hnone, ?_⟩
    simp only [WriteRun.step]
    split
    · rename_i hneg
      rw [hfails hneg, h]
    · rename_i hpos
      rw [htakes (by omega), h]
  | handleOutgoingData =>
    obtain ⟨hnone, htotal⟩ := layered_handle 0 hempty
    exact ⟨hnone, htotal.trans h⟩
  | flush rounds =>
    obtain ⟨hnone, htotal⟩ := layered_flush rounds rounds hempty
    exact ⟨hnone, htotal.trans h⟩

/-- A new stream, alone and under another one. -/
def Plain.new (answers : List WriteAnswer) (tryAgain : Bool) : WriteRun Descriptor :=
  ⟨⟨[], ⟨[], answers, tryAgain⟩⟩, []⟩

def Layered.new (answers : List WriteAnswer) (tryAgain : Bool) : WriteRun Plain :=
  ⟨⟨[], (Plain.new answers tryAgain).stream⟩, []⟩

/-- The descriptor has accepted the front of what was submitted and the queues hold the rest, at
every point of a run, if and only if the count of every write that goes through is below 2^31. -/
theorem writes_inOrder_iff (answers : List WriteAnswer) (tryAgain : Bool) (calls : List WriteCall) :
    ((∀ before after, calls = before ++ after →
        let r := (Plain.new answers tryAgain).run (fun _ => Below.descriptor) before
        r.stream.below.accepted ++ r.stream.outgoing.flatten = r.submitted) ↔
      ∀ before buffer after, calls = before ++ .doWrite buffer :: after →
        Plain.Fits ((Plain.new answers tryAgain).run (fun _ => Below.descriptor) before).stream buffer) ∧
    ((∀ before after, calls = before ++ after →
        let r := (Layered.new answers tryAgain).run Below.plain before
        r.stream.below.below.accepted ++ r.stream.below.outgoing.flatten ++ r.stream.outgoing.flatten =
          r.submitted) ↔
      ∀ before buffer after, calls = before ++ .doWrite buffer :: after →
        Layered.Fits ((Layered.new answers tryAgain).run Below.plain before).stream buffer) := by
  constructor
  · exact inOrder_iff (fun _ => True) (fun r call _ h hfits => ⟨trivial, plain_keeps r call h hfits⟩)
      (fun s buffer => plain_misfit) (Plain.new answers tryAgain) trivial rfl calls
  · exact inOrder_iff (fun s => s.outgoing = []) layered_keeps (fun s buffer => layered_misfit 0)
      (Layered.new answers tryAgain) rfl rfl calls

/-- A buffer of 2^31 bytes on a stream over one with nothing queued: the lower stream takes all of it
and says so, the upper one reads a negative count and returns it as an error. -/
theorem layered_notInOrder {buffer : Bytes} (hlen : buffer.length = 2 ^ 31) :
    ¬ (let r := (Layered.new [.accept 0x7ffff000] false).run Below.plain [.doWrite buffer]
      r.stream.below.below.accepted ++ r.stream.below.outgoing.flatten ++ r.stream.outgoing.flatten =
        r.submitted) := by
  have hmisfit : ¬ Layered.Fits (Layered.new [.accept 0x7ffff000] false).stream buffer := by
    intro hfits
    obtain ⟨-, hsmall | ⟨-, hrefuses⟩⟩ := hfits rfl
    · omega
    · cases hrefuses
  have hstart : (Layered.new [.accept 0x7ffff000] false).InOrder (Stream.total Descriptor.accepted) := rfl
  exact WriteRun.not_inOrder (b := Below.plain) hstart (layered_misfit 0 hmisfit)

theorem writes_notInOrder :
    ¬ (let r := (Layered.new [.accept 0x7ffff000] false).run Below.plain [.doWrite (List.replicate (2 ^ 31) 0)]
      r.stream.below.below.accepted ++ r.stream.below.outgoing.flatten ++ r.stream.outgoing.flatten =
        r.submitted) :=
  layered_notInOrder List.length_replicate

end CMx
