/-
`idler.c`: an application waits for its streams with one call of `select`, and then asks for those that need
attention, one after the other. The streams are in a list of `queue.h`, in memory; a stream is known here by its
layers, of which the lowest has the descriptor. The kernel says which descriptors are ready.
-/
import CMx.Queue
import CMx.StreamMqtt.State

namespace CMx

open Links
open Mqtt (Bytes StreamStatus)

/-! ## Streams -/

structure StreamLayer where
  fd : Int
  status : StreamStatus
  outgoing : List Bytes
  deriving DecidableEq, Repr

/-- A stream, over the one that it decorates. -/
inductive StreamStack where
  | plain (layer : StreamLayer)
  | decorating (layer : StreamLayer) (decorated : StreamStack)
  deriving DecidableEq, Repr

def streamGetFd : StreamStack → Int
  | .plain layer => layer.fd
  | .decorating _ decorated => streamGetFd decorated

def streamGetStatus : StreamStack → StreamStatus
  | .plain layer | .decorating layer _ => layer.status

/-- The data of a layer may be pushed only if the stream below it is ready. -/
def streamHasOutgoingData : StreamStack → Bool
  | .plain layer => !layer.outgoing.isEmpty
  | .decorating layer decorated =>
    if streamGetStatus decorated = .ready && !layer.outgoing.isEmpty then true else streamHasOutgoingData decorated

/-! ## Descriptor sets -/

abbrev FdSet := Finset Int

def fdSetsize : Int := 1024

/-- `FD_SET`; there is no room for other descriptors. -/
def fdSet (fd : Int) (fds : FdSet) : Option FdSet := if 0 ≤ fd ∧ fd < fdSetsize then some (insert fd fds) else none

/-- `FD_ISSET`. -/
def fdIsset (fd : Int) (fds : FdSet) : Option Bool := if 0 ≤ fd ∧ fd < fdSetsize then some (fd ∈ fds) else none

/-- How `select` ends: some descriptors are ready, maybe none before the time is over, or it fails, then it
leaves the sets alone. -/
inductive SelectAnswer where
  | ready (readable writable : Int → Bool)
  | interrupted
  | failed

/-- It looks at the descriptors below `nfds` only. -/
def select (nfds : Int) (readfds writefds : FdSet) : SelectAnswer → Int × FdSet × FdSet
  | .ready readable writable =>
    let readfds := readfds.filter fun fd => fd < nfds ∧ readable fd
    let writefds := writefds.filter fun fd => fd < nfds ∧ writable fd
    (readfds.card + writefds.card, readfds, writefds)
  | .interrupted | .failed => (-1, readfds, writefds)

/-! ## The idler -/

structure Idler (α : Type) where
  readFds : FdSet
  writeFds : FdSet
  streams : Memory Unit α StreamStack

inductive IdlerStatus where
  | error | interrupt | timeout | operation
  deriving DecidableEq, Repr

def streamIncomingReady : Nat := 1
def streamOutgoingReady : Nat := 2

section Functions

variable {α : Type} [DecidableEq α] (self : Idler α)

/-- The sets of a new idler are whatever its memory held. -/
def idlerNew : Option (Idler α) := do
  let streams ← listInit self.streams ()
  return { self with streams }

def idlerAddStream (stream : α) : Option (Idler α) := do
  let streams ← listInsertHead self.streams () stream
  return { self with streams }

def idlerRemoveStream (stream : α) : Option (Idler α) := do
  let streams ← listRemove self.streams stream
  return { self with streams }

/-- One round of the loop of `idler_prepare`. -/
def idlerPrepareStream (sets : Int × FdSet × FdSet) (stream : α) : Option (Except Empty (Int × FdSet × FdSet)) := do
  let (maxFd, readfds, writefds) := sets
  let stack ← self.streams.data stream
  let fd := streamGetFd stack
  let maxFd := if fd > maxFd then fd else maxFd
  let readfds ← fdSet fd readfds
  let writefds ← if streamHasOutgoingData stack then fdSet fd writefds else some writefds
  return .ok (maxFd, readfds, writefds)

/-- `n` bounds the rounds of the loops, here and below. -/
def idlerPrepare (n : Nat) : Option (Int × FdSet × FdSet) := do
  let first ← listFirst self.streams ()
  match ← forEach self.streams (idlerPrepareStream self) n first (0, ∅, ∅) with
  | .ok sets => return sets
  | .error result => result.elim

def idlerWait (n : Nat) (answer : SelectAnswer) : Option (IdlerStatus × Idler α) := do
  let (maxFd, readfds, writefds) ← idlerPrepare self n
  let (ret, readFds, writeFds) := select (maxFd + 1) readfds writefds answer
  let self := { self with readFds, writeFds }
  if ret > 0 then return (.operation, self)
  if ret = 0 then return (.timeout, self)
  match answer with
  | .interrupted => return (.interrupt, self)
  | _ => return (.error, self)

def idlerGetStreamStatus (stream : α) : Option Nat := do
  let stack ← self.streams.data stream
  let outgoing ← fdIsset (streamGetFd stack) self.writeFds
  let incoming ← fdIsset (streamGetFd stack) self.readFds
  return (if outgoing then streamOutgoingReady else 0) ||| if incoming then streamIncomingReady else 0

/-- One round of the loop of `idler_get_next_stream`, which stream needs attention. -/
def idlerCheckStream (currentStatus : Nat) (current : α) : Option (Except (α × Nat) Nat) := do
  let bits ← idlerGetStreamStatus self current
  let currentStatus := currentStatus ||| bits
  return if currentStatus ≠ 0 then .error (current, currentStatus) else .ok currentStatus

/-- Where the search for the next stream starts. -/
def idlerBehind (prev : Option α) : Option (Option α) :=
  match prev with
  | some stream => listNext self.streams stream
  | none => listFirst self.streams ()

/-- The next stream with its status, behind `prev` or from the first one on. -/
def idlerGetNextStream (n : Nat) (prev : Option α) : Option (Option (α × Nat)) := do
  let current ← idlerBehind self prev
  match ← forEach self.streams (idlerCheckStream self) n current 0 with
  | .error found => return some found
  | .ok _ => return none

/-- One round of the loop of `idler_find_stream`. -/
def idlerMatchStream (fd : Int) (_ : Unit) (stream : α) : Option (Except α Unit) := do
  let stack ← self.streams.data stream
  return if streamGetFd stack = fd then .error stream else .ok ()

def idlerFindStream (n : Nat) (fd : Int) : Option (Option α) := do
  let first ← listFirst self.streams ()
  match ← forEach self.streams (idlerMatchStream self fd) n first () with
  | .error stream => return some stream
  | .ok () => return none

/-- How an application uses the iteration: it asks for the next stream until there is none, and may take the
stream it has got off the idler before it asks again. -/
def idlerVisit (n : Nat) (takes : α → Bool) : (rounds : Nat) → Idler α → (prev : Option α) → (visited : List (α × Nat)) →
    Option (List (α × Nat) × Idler α)
  | 0, _, _, _ => none
  | rounds + 1, self, prev, visited => do
    match ← idlerGetNextStream self n prev with
    | none => return (visited, self)
    | some (stream, status) =>
      let self ← if takes stream then idlerRemoveStream self stream else some self
      idlerVisit n takes rounds self (some stream) (visited ++ [(stream, status)])

end Functions

/-! ## One round of waiting -/

section Round

variable {α : Type} {i : Idler α} {xs : List α} {stack : α → StreamStack}

/-- The list of the idler, and the streams in it: each has a descriptor that fits into the sets. -/
structure Idler.Has (i : Idler α) (xs : List α) (stack : α → StreamStack) : Prop where
  shape : Shape i.streams fun _ => xs
  data : ∀ x ∈ xs, i.streams.data x = some (stack x)
  nonneg : ∀ x ∈ xs, 0 ≤ streamGetFd (stack x)
  fits : ∀ x ∈ xs, streamGetFd (stack x) < fdSetsize

/-- What one stream adds to the sets. -/
def prepareStream (stack : α → StreamStack) (sets : Int × FdSet × FdSet) (x : α) : Int × FdSet × FdSet :=
  (max sets.1 (streamGetFd (stack x)), insert (streamGetFd (stack x)) sets.2.1,
    if streamHasOutgoingData (stack x) then insert (streamGetFd (stack x)) sets.2.2 else sets.2.2)

theorem prepareStream_fold (xs : List α) (sets : Int × FdSet × FdSet) :
    sets.1 ≤ (xs.foldl (prepareStream stack) sets).1 ∧
      (∀ x ∈ xs, streamGetFd (stack x) ≤ (xs.foldl (prepareStream stack) sets).1) ∧
      (∀ fd, fd ∈ (xs.foldl (prepareStream stack) sets).2.1 ↔ fd ∈ sets.2.1 ∨ ∃ x ∈ xs, streamGetFd (stack x) = fd) ∧
      ∀ fd, fd ∈ (xs.foldl (prepareStream stack) sets).2.2 ↔
        fd ∈ sets.2.2 ∨ ∃ x ∈ xs, streamGetFd (stack x) = fd ∧ streamHasOutgoingData (stack x) = true := by
  induction xs generalizing sets with
  | nil => simp
  | cons x xs ih =>
    obtain ⟨hle, hmax, hread, hwrite⟩ := ih (prepareStream stack sets x)
    rw [List.foldl_cons]
    refine ⟨?_, ?_, fun fd => ?_, fun fd => ?_⟩
    · exact (le_max_left _ _).trans hle
    · intro y hy
      rcases List.mem_cons.1 hy with rfl | hy
      · exact (le_max_right _ _).trans hle
      · exact hmax y hy
    · rw [hread]
      simp only [prepareStream, Finset.mem_insert, List.exists_mem_cons_iff]
      tauto
    · rw [hwrite]
      simp only [prepareStream, List.exists_mem_cons_iff]
      split
      · rename_i houtgoing
        rw [Finset.mem_insert]
        tauto
      · rename_i houtgoing
        tauto

theorem idlerPrepare_eq (h : i.Has xs stack) {n : Nat} (hn : xs.length ≤ n) :
    idlerPrepare i n = some (xs.foldl (prepareStream stack) (0, ∅, ∅)) := by
  have hbody : ∀ sets, ∀ x ∈ xs, idlerPrepareStream i sets x =
      some ((fun sets x => (.ok (prepareStream stack sets x) : Except Empty (Int × FdSet × FdSet))) sets x) := by
    intro sets x hx
    have hfd : 0 ≤ streamGetFd (stack x) ∧ streamGetFd (stack x) < fdSetsize := ⟨h.nonneg x hx, h.fits x hx⟩
    have hmax : (if streamGetFd (stack x) > sets.1 then streamGetFd (stack x) else sets.1) =
        max sets.1 (streamGetFd (stack x)) := by
      split <;> omega
    unfold idlerPrepareStream prepareStream
    simp only [h.data x hx, fdSet, if_pos hfd, hmax, Option.bind_eq_bind, Option.bind_some]
    cases streamHasOutgoingData (stack x) <;> rfl
  have hloop := forEach_eq (show Listed i.streams () ([] ++ xs) from h.shape.listed ()) hbody hn (0, ∅, ∅)
  unfold idlerPrepare
  simp only [listFirst_eq h.shape, hloop, foldlM_ok, Option.bind_eq_bind, Option.bind_some]
  rfl

/-- The status that the sets give a stream. -/
def streamBits (readFds writeFds : FdSet) (stack : α → StreamStack) (x : α) : Nat :=
  (if streamGetFd (stack x) ∈ writeFds then streamOutgoingReady else 0) |||
    if streamGetFd (stack x) ∈ readFds then streamIncomingReady else 0

/-- Whether the sets say that a stream needs attention. -/
def streamDue (readFds writeFds : FdSet) (stack : α → StreamStack) (x : α) : Bool :=
  streamBits readFds writeFds stack x ≠ 0

theorem streamDue_iff {readFds writeFds : FdSet} {x : α} : streamDue readFds writeFds stack x = true ↔
    streamGetFd (stack x) ∈ writeFds ∨ streamGetFd (stack x) ∈ readFds := by
  unfold streamDue streamBits streamOutgoingReady streamIncomingReady
  by_cases hwrite : streamGetFd (stack x) ∈ writeFds <;> by_cases hread : streamGetFd (stack x) ∈ readFds <;>
    simp [hwrite, hread]

theorem idlerGetStreamStatus_eq (h : i.Has xs stack) {x : α} (hx : x ∈ xs) :
    idlerGetStreamStatus i x = some (streamBits i.readFds i.writeFds stack x) := by
  have hfd : 0 ≤ streamGetFd (stack x) ∧ streamGetFd (stack x) < fdSetsize := ⟨h.nonneg x hx, h.fits x hx⟩
  unfold idlerGetStreamStatus streamBits
  simp only [h.data x hx, fdIsset, if_pos hfd, Option.bind_eq_bind, Option.bind_some]
  simp

/-- The loop finds the first stream that needs attention. -/
theorem checkStream_fold (readFds writeFds : FdSet) (xs : List α) :
    xs.foldlM (fun (currentStatus : Nat) x =>
      if currentStatus ||| streamBits readFds writeFds stack x ≠ 0 then
        (.error (x, currentStatus ||| streamBits readFds writeFds stack x) : Except (α × Nat) Nat)
      else .ok (currentStatus ||| streamBits readFds writeFds stack x)) 0 =
      match xs.find? (streamDue readFds writeFds stack) with
      | some x => .error (x, streamBits readFds writeFds stack x)
      | none => .ok 0 := by
  induction xs with
  | nil => rfl
  | cons x xs ih =>
    rw [List.foldlM_cons]
    by_cases hbits : streamBits readFds writeFds stack x = 0
    · have hdue : streamDue readFds writeFds stack x = false := by simp [streamDue, hbits]
      simp only [hbits, Nat.or_zero, ne_eq, not_true_eq_false, if_false, List.find?_cons, hdue]
      exact ih
    · have hdue : streamDue readFds writeFds stack x = true := by simp [streamDue, hbits]
      simp only [Nat.zero_or, ne_eq, hbits, not_false_eq_true, if_true, List.find?_cons, hdue]
      rfl

theorem idlerGetNextStream_eq {kept rest : List α} (h : i.Has (kept ++ rest) stack) {n : Nat} (hn : rest.length ≤ n)
    {prev : Option α} (hprev : idlerBehind i prev = some rest.head?) :
    idlerGetNextStream i n prev = some ((rest.find? (streamDue i.readFds i.writeFds stack)).map fun x =>
      (x, streamBits i.readFds i.writeFds stack x)) := by
  have hbody : ∀ currentStatus, ∀ x ∈ rest, idlerCheckStream i currentStatus x = some
      ((fun (currentStatus : Nat) x => if currentStatus ||| streamBits i.readFds i.writeFds stack x ≠ 0 then
        (.error (x, currentStatus ||| streamBits i.readFds i.writeFds stack x) : Except (α × Nat) Nat)
      else .ok (currentStatus ||| streamBits i.readFds i.writeFds stack x)) currentStatus x) := by
    intro currentStatus x hx
    unfold idlerCheckStream
    rw [idlerGetStreamStatus_eq h (List.mem_append_right _ hx)]
    rfl
  have hloop := forEach_eq (h.shape.listed ()) hbody hn 0
  rw [checkStream_fold] at hloop
  unfold idlerGetNextStream
  simp only [hprev, hloop, Option.bind_eq_bind, Option.bind_some]
  cases rest.find? (streamDue i.readFds i.writeFds stack) <;> rfl

variable [DecidableEq α]

/-- A stream that is taken off the idler keeps its pointer to the one that was behind it. -/
theorem idlerRemoveStream_eq {as bs : List α} {x : α} (h : i.Has (as ++ x :: bs) stack) :
    ∃ i', idlerRemoveStream i x = some i' ∧ i'.Has (as ++ bs) stack ∧ i'.readFds = i.readFds ∧ i'.writeFds = i.writeFds ∧
      i'.streams.data = i.streams.data ∧ listNext i'.streams x = some bs.head? := by
  obtain ⟨streams, he, hdata, hlink, hshape⟩ := listRemove_spec h.shape (h := ()) rfl
  have hx : (i.streams.data x).isSome = true := by
    rw [h.data x (by simp)]
    rfl
  have hlist : Listed i.streams () (as ++ x :: bs) := h.shape.listed ()
  have hmem : ∀ y ∈ as ++ bs, y ∈ as ++ x :: bs := by
    intro y hy
    simp only [List.mem_append, List.mem_cons] at hy ⊢
    tauto
  refine ⟨{ i with streams }, ?_, ⟨?_, ?_, ?_, ?_⟩, rfl, rfl, hdata, ?_⟩
  · unfold idlerRemoveStream
    rw [he]
    rfl
  · convert hshape using 1
    funext u
    rw [Function.update_self]
  · intro y hy
    exact (congrFun hdata y).trans (h.data y (hmem y hy))
  · exact fun y hy => h.nonneg y (hmem y hy)
  · exact fun y hy => h.fits y (hmem y hy)
  · unfold listNext
    rw [Memory.getLink_eq (show streams.held (.entry x) = true by rw [Memory.held_entry, hdata]; exact hx), hlink, hlist.next]

/-- The visits, from any place of the list on. -/
theorem idlerVisit_eq {n : Nat} (takes : α → Bool) : ∀ {rounds : Nat} {kept rest : List α} {i : Idler α} {prev : Option α}
    (visited : List (α × Nat)), i.Has (kept ++ rest) stack → idlerBehind i prev = some rest.head? →
      rest.length < rounds → rest.length ≤ n →
      ∃ i', idlerVisit n takes rounds i prev visited =
          some (visited ++ (rest.filter (streamDue i.readFds i.writeFds stack)).map fun x =>
            (x, streamBits i.readFds i.writeFds stack x), i') ∧
        i'.Has (kept ++ rest.filter fun x => !(streamDue i.readFds i.writeFds stack x && takes x)) stack := by
  intro rounds
  induction rounds with
  | zero =>
    intro kept rest i prev visited _ _ hrounds _
    exact absurd hrounds (Nat.not_lt_zero _)
  | succ rounds ih =>
    intro kept rest i prev visited h hprev hrounds hn
    unfold idlerVisit
    rw [idlerGetNextStream_eq h hn hprev]
    simp only [Option.bind_eq_bind, Option.bind_some]
    cases hfind : rest.find? (streamDue i.readFds i.writeFds stack) with
    -- nobody is due any more, and the rest is kept
    | none =>
      have hnone := List.find?_eq_none.1 hfind
      have hseen : rest.filter (streamDue i.readFds i.writeFds stack) = [] := List.filter_eq_nil_iff.2 hnone
      have hkept : rest.filter (fun x => !(streamDue i.readFds i.writeFds stack x && takes x)) = rest := by
        rw [List.filter_eq_self]
        intro x hx
        simp [hnone x hx]
      refine ⟨i, ?_, ?_⟩
      · rw [hseen, List.map_nil, List.append_nil]
        rfl
      · rw [hkept]
        exact h
    -- up to the next one that is due all are kept
    | some x =>
      obtain ⟨hx, pre, post, hrest, hpre⟩ := List.find?_eq_some_iff_append.1 hfind
      subst hrest
      have hpreSeen : pre.filter (streamDue i.readFds i.writeFds stack) = [] := by
        rw [List.filter_eq_nil_iff]
        intro y hy
        simpa using hpre y hy
      have hpreKept : pre.filter (fun x => !(streamDue i.readFds i.writeFds stack x && takes x)) = pre := by
        rw [List.filter_eq_self]
        intro y hy
        have hdue : streamDue i.readFds i.writeFds stack y = false := by simpa using hpre y hy
        simp [hdue]
      have hsplit : kept ++ (pre ++ x :: post) = (kept ++ pre) ++ x :: post := (List.append_assoc ..).symm
      have hlength : post.length < rounds ∧ post.length ≤ n := by
        simp only [List.length_append, List.length_cons] at hrounds hn
        omega
      rw [List.filter_append, List.filter_append, hpreSeen, hpreKept, List.filter_cons_of_pos hx]
      rw [hsplit] at h
      cases htakes : takes x with
      -- it is removed, and the search goes on behind its place
      | true =>
        obtain ⟨i₁, he₁, h₁, hread, hwrite, -, hnext⟩ := idlerRemoveStream_eq h
        obtain ⟨i₂, he₂, h₂⟩ := ih (visited ++ [(x, streamBits i.readFds i.writeFds stack x)]) h₁
          (show idlerBehind i₁ (some x) = some post.head? from hnext) hlength.1 hlength.2
        rw [hread, hwrite] at he₂ h₂
        refine ⟨i₂, ?_, ?_⟩
        · simp only [Option.map_some, htakes, if_true, he₁, Option.bind_some, he₂]
          simp
        · rw [List.filter_cons_of_neg (by simp [htakes, hx]), ← List.append_assoc]
          exact h₂
      -- it stays, and the search goes on behind it
      | false =>
        have hnext : listNext i.streams x = some post.head? := listNext_eq h.shape (h := ()) rfl
        obtain ⟨i₂, he₂, h₂⟩ := ih (visited ++ [(x, streamBits i.readFds i.writeFds stack x)])
          (show i.Has ((kept ++ pre ++ [x]) ++ post) stack by simpa using h)
          (show idlerBehind i (some x) = some post.head? from hnext) hlength.1 hlength.2
        refine ⟨i₂, ?_, ?_⟩
        · simp only [Option.map_some, htakes, Bool.false_eq_true, if_false, he₂]
          simp
        · rw [List.filter_cons_of_pos (by simp [htakes])]
          simpa using h₂

/-- The status of a stream by what the kernel says: a descriptor is looked at for writing only if a stream with
data has it. -/
def streamStatus (readable writable : Int → Bool) (xs : List α) (stack : α → StreamStack) (x : α) : Nat :=
  (if writable (streamGetFd (stack x)) ∧ ∃ y ∈ xs, streamGetFd (stack y) = streamGetFd (stack x) ∧
      streamHasOutgoingData (stack y) then streamOutgoingReady else 0) |||
    if readable (streamGetFd (stack x)) then streamIncomingReady else 0

omit [DecidableEq α] in
/-- No descriptor is above what `select` looks at. -/
theorem idlerWait_ready (h : i.Has xs stack) {n : Nat} (hn : xs.length ≤ n) (readable writable : Int → Bool) :
    ∃ i', idlerWait i n (.ready readable writable) =
        some (if ∃ x ∈ xs, streamStatus readable writable xs stack x ≠ 0 then .operation else .timeout, i') ∧
      i'.Has xs stack ∧
      ∀ x ∈ xs, streamBits i'.readFds i'.writeFds stack x = streamStatus readable writable xs stack x := by
  have hprepare := idlerPrepare_eq h hn
  obtain ⟨-, hmax, hread, hwrite⟩ := @prepareStream_fold _ stack xs (0, ∅, ∅)
  generalize xs.foldl (prepareStream stack) (0, ∅, ∅) = sets at hprepare hmax hread hwrite
  obtain ⟨maxFd, readfds, writefds⟩ := sets
  let readFds : FdSet := readfds.filter fun fd => fd < maxFd + 1 ∧ readable fd = true
  let writeFds : FdSet := writefds.filter fun fd => fd < maxFd + 1 ∧ writable fd = true
  have hreadFds : ∀ fd, fd ∈ readFds ↔ readable fd = true ∧ ∃ x ∈ xs, streamGetFd (stack x) = fd := by
    intro fd
    rw [Finset.mem_filter, hread]
    constructor
    · rintro ⟨hfd | hfd, -, hready⟩
      · cases hfd
      · exact ⟨hready, hfd⟩
    · rintro ⟨hready, x, hx, rfl⟩
      exact ⟨Or.inr ⟨x, hx, rfl⟩, by have := hmax x hx; omega, hready⟩
  have hwriteFds : ∀ fd, fd ∈ writeFds ↔ writable fd = true ∧
      ∃ x ∈ xs, streamGetFd (stack x) = fd ∧ streamHasOutgoingData (stack x) = true := by
    intro fd
    rw [Finset.mem_filter, hwrite]
    constructor
    · rintro ⟨hfd | hfd, -, hready⟩
      · cases hfd
      · exact ⟨hready, hfd⟩
    · rintro ⟨hready, x, hx, rfl, houtgoing⟩
      exact ⟨Or.inr ⟨x, hx, rfl, houtgoing⟩, by have := hmax x hx; omega, hready⟩
  have hbits : ∀ x ∈ xs, streamBits readFds writeFds stack x = streamStatus readable writable xs stack x := by
    intro x hx
    have hreadX : streamGetFd (stack x) ∈ readFds ↔ readable (streamGetFd (stack x)) = true := by
      rw [hreadFds]
      exact and_iff_left ⟨x, hx, rfl⟩
    unfold streamBits streamStatus
    simp only [hreadX, hwriteFds]
  -- `select` counts descriptors: a positive count has the descriptor of some stream
  have hret : (0 : Int) < readFds.card + writeFds.card ↔ ∃ x ∈ xs, streamStatus readable writable xs stack x ≠ 0 := by
    have hdue : ∀ x ∈ xs, streamStatus readable writable xs stack x ≠ 0 ↔
        streamGetFd (stack x) ∈ writeFds ∨ streamGetFd (stack x) ∈ readFds := by
      intro x hx
      rw [← hbits x hx, ← streamDue_iff]
      simp [streamDue]
    constructor
    · intro hpos
      have hnonempty : 0 < readFds.card ∨ 0 < writeFds.card := by omega
      rcases hnonempty with hcard | hcard
      · obtain ⟨fd, hfd⟩ := Finset.card_pos.1 hcard
        obtain ⟨-, x, hx, rfl⟩ := (hreadFds fd).1 hfd
        exact ⟨x, hx, (hdue x hx).2 (Or.inr hfd)⟩
      · obtain ⟨fd, hfd⟩ := Finset.card_pos.1 hcard
        obtain ⟨-, x, hx, rfl, -⟩ := (hwriteFds fd).1 hfd
        exact ⟨x, hx, (hdue x hx).2 (Or.inl hfd)⟩
    · rintro ⟨x, hx, hstatus⟩
      rcases (hdue x hx).1 hstatus with hfd | hfd
      · have := Finset.card_pos.2 ⟨_, hfd⟩
        omega
      · have := Finset.card_pos.2 ⟨_, hfd⟩
        omega
  refine ⟨{ i with readFds, writeFds }, ?_, ⟨h.shape, h.data, h.nonneg, h.fits⟩, hbits⟩
  unfold idlerWait
  simp only [hprepare, select, Option.bind_eq_bind, Option.bind_some]
  by_cases hdue : ∃ x ∈ xs, streamStatus readable writable xs stack x ≠ 0
  · rw [if_pos hdue, if_pos (show (readFds.card + writeFds.card : Int) > 0 from hret.2 hdue)]
    rfl
  · have hzero : (readFds.card + writeFds.card : Int) = 0 := by
      have := mt hret.1 hdue
      omega
    rw [if_neg hdue, if_neg (by have := mt hret.1 hdue; exact this), if_pos hzero]
    rfl

end Round

/-! ## Runs -/

section Runs

variable {α : Type} [DecidableEq α] {i : Idler α} {stack : α → StreamStack}

inductive IdlerOp (α : Type) where
  | addStream (stream : α)
  | removeStream (stream : α)

def IdlerOp.exec (i : Idler α) : IdlerOp α → Option (Idler α)
  | .addStream stream => idlerAddStream i stream
  | .removeStream stream => idlerRemoveStream i stream

def IdlerOp.apply (xs : List α) : IdlerOp α → List α
  | .addStream stream => stream :: xs
  | .removeStream stream => xs.erase stream

/-- Streams are added once, with a descriptor that `select` takes, and removed while they are in the list. -/
def IdlerOp.Allowed (i : Idler α) (stack : α → StreamStack) (xs : List α) : IdlerOp α → Prop
  | .addStream stream => stream ∉ xs ∧ i.streams.data stream = some (stack stream) ∧
      0 ≤ streamGetFd (stack stream) ∧ streamGetFd (stack stream) < fdSetsize
  | .removeStream stream => stream ∈ xs

def IdlerAllowed (i : Idler α) (stack : α → StreamStack) : List α → List (IdlerOp α) → Prop
  | _, [] => True
  | xs, op :: ops => op.Allowed i stack xs ∧ IdlerAllowed i stack (op.apply xs) ops

theorem idlerOp_exec {xs : List α} (h : i.Has xs stack) {op : IdlerOp α} (hop : op.Allowed i stack xs) :
    ∃ i', op.exec i = some i' ∧ i'.Has (op.apply xs) stack ∧ i'.streams.data = i.streams.data := by
  cases op with
  | addStream x =>
    obtain ⟨hnew, hdata, hnonneg, hfits⟩ := hop
    obtain ⟨streams, he, hsame, hshape⟩ := listInsertHead_spec h.shape (Option.isSome_iff_exists.2 ⟨_, hdata⟩)
      (fun _ => hnew) ()
    refine ⟨{ i with streams }, ?_, ⟨?_, ?_, ?_, ?_⟩, hsame⟩
    · simp only [IdlerOp.exec, idlerAddStream, he, Option.bind_eq_bind, Option.bind_some]
      rfl
    · convert hshape using 1
      funext u
      rw [Function.update_self]
      rfl
    · intro y hy
      refine (congrFun hsame y).trans ?_
      rcases List.mem_cons.1 hy with rfl | hy
      · exact hdata
      · exact h.data y hy
    · intro y hy
      rcases List.mem_cons.1 hy with rfl | hy
      · exact hnonneg
      · exact h.nonneg y hy
    · intro y hy
      rcases List.mem_cons.1 hy with rfl | hy
      · exact hfits
      · exact h.fits y hy
  | removeStream x =>
    obtain ⟨as, bs, hx, rfl, herase⟩ := List.exists_erase_eq (show x ∈ xs from hop)
    obtain ⟨i', he, h', -, -, hdata, -⟩ := idlerRemoveStream_eq h
    refine ⟨i', he, ?_, hdata⟩
    show i'.Has ((as ++ x :: bs).erase x) stack
    rw [herase]
    exact h'

/-- What is allowed depends on the streams and not on the list they are in. -/
theorem idlerAllowed_congr {i' : Idler α} (hdata : i'.streams.data = i.streams.data) : ∀ {ops : List (IdlerOp α)} {xs : List α},
    IdlerAllowed i stack xs ops → IdlerAllowed i' stack xs ops
  | [], _, _ => trivial
  | op :: ops, xs, ⟨hop, hops⟩ => by
    refine ⟨?_, idlerAllowed_congr hdata hops⟩
    cases op with
    | addStream x =>
      unfold IdlerOp.Allowed at hop ⊢
      rwa [hdata]
    | removeStream x => exact hop

theorem idlerOp_run : ∀ {ops : List (IdlerOp α)} {xs : List α} {i : Idler α}, i.Has xs stack → IdlerAllowed i stack xs ops →
    ∃ i', ops.foldlM IdlerOp.exec i = some i' ∧ i'.Has (ops.foldl IdlerOp.apply xs) stack
  | [], xs, i, h, _ => ⟨i, rfl, h⟩
  | op :: ops, xs, i, h, hops => by
    obtain ⟨i₁, he₁, h₁, hdata⟩ := idlerOp_exec h hops.1
    obtain ⟨i₂, he₂, h₂⟩ := idlerOp_run h₁ (idlerAllowed_congr hdata hops.2)
    refine ⟨i₂, ?_, h₂⟩
    rw [List.foldlM_cons, he₁]
    exact he₂

/-- After any run of adding and removing, and one call of `idler_wait` that `select` ends: the iteration gives every
stream that is ready and no other, each once, with its status and in the order of the list, the one added last
first; and streams that are taken off the idler while the iteration is at them are gone from the list, and no other. -/
theorem idler_round (i : Idler α) {ops : List (IdlerOp α)} (hops : IdlerAllowed i stack [] ops) :
    ∃ i₁, (do ops.foldlM IdlerOp.exec (← idlerNew i)) = some i₁ ∧
      let xs := ops.foldl IdlerOp.apply []
      ∀ n, xs.length ≤ n → ∀ readable writable,
        let status := streamStatus readable writable xs stack
        ∃ i₂, idlerWait i₁ n (.ready readable writable) =
            some (if ∃ x ∈ xs, status x ≠ 0 then .operation else .timeout, i₂) ∧
          ∀ takes : α → Bool, ∃ i₃, idlerVisit n takes (n + 1) i₂ none [] =
              some ((xs.filter fun x => status x ≠ 0).map fun x => (x, status x), i₃) ∧
            i₃.Has (xs.filter fun x => !(status x ≠ 0 && takes x)) stack := by
  obtain ⟨i₀, hinit, hdata, hempty⟩ : ∃ i₀, idlerNew i = some i₀ ∧ i₀.streams.data = i.streams.data ∧
      i₀.streams.link (.head ()) = none := ⟨_, rfl, rfl, by simp⟩
  have hnew : i₀.Has [] stack := by
    refine ⟨⟨fun _ => ⟨trivial, hempty, List.nodup_nil⟩, ?_⟩, ?_, ?_, ?_⟩
    all_goals simp
  obtain ⟨i₁, he₁, h₁⟩ := idlerOp_run hnew (idlerAllowed_congr hdata hops)
  refine ⟨i₁, by rw [hinit]; exact he₁, ?_⟩
  intro xs n hn readable writable status
  obtain ⟨i₂, he₂, h₂, hbits⟩ := idlerWait_ready h₁ hn readable writable
  refine ⟨i₂, he₂, fun takes => ?_⟩
  have hfirst : idlerBehind i₂ none = some xs.head? := listFirst_eq h₂.shape ()
  obtain ⟨i₃, he₃, h₃⟩ := idlerVisit_eq takes [] (show i₂.Has ([] ++ xs) stack from h₂) hfirst (Nat.lt_succ_of_le hn) hn
  -- what the round goes by is what the wait has found
  have hdue : ∀ x ∈ xs, streamDue i₂.readFds i₂.writeFds stack x = decide (status x ≠ 0) := by
    intro x hx
    unfold streamDue
    rw [hbits x hx]
  have hkept : ∀ x ∈ xs, (!(streamDue i₂.readFds i₂.writeFds stack x && takes x)) = !(decide (status x ≠ 0) && takes x) := by
    intro x hx
    rw [hdue x hx]
  have hpairs : ∀ x ∈ xs.filter fun x => decide (status x ≠ 0),
      (x, streamBits i₂.readFds i₂.writeFds stack x) = (x, status x) := by
    intro x hx
    rw [hbits x (List.mem_of_mem_filter hx)]
  refine ⟨i₃, ?_, ?_⟩
  · rw [he₃, List.nil_append, List.filter_congr hdue, List.map_congr_left hpairs]
  · rw [List.filter_congr hkept] at h₃
    exact h₃

/-- Streams numbered from 0 on, over the descriptors from 3 on; those with an odd number have data to send. -/
def numberedStreams (x : Nat) : StreamStack := .plain ⟨x + 3, .ready, if x % 2 = 1 then [[0x78]] else []⟩

def numberedIdler : Idler Nat := ⟨∅, ∅, ⟨fun _ => none, id, fun x => some (numberedStreams x)⟩⟩

/-- The second and the third stream stay, and both are ready to be read. -/
theorem idler_round_readable : ∃ i₁, (do
      [IdlerOp.addStream 0, .addStream 1, .addStream 2, .removeStream 0].foldlM IdlerOp.exec (← idlerNew numberedIdler)) =
        some i₁ ∧
    ∃ i₂, idlerWait i₁ 2 (.ready (fun _ => true) fun _ => true) = some (.operation, i₂) ∧
      ∃ i₃, idlerVisit 2 (fun x => x = 2) 3 i₂ none [] = some ([(2, 1), (1, 3)], i₃) ∧ i₃.Has [1] numberedStreams := by
  have hops : IdlerAllowed numberedIdler numberedStreams [] [.addStream 0, .addStream 1, .addStream 2, .removeStream 0] := by
    have hremove : 0 ∈ [2, 1, 0] := by decide
    refine ⟨⟨?_, rfl, ?_, ?_⟩, ⟨?_, rfl, ?_, ?_⟩, ⟨?_, rfl, ?_, ?_⟩, hremove, trivial⟩ <;> decide
  obtain ⟨i₁, he₁, h⟩ := idler_round numberedIdler hops
  obtain ⟨i₂, he₂, h⟩ := h 2 (by decide) (fun _ => true) fun _ => true
  obtain ⟨i₃, he₃, h₃⟩ := h fun x => x = 2
  exact ⟨i₁, he₁, i₂, he₂, i₃, he₃, h₃⟩

end Runs

end CMx
