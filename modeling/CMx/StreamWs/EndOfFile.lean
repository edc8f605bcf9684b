/-
The end of the connection as `stream_ws_do_read` reports it. A result of 0 is meant to say that the
peer has closed, but an empty message, or an empty part of one, gives 0 as well; and the 0 of a
closed connection is taken for data to come if `errno` still says EAGAIN, from an earlier call or from
the PONG of this one that could not be written at once.
-/
import CMx.StreamWs.Reassembly

namespace CMx.Ws

open Mqtt (Bytes StreamStatus ReadEnd Errno)
open Framing (drain)

/-! ## What a read returns -/

/-- The decorated stream has been read until it returned 0. -/
def ReadsClosed (sha1 : Sha1) (env : Env) (s : StreamWs) (reads : List Chunk) (last : ReadEnd) : Prop :=
  last = .closed ∧ ∃ left s', streamWsPeekLoop sha1 env reads s = some (left, .ended, s')

/-- When a read with the message `front` in front returns 0. -/
def ReturnsZero (errno : Errno) (last : ReadEnd) (front : Option WsFrameSlice) : Prop :=
  if front.any (·.fin) then ∀ m ∈ front, m.buffer = []
  else
    match last with
    | .again => ∃ m ∈ front, m.buffer = []
    | .closed => errno ≠ .again ∨ ∃ m ∈ front, m.buffer = []
    | .error => False

/-- Taking bytes returns 0 for a message without bytes. -/
theorem take_zero_iff {s : StreamWs} {length : Nat} (hlength : 0 < length) :
    (streamWsTake s length).1 = .ok [] ↔ ∃ m ∈ s.cache.head?, m.buffer = [] := by
  unfold streamWsTake
  cases s.cache with
  | nil => simp
  | cons m cache =>
    have hpos : length ≠ 0 := Nat.pos_iff_ne_zero.1 hlength
    simp [List.take_eq_nil_iff, hpos]

/-- What a read returns that has left its loop with a complete message in front. -/
theorem doRead_waiting {sha1 : Sha1} {env : Env} {s t : StreamWs} {reads left : List Chunk} (last : ReadEnd)
    {length : Nat} (hlength : 0 < length) (hloop : streamWsPeekLoop sha1 env reads s = some (left, .waiting, t))
    (hwaiting : t.waiting = true) :
    ∃ taken s', streamWsDoRead sha1 env s reads last length = some (taken, left, s') ∧
      (taken = .ok [] ↔ ReturnsZero (env.errnoBehind (t.writeCount - s.writeCount)) last t.cache.head?) := by
  have htake := take_zero_iff (s := t) hlength
  unfold StreamWs.waiting at hwaiting
  unfold streamWsDoRead streamWsPeekFrame ReturnsZero
  rw [hloop, if_pos hwaiting]
  simp only [Option.map_some, streamWsPeeked]
  cases hcache : t.cache with
  | nil => rw [hcache] at hwaiting; cases hwaiting
  | cons m cache =>
    rw [hcache] at hwaiting htake
    have hfin : m.fin = true := by simpa using hwaiting
    simp only [hfin, if_true]
    have hfront : (∃ m' ∈ (m :: cache).head?, m'.buffer = []) ↔ ∀ m' ∈ (m :: cache).head?, m'.buffer = [] := by simp
    cases hlen : m.buffer.length with
    | zero =>
      have hempty : m.buffer = [] := List.eq_nil_of_length_eq_zero hlen
      by_cases herrno : env.errnoBehind (t.writeCount - s.writeCount) ≠ .again
      · simp only [if_pos herrno]
        exact ⟨_, _, rfl, iff_of_true rfl (by simpa using hempty)⟩
      · simp only [if_neg herrno]
        exact ⟨_, _, rfl, htake.trans hfront⟩
    | succ n => exact ⟨_, _, rfl, htake.trans hfront⟩

/-- What a read returns that has made all its reads. -/
theorem doRead_ended {sha1 : Sha1} {env : Env} {s t : StreamWs} {reads left : List Chunk} (last : ReadEnd)
    {length : Nat} (hlength : 0 < length) (hloop : streamWsPeekLoop sha1 env reads s = some (left, .ended, t))
    (hwaiting : t.waiting = false) :
    ∃ taken s', streamWsDoRead sha1 env s reads last length = some (taken, left, s') ∧
      (taken = .ok [] ↔ ReturnsZero (env.errnoBehind (t.writeCount - s.writeCount)) last t.cache.head?) := by
  have htake := take_zero_iff (s := t) hlength
  have hnot : ¬ t.cache.head?.any (·.fin) = true := by
    unfold StreamWs.waiting at hwaiting
    rw [hwaiting]
    exact Bool.false_ne_true
  unfold streamWsDoRead streamWsPeekFrame ReturnsZero
  rw [hloop, if_neg hnot]
  simp only [Option.map_some]
  cases last with
  | again =>
    simp only [peeked_of_not_waiting hwaiting]
    exact ⟨_, _, rfl, htake⟩
  | closed =>
    by_cases herrno : env.errnoBehind (t.writeCount - s.writeCount) ≠ .again
    · simp only [if_pos herrno]
      exact ⟨_, _, rfl, iff_of_true rfl (.inl herrno)⟩
    · simp only [if_neg herrno]
      exact ⟨_, _, rfl, htake.trans (or_iff_right herrno).symm⟩
  | error =>
    refine ⟨_, _, rfl, iff_of_false (fun h => ?_) id⟩
    cases h

/-- When a read returns 0, and when the decorated stream has returned 0 to it. -/
theorem doRead_front (sha1 : Sha1) (env : Env) {s : StreamWs} {reads : List Chunk} (h : Receives s reads)
    (last : ReadEnd) {length : Nat} (hlength : 0 < length) :
    ∃ taken left s', streamWsDoRead sha1 env s reads last length = some (taken, left, s') ∧
      (taken = .ok [] ↔
        ReturnsZero (errnoAt env s.buffer.live s.cache reads) last (frontAt s.buffer.live s.cache reads)) ∧
      (ReadsClosed sha1 env s reads last ↔
        last = .closed ∧ ¬ (frontAt s.buffer.live s.cache reads).any (·.fin) = true) := by
  obtain ⟨left, loopEnd, t, hloop, hfront, hwrites, hend⟩ := h.peekLoop sha1 env
  have hwaits : t.waiting = (frontAt s.buffer.live s.cache reads).any (·.fin) := by rw [← hfront]; rfl
  have herrno : errnoAt env s.buffer.live s.cache reads = env.errnoBehind (t.writeCount - s.writeCount) := by
    rw [errnoAt, hwrites, Nat.add_sub_cancel_left]
  unfold ReadsClosed
  rw [hloop, ← hwaits, ← hfront, herrno]
  rcases hend with ⟨rfl, hwaiting⟩ | ⟨rfl, hwaiting⟩
  · obtain ⟨taken, s', hread, hzero⟩ := doRead_waiting last hlength hloop hwaiting
    refine ⟨taken, left, s', hread, hzero, iff_of_false ?_ fun h => h.2 hwaiting⟩
    rintro ⟨-, left', t', he⟩
    cases he
  · obtain ⟨taken, s', hread, hzero⟩ := doRead_ended last hlength hloop hwaiting
    have hnot : ¬ t.waiting = true := by rw [hwaiting]; exact Bool.false_ne_true
    exact ⟨taken, left, s', hread, hzero, and_congr_right fun _ => iff_of_true ⟨left, t, rfl⟩ hnot⟩

/-! ## Zero and the end of the connection -/

/-- The message in front when the reading stops does not blur the end of the connection: it has
bytes if it is complete or there is more to come; and if the connection is closed, `errno` does not
say EAGAIN, or it is an incomplete message without bytes. -/
def TellsEnd (errno : Errno) (last : ReadEnd) (front : Option WsFrameSlice) : Prop :=
  if front.any (·.fin) then ∀ m ∈ front, m.buffer ≠ []
  else
    match last with
    | .again => ∀ m ∈ front, m.buffer ≠ []
    | .closed => errno ≠ .again ∨ ∃ m ∈ front, m.buffer = []
    | .error => True

theorem tellsEnd_iff (errno : Errno) (last : ReadEnd) (front : Option WsFrameSlice) :
    TellsEnd errno last front ↔ (ReturnsZero errno last front ↔ last = .closed ∧ ¬ front.any (·.fin) = true) := by
  unfold TellsEnd ReturnsZero
  by_cases hfin : front.any (·.fin) = true
  · rw [if_pos hfin, if_pos hfin]
    cases front with
    | none => cases hfin
    | some m => simp [hfin]
  · rw [if_neg hfin, if_neg hfin]
    cases last with
    | again => simp
    | closed => simp [hfin]
    | error => simp

/-- For every stream that is ready, every content of its cache and its buffer, every `errno` before the call and
behind the PONGs that it writes, and all reads of well-formed frames: a read into a buffer that is not empty
returns 0 exactly if the decorated stream has returned 0 to it, if and only if the message in front and `errno`
tell the two apart. -/
theorem doRead_zero_iff (sha1 : Sha1) (env : Env) {s : StreamWs} {reads : List Chunk} (h : Receives s reads)
    (last : ReadEnd) {length : Nat} (hlength : 0 < length) :
    (∃ taken left s', streamWsDoRead sha1 env s reads last length = some (taken, left, s') ∧
      (taken = .ok [] ↔ ReadsClosed sha1 env s reads last)) ↔
        TellsEnd (errnoAt env s.buffer.live s.cache reads) last (frontAt s.buffer.live s.cache reads) := by
  obtain ⟨taken, left, s', hread, hzero, hclosed⟩ := doRead_front sha1 env h last hlength
  rw [tellsEnd_iff, ← hzero, ← hclosed]
  constructor
  · rintro ⟨taken', left', t, hread', hiff⟩
    rw [hread] at hread'
    cases hread'
    exact hiff
  · exact fun hiff => ⟨taken, left, s', hread, hiff⟩

/-- A client that is ready and has received nothing yet. -/
def readyClient : StreamWs :=
  { streamWsInit (Vector.replicate 4096 0) with status := .ready, clientRole := true }

/-- A PING, and then the end of the connection, while `errno` is another one. -/
theorem doRead_zero_closed :
    let sha1 : Sha1 := fun _ => Vector.replicate 20 0
    let env : Env := { Env.at 0 with errno := .other }
    let chunk : Chunk := ⟨[0x89, 0], by decide, by decide⟩
    ReadsClosed sha1 env readyClient [chunk] .closed ∧
      ∃ left s', streamWsDoRead sha1 env readyClient [chunk] .closed 8 = some (.ok [], left, s') := by
  intro sha1 env chunk
  obtain ⟨hreceives, hfront⟩ := @receives_frames readyClient rfl rfl rfl [⟨true, wsOpcodePing, none, []⟩]
    (proper_of_short (by decide) (by decide)) (by simp) chunk (by decide)
  have hnone : frontAt readyClient.buffer.live readyClient.cache [chunk] = none := hfront.trans (by decide)
  obtain ⟨-, -, -, -, -, hclosed⟩ := doRead_front sha1 env hreceives .closed (show 0 < 8 by decide)
  have hreads : ReadsClosed sha1 env readyClient [chunk] .closed := by
    rw [hclosed, hnone]
    decide
  have herrno : ∀ writes, env.errnoBehind writes = .other := fun writes => by
    induction writes with
    | zero => rfl
    | succ writes ih => exact ih
  obtain ⟨taken, left, s', hread, hiff⟩ := (doRead_zero_iff sha1 env hreceives .closed (show 0 < 8 by decide)).2 (by
    rw [hnone]
    exact .inl (by rw [errnoAt, herrno]; decide))
  obtain rfl := hiff.2 hreads
  exact ⟨hreads, left, s', hread⟩

/-- An empty TEXT message, behind which there is nothing to read yet. -/
theorem doRead_emptyText : ¬ ∀ (sha1 : Sha1) (env : Env) (s : StreamWs) (reads : List Chunk) (last : ReadEnd)
    (length : Nat), Receives s reads → 0 < length →
      ∃ taken left s', streamWsDoRead sha1 env s reads last length = some (taken, left, s') ∧
        (taken = .ok [] ↔ ReadsClosed sha1 env s reads last) := by
  intro h
  let sha1 : Sha1 := fun _ => Vector.replicate 20 0
  let chunk : Chunk := ⟨[0x81, 0], by decide, by decide⟩
  obtain ⟨hreceives, hfront⟩ := @receives_frames readyClient rfl rfl rfl [⟨true, wsOpcodeText, none, []⟩]
    (proper_of_short (by decide) (by decide)) (by simp) chunk (by decide)
  obtain ⟨taken, left, s', hread, hzero, -⟩ := @doRead_front sha1 (.at 0) _ _ hreceives .again 8 (by decide)
  obtain ⟨taken', left', t, hread', hiff⟩ := h sha1 (.at 0) readyClient [chunk] .again 8 hreceives (by decide)
  rw [hread] at hread'
  cases hread'
  have hempty : taken = .ok [] := hzero.2 (by rw [hfront]; unfold ReturnsZero; decide)
  obtain ⟨hclosed, -⟩ := hiff.1 hempty
  cases hclosed

end CMx.Ws
