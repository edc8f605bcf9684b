/-
The outgoing side of `stream.c`: a stream writes through to what lies below it, which is the
descriptor or the decorated stream, and queues what it could not write. The functions are given
once, over the calls below; a stream of its own descriptor and a stream decorating it are two
instances. What the descriptor does comes from outside, one answer for each `write`.
-/
import CMx.Numbers

namespace CMx

open Mqtt (Bytes)

/-! ## The descriptor -/

/-- The answer to a `write`: some number of bytes is accepted, at most those offered, or it fails. -/
inductive WriteAnswer where
  | accept (n : Nat)
  | again
  | error
  deriving DecidableEq, Repr

/-- A descriptor: what it has accepted, its answers to come, and whether `errno` is `EAGAIN` or
`EWOULDBLOCK`, which only a failing `write` changes. Behind its last answer it would block. -/
structure Descriptor where
  accepted : Bytes
  answers : List WriteAnswer
  tryAgain : Bool
  deriving DecidableEq, Repr

/-- `write`. -/
def Descriptor.write (fd : Descriptor) (buffer : Bytes) : Int × Descriptor :=
  match fd.answers with
  | [] => (-1, { fd with tryAgain := true })
  | .accept n :: answers => (min n buffer.length, { fd with accepted := fd.accepted ++ buffer.take n, answers })
  | .again :: answers => (-1, { fd with answers, tryAgain := true })
  | .error :: answers => (-1, { fd with answers, tryAgain := false })

/-! ## Streams -/

/-- What a stream calls below itself, on a state `σ`: `write` or the `write_fn` of the decorated
stream, its `stream_handle_outgoing_data` and its `flush_fn`, and `errno`. -/
structure Below (σ : Type) where
  write : σ → Bytes → Int × σ
  handleOutgoingData : σ → Int × σ
  flush : σ → Option Int × σ
  tryAgain : σ → Bool

/-- A stream: its queue of outgoing slices, over what it writes to. -/
structure Stream (σ : Type) where
  outgoing : List Bytes
  below : σ
  deriving DecidableEq, Repr

section Stream

variable {σ : Type} (b : Below σ)

def streamQueueOutgoingData (s : Stream σ) (buffer : Bytes) : Stream σ :=
  { s with outgoing := s.outgoing ++ [buffer] }

def streamDoWrite (s : Stream σ) (buffer : Bytes) : Int × Stream σ :=
  if s.outgoing.isEmpty = false then (buffer.length, streamQueueOutgoingData s buffer)
  else
    let (written, below) := b.write s.below buffer
    let s := { s with below }
    -- the result of `stream_real_write` is kept in an `int`
    let ret := cInt written
    if ret < 0 then
      if b.tryAgain s.below then (buffer.length, streamQueueOutgoingData s buffer)
      else (ret, s)
    else if ret.toNat < buffer.length then (buffer.length, streamQueueOutgoingData s (buffer.drop ret.toNat))
    else (buffer.length, s)

/-- The loop of `stream_handle_outgoing_data` over the queue. -/
def streamHandleOutgoingLoop : (outgoing : List Bytes) → (written : Int) → σ → Int × Stream σ
  | [], written, below => (written, ⟨[], below⟩)
  | slice :: outgoing, written, below =>
    let (ret, below) := b.write below slice
    if ret ≤ 0 then (cInt ret, ⟨slice :: outgoing, below⟩)
    else
      let written := cInt (written + ret)
      let slice := slice.drop ret.toNat
      if slice.length > 0 then (written, ⟨slice :: outgoing, below⟩)
      else streamHandleOutgoingLoop outgoing written below

def streamHandleOutgoingData (s : Stream σ) : Int × Stream σ :=
  let (written, below) := b.handleOutgoingData s.below
  streamHandleOutgoingLoop b s.outgoing written below

/-- `stream_do_flush`, at most `rounds` rounds of its loop; it has no result yet if the queue is
not empty behind them. -/
def streamDoFlush : (rounds : Nat) → Stream σ → Option Int × Stream σ
  | rounds, s =>
    if s.outgoing.isEmpty then
      let (ret, below) := b.flush s.below
      (ret, { s with below })
    else
      match rounds with
      | 0 => (none, s)
      | rounds + 1 =>
        let (ret, s) := streamHandleOutgoingData b s
        if ret = 0 then (some ret, s)
        else if ret < 0 ∧ b.tryAgain s.below = false then (some ret, s)
        else streamDoFlush rounds s

end Stream

/-- Below a stream without a decorated stream: its descriptor. -/
def Below.descriptor : Below Descriptor where
  write := Descriptor.write
  handleOutgoingData := fun fd => (0, fd)
  flush := fun fd => (some 1, fd)
  tryAgain := Descriptor.tryAgain

/-- Below a stream that decorates a plain one: `stream_write_impl`, `stream_flush_impl` and the rest. -/
def Below.plain (rounds : Nat) : Below (Stream Descriptor) where
  write := streamDoWrite Below.descriptor
  handleOutgoingData := streamHandleOutgoingData Below.descriptor
  flush := streamDoFlush Below.descriptor rounds
  tryAgain := fun s => s.below.tryAgain

/-- A plain stream. -/
abbrev Plain := Stream Descriptor

/-- A `stream_mqtt` or `stream_ws` over a plain stream. -/
abbrev Layered := Stream Plain

/-! ## Runs -/

/-- A call on the top layer. A flush may still be at work behind its rounds: then what follows is
a state in the middle of it. -/
inductive WriteCall where
  | doWrite (buffer : Bytes)
  | handleOutgoingData
  | flush (rounds : Nat)
  deriving DecidableEq, Repr

/-- A stream, and the buffers of the calls of `stream_do_write` that did not return an error. -/
structure WriteRun (σ : Type) where
  stream : Stream σ
  submitted : Bytes

/-- A call; what lies below may itself be given some rounds for its flush. -/
def WriteRun.step {σ : Type} (b : Nat → Below σ) (r : WriteRun σ) : WriteCall → WriteRun σ
  | .doWrite buffer =>
    let (ret, stream) := streamDoWrite (b 0) r.stream buffer
    ⟨stream, if ret < 0 then r.submitted else r.submitted ++ buffer⟩
  | .handleOutgoingData => { r with stream := (streamHandleOutgoingData (b 0) r.stream).2 }
  | .flush rounds => { r with stream := (streamDoFlush (b rounds) rounds r.stream).2 }

def WriteRun.run {σ : Type} (b : Nat → Below σ) (r : WriteRun σ) (calls : List WriteCall) : WriteRun σ :=
  calls.foldl (WriteRun.step b) r

end CMx
