/-
The two ends of a connection as the streams above them see it: a medium. It is reliable if what one
end has read is always the front of what the other has written. A stream that decorates another one
has a queue of its own between them; over a reliable medium it stays empty, and the streams that
decorate are a reliable medium again.
-/
import Mathlib.Logic.Function.Basic
import CMx.Stream.State
import CMx.StreamMqtt.Receive

namespace CMx

open Mqtt (Bytes ReadEnd)

/-! ## Media -/

/-- What a read with a buffer of `length` bytes returns, if it is above zero. -/
structure ReadData (length : Nat) where
  data : Bytes
  nonempty : data ≠ []
  fits : data.length ≤ length

/-- The bytes of an answer to a read. -/
def bytesRead {length : Nat} : Except ReadEnd (ReadData length) → Bytes
  | .ok piece => piece.data
  | .error _ => []

/-- The streams at the two ends, `false` and `true`, on a state `τ` of both and of all below them: what
the stream above calls to write, `stream_read` with a buffer of some bytes, and `stream_time`. A read is
`none` where it crashes or does not come back. -/
structure Medium (τ : Type) where
  below : Bool → Below τ
  read : Bool → (length : Nat) → τ → Option (Except ReadEnd (ReadData length) × τ)
  time : Bool → τ → τ

section Lift

variable {σ τ : Type}

/-- The calls of a stream that decorates what `b` writes to. -/
def Below.over (b : Below σ) (rounds : Nat) : Below (Stream σ) where
  write := streamDoWrite b
  handleOutgoingData := streamHandleOutgoingData b
  flush := streamDoFlush b rounds
  tryAgain := fun s => b.tryAgain s.below

/-- The same calls on a larger state. -/
def Below.within (b : Below σ) (get : τ → σ) (put : τ → σ → τ) : Below τ where
  write := fun t buffer => let (ret, s) := b.write (get t) buffer; (ret, put t s)
  handleOutgoingData := fun t => let (ret, s) := b.handleOutgoingData (get t); (ret, put t s)
  flush := fun t => let (ret, s) := b.flush (get t); (ret, put t s)
  tryAgain := fun t => b.tryAgain (get t)

end Lift

/-- The `struct stream` that a `stream_mqtt` or a `stream_ws` has at each end: its queue, over what it decorates. -/
structure Decorating (τ : Type) where
  outgoing : Bool → List Bytes
  below : τ

namespace Decorating

variable {τ : Type}

def stream (d : Decorating τ) (e : Bool) : Stream τ := ⟨d.outgoing e, d.below⟩

def put (e : Bool) (d : Decorating τ) (s : Stream τ) : Decorating τ := ⟨Function.update d.outgoing e s.outgoing, s.below⟩

/-- Nothing queued. -/
def new (t : τ) : Decorating τ := ⟨fun _ => [], t⟩

end Decorating

/-- What a decorating stream sees of its own `struct stream` and of what is below: the non-virtual functions to write,
and the decorated stream to read from. -/
def Medium.decorated {τ : Type} (m : Medium τ) (rounds : Nat) : Medium (Decorating τ) where
  below e := ((m.below e).over rounds).within (·.stream e) (.put e)
  read e length d := (m.read e length d.below).map fun (answer, below) => (answer, { d with below })
  time e d := { d with below := m.time e d.below }

/-! ## The two ends -/

section Ends

variable {α : Type} (f : Bool → α) (e : Bool) (x : α)

@[simp] theorem update_not : Function.update f e x (!e) = f (!e) := Function.update_of_ne (by cases e <;> decide) ..

theorem forall_ends {P : Bool → Prop} {e : Bool} (h : P e) (hother : P (!e)) : ∀ e', P e' := by
  intro e'
  cases e <;> cases e' <;> assumption

end Ends

/-! ## What has passed an end -/

/-- More bytes at one end. -/
def grow (bytes : Bool → Bytes) (e : Bool) (data : Bytes) : Bool → Bytes := Function.update bytes e (bytes e ++ data)

section Grow

variable (bytes : Bool → Bytes) (e : Bool) (data data' : Bytes)

@[simp] theorem grow_self : grow bytes e data e = bytes e ++ data := Function.update_self ..

@[simp] theorem grow_not : grow bytes e data (!e) = bytes (!e) := update_not ..

@[simp] theorem grow_nil : grow bytes e [] = bytes := by
  unfold grow
  rw [List.append_nil, Function.update_eq_self]

theorem grow_grow : grow (grow bytes e data) e data' = grow bytes e (data ++ data') := by
  unfold grow
  rw [Function.update_self, Function.update_idem, List.append_assoc]

/-- What is on its way behind a piece of it. -/
theorem drop_taken {bytes taken piece rest : Bytes} (h : bytes.drop taken.length = piece ++ rest) :
    bytes.drop (taken ++ piece).length = rest := by
  rw [List.length_append, ← List.drop_drop, h, List.drop_left]

end Grow

section Reliable

variable {τ : Type}

/-- A medium is reliable for writes below a limit, and for reads of an end that is ready: `Holds` relates
what the ends have written and what they have read with the state. A write that has taken the bytes says so with
their number or a greater one. -/
structure Medium.Reliable (m : Medium τ) (limit : Nat) (Ready : Bool → τ → Prop)
    (Holds : (written taken : Bool → Bytes) → τ → Prop) : Prop where
  front : ∀ {written taken t}, Holds written taken t → ∀ e, taken e <+: written (!e)
  write : ∀ {written taken t} (e : Bool) {data : Bytes}, Holds written taken t → data.length < limit →
    Holds (grow written e data) taken ((m.below e).write t data).2 ∧
      data.length ≤ ((m.below e).write t data).1 ∧ ((m.below e).write t data).1 < 2 ^ 31
  ready : ∀ {t} (e e' : Bool) (data : Bytes), Ready e' t → Ready e' ((m.below e).write t data).2
  handle : ∀ {written taken t} (e : Bool), Holds written taken t → Holds written taken ((m.below e).handleOutgoingData t).2
  flush : ∀ {written taken t} (e : Bool), Holds written taken t → Holds written taken ((m.below e).flush t).2
  time : ∀ {written taken t} (e : Bool), Holds written taken t → Holds written taken (m.time e t)
  read : ∀ {written taken t} (e : Bool) (length : Nat), Holds written taken t → Ready e t →
    ∃ answer t', m.read e length t = some (answer, t') ∧ Ready e t' ∧ Holds written (grow taken e (bytesRead answer)) t'

/-- No more reads of an end than these find something, whatever it writes meanwhile. -/
structure Medium.Bounded (m : Medium τ) (unread : Bool → τ → Nat) : Prop where
  read : ∀ {e length t piece t'}, m.read e length t = some (.ok piece, t') → unread e t' < unread e t
  write : ∀ e t data, unread e ((m.below e).write t data).2 ≤ unread e t

section Front

variable {m : Medium τ} {limit : Nat} {Ready : Bool → τ → Prop} {Holds : (written taken : Bool → Bytes) → τ → Prop}
  {written taken : Bool → Bytes} {t : τ} {e : Bool}

theorem Medium.Reliable.front_not (h : m.Reliable limit Ready Holds) (hholds : Holds written taken t) (e : Bool) :
    taken (!e) <+: written e := by
  have hfront := h.front hholds (!e)
  rwa [Bool.not_not] at hfront

/-- What an end has just read was next on its way. -/
theorem Medium.Reliable.incoming (h : m.Reliable limit Ready Holds) {piece : Bytes}
    (hholds : Holds written (grow taken e piece) t) :
    taken (!e) <+: written e ∧ ∃ rest, (written (!e)).drop (taken e).length = piece ++ rest := by
  have hother := h.front_not hholds e
  obtain ⟨rest, hrest⟩ := h.front hholds e
  rw [grow_not] at hother
  rw [grow_self, List.append_assoc] at hrest
  exact ⟨hother, rest, by rw [← hrest, List.drop_left]⟩

end Front

end Reliable

/-! ## Writes in a row -/

section WriteAll

variable {τ : Type} (m : Medium τ) (e : Bool)

/-- The writes of one call of the stream above; the result is that of the last. -/
def Medium.writeAll : List Bytes → (ret : Int) → τ → Int × τ
  | [], ret, t => (ret, t)
  | data :: rest, _, t =>
    let (ret, t) := (m.below e).write t data
    writeAll rest ret t

variable {m} {limit : Nat} {Ready : Bool → τ → Prop} {Holds : (written taken : Bool → Bytes) → τ → Prop}

theorem Medium.Reliable.writeAll (h : m.Reliable limit Ready Holds) : ∀ {written taken : Bool → Bytes} {t : τ}
    {datas : List Bytes} (ret : Int), Holds written taken t → (∀ data ∈ datas, data.length < limit) →
    Holds (grow written e datas.flatten) taken (m.writeAll e datas ret t).2
  | written, taken, t, [], ret, hholds, _ => by
    rw [List.flatten_nil, grow_nil]
    exact hholds
  | written, taken, t, data :: datas, ret, hholds, hlimit => by
    obtain ⟨hdata, hrest⟩ := List.forall_mem_cons.1 hlimit
    have hfirst := (h.write e hholds hdata).1
    rw [List.flatten_cons, ← grow_grow]
    exact writeAll h _ hfirst hrest

theorem Medium.Reliable.ready_writeAll (h : m.Reliable limit Ready Holds) (e' : Bool) : ∀ {t : τ} (datas : List Bytes)
    (ret : Int), Ready e' t → Ready e' (m.writeAll e datas ret t).2
  | _, [], _, hready => hready
  | _, data :: datas, _, hready => ready_writeAll h e' datas _ (h.ready e e' data hready)

theorem Medium.Bounded.writeAll {unread : Bool → τ → Nat} (h : m.Bounded unread) : ∀ (t : τ) (datas : List Bytes) (ret : Int),
    unread e (m.writeAll e datas ret t).2 ≤ unread e t
  | _, [], _ => le_refl _
  | t, data :: datas, _ => (writeAll h _ datas _).trans (h.write e t data)

end WriteAll

/-! ## The queue of a decorating stream -/

/-- Nothing stays in the queues. -/
structure Decorating.Holds {τ : Type} (HoldsBelow : (written taken : Bool → Bytes) → τ → Prop) (written taken : Bool → Bytes)
    (d : Decorating τ) : Prop where
  empty : ∀ e, d.outgoing e = []
  below : HoldsBelow written taken d.below

section Decorated

variable {τ : Type} {m : Medium τ} {limit : Nat} {Ready : Bool → τ → Prop}
  {Holds : (written taken : Bool → Bytes) → τ → Prop}

/-- With an empty queue a write goes through, and is taken whole if what is below takes it. -/
theorem doWrite_taken {σ : Type} {b : Below σ} {s : Stream σ} {buffer : Bytes} (hempty : s.outgoing = [])
    (hle : buffer.length ≤ (b.write s.below buffer).1) (hlt : (b.write s.below buffer).1 < 2 ^ 31) :
    streamDoWrite b s buffer = ((buffer.length : Int), ⟨[], (b.write s.below buffer).2⟩) := by
  have hcount : cInt (b.write s.below buffer).1 = (b.write s.below buffer).1 := cInt_eq (by omega) hlt
  unfold streamDoWrite
  rw [if_neg (by simp [hempty])]
  simp only [hcount, hempty]
  rw [if_neg (by omega), if_neg (by omega)]

/-- A write is made below once or, behind a queue, not at all. -/
theorem doWrite_below {σ : Type} (b : Below σ) (s : Stream σ) (buffer : Bytes) :
    (streamDoWrite b s buffer).2.below = s.below ∨
      (streamDoWrite b s buffer).2.below = (b.write s.below buffer).2 := by
  unfold streamDoWrite
  split
  · exact .inl rfl
  · right
    simp only
    split
    · split <;> rfl
    · split <;> rfl

/-- Without a queue of its own a stream hands these calls down. -/
theorem handle_empty {σ : Type} {b : Below σ} {s : Stream σ} (hempty : s.outgoing = []) :
    (streamHandleOutgoingData b s).2 = ⟨[], (b.handleOutgoingData s.below).2⟩ := by
  unfold streamHandleOutgoingData
  rw [hempty]
  rfl

theorem flush_empty {σ : Type} {b : Below σ} {s : Stream σ} (rounds : Nat) (hempty : s.outgoing = []) :
    (streamDoFlush b rounds s).2 = ⟨[], (b.flush s.below).2⟩ := by
  unfold streamDoFlush
  rw [if_pos (by simp [hempty])]
  simp only [hempty]

theorem put_empty {d : Decorating τ} {e : Bool} (h : d.outgoing e = []) (t : τ) : d.put e ⟨[], t⟩ = ⟨d.outgoing, t⟩ := by
  unfold Decorating.put
  rw [← h, Function.update_eq_self]

/-- The streams that decorate a reliable medium are one. -/
theorem Medium.Reliable.decorated (h : m.Reliable limit Ready Holds) (hlimit : limit ≤ 2 ^ 31) (rounds : Nat) :
    (m.decorated rounds).Reliable limit (fun e d => Ready e d.below) (Decorating.Holds Holds) where
  front := fun hholds => h.front hholds.below
  -- the medium takes every write whole, so the queue of the stream stays empty
  write := by
    rintro written taken d e data ⟨hempty, hholds⟩ hdata
    obtain ⟨hbelow, hle, hlt⟩ := h.write e hholds hdata
    have hwrite : ((m.decorated rounds).below e).write d data =
        ((data.length : Int), ⟨d.outgoing, ((m.below e).write d.below data).2⟩) := by
      rw [← put_empty (hempty e)]
      exact congrArg (fun r => (r.1, d.put e r.2)) (doWrite_taken (s := d.stream e) (hempty e) hle hlt)
    have hfits : (data.length : Int) < 2 ^ 31 := by omega
    rw [hwrite]
    exact ⟨⟨hempty, hbelow⟩, le_refl _, hfits⟩
  ready := by
    rintro d e e' data hready
    show Ready e' (streamDoWrite (m.below e) (d.stream e) data).2.below
    rcases doWrite_below (m.below e) (d.stream e) data with hbelow | hbelow
    · rw [hbelow]
      exact hready
    · rw [hbelow]
      exact h.ready e e' data hready
  handle := by
    rintro written taken d e ⟨hempty, hholds⟩
    have hhandle : (((m.decorated rounds).below e).handleOutgoingData d).2 =
        ⟨d.outgoing, ((m.below e).handleOutgoingData d.below).2⟩ := by
      rw [← put_empty (hempty e)]
      exact congrArg (d.put e) (handle_empty (s := d.stream e) (hempty e))
    rw [hhandle]
    exact ⟨hempty, h.handle e hholds⟩
  flush := by
    rintro written taken d e ⟨hempty, hholds⟩
    have hflush : (((m.decorated rounds).below e).flush d).2 = ⟨d.outgoing, ((m.below e).flush d.below).2⟩ := by
      rw [← put_empty (hempty e)]
      exact congrArg (d.put e) (flush_empty (s := d.stream e) rounds (hempty e))
    rw [hflush]
    exact ⟨hempty, h.flush e hholds⟩
  time := fun e hholds => ⟨hholds.empty, h.time e hholds.below⟩
  read := by
    rintro written taken d e length ⟨hempty, hholds⟩ hready
    obtain ⟨answer, t', hread, hready', hholds'⟩ := h.read e length hholds hready
    refine ⟨answer, { d with below := t' }, ?_, hready', ⟨hempty, hholds'⟩⟩
    show (m.read e length d.below).map _ = _
    rw [hread]
    rfl

theorem Medium.Bounded.decorated {unread : Bool → τ → Nat} (h : m.Bounded unread) (rounds : Nat) :
    (m.decorated rounds).Bounded fun e d => unread e d.below where
  read := by
    intro e length d piece d' hread
    obtain ⟨⟨answer, below⟩, hbelow, hd⟩ := Option.map_eq_some_iff.1 hread
    cases hd
    exact h.read hbelow
  write := by
    intro e d data
    show unread e (streamDoWrite (m.below e) (d.stream e) data).2.below ≤ _
    rcases doWrite_below (m.below e) (d.stream e) data with hbelow | hbelow
    · rw [hbelow]
      exact le_refl _
    · rw [hbelow]
      exact h.write e d.below data

end Decorated

end CMx
