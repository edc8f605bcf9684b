/-
The functions of `buffer.c` on the members of the structure as they are: the memory of the allocation, the
offset of `data` in it, which may be anything, and two members of type `size_t`. An access outside of the
memory has no result. Every buffer that comes out of `buffer_init` is one of the model with its live range
inside the allocation, and behaves as a queue of bytes.
-/
import CMx.Numbers
import CMx.Buffer

namespace CMx

open Mqtt (Bytes Mem)

/-! ## Memory -/

/-- The bytes at the offset. -/
def load (memory : Bytes) (offset : Int) (len : Nat) : Option Bytes :=
  if 0 ≤ offset ∧ offset + len ≤ memory.length then some ((memory.drop offset.toNat).take len) else none

def store (memory : Bytes) (offset : Int) (bytes : Bytes) : Option Bytes :=
  if 0 ≤ offset ∧ offset + bytes.length ≤ memory.length then some (overwrite memory offset.toNat bytes) else none

/-- The bytes behind the old ones are taken from `fresh`. -/
def xrealloc (memory : Bytes) (size : Nat) (fresh : Mem) : Bytes :=
  memory.take size ++ fresh.bytes memory.length (size - memory.length)

/-! ## The functions -/

structure RawBuffer where
  memory : Bytes
  data : Int
  length : Nat
  size : Nat
  deriving DecidableEq, Repr

namespace RawBuffer

def init (size : Nat) (fresh : Mem) : RawBuffer := ⟨fresh.bytes 0 size, 0, 0, size⟩

def rewind (self : RawBuffer) : Option RawBuffer :=
  if self.data ≠ 0 then
    if self.length ≠ 0 then do
      let bytes ← load self.memory self.data self.length
      let memory ← store self.memory 0 bytes
      return { self with memory := memory, data := 0 }
    else return { self with data := 0 }
  else return self

/-- With what the function returns. -/
def resize (self : RawBuffer) (size : Nat) (fresh : Mem) : Option (RawBuffer × Nat) := do
  let self ← self.rewind
  let expectedSize := sizeT (self.length + size)
  let self := if self.size < expectedSize then
      { self with memory := xrealloc self.memory expectedSize fresh, data := 0, size := expectedSize }
    else self
  return (self, self.size)

def append (self : RawBuffer) (data : Bytes) (fresh : Mem) : Option RawBuffer := do
  let (self, _) ← self.resize data.length fresh
  let memory ← store self.memory (self.data + self.length) data
  return { self with memory := memory, length := sizeT (self.length + data.length) }

def cut (self : RawBuffer) (len : Nat) : RawBuffer × Nat :=
  let self := { self with data := self.data + len, length := sizeT (self.length - len) }
  (self, self.length)

/-- With the bytes that are taken, as many as the function returns. -/
def take (self : RawBuffer) (len : Nat) : Option (RawBuffer × Bytes) :=
  let chunkLen := min self.length len
  if chunkLen > 0 then do
    let bytes ← load self.memory self.data chunkLen
    return ((self.cut chunkLen).1, bytes)
  else return (self, [])

def reset (self : RawBuffer) : RawBuffer := { self with data := 0, length := 0 }

def copy (self other : RawBuffer) (fresh : Mem) : Option RawBuffer := do
  let (self, _) ← self.resize other.length fresh
  let bytes ← load other.memory other.data other.length
  let memory ← store self.memory self.data bytes
  return { self with memory := memory, length := other.length }

/-- The live range is inside the memory that is allocated. -/
def Inv (self : RawBuffer) : Prop :=
  0 ≤ self.data ∧ self.data + self.length ≤ self.size ∧ self.size = self.memory.length

def live (self : RawBuffer) : Bytes := (self.memory.drop self.data.toNat).take self.length

end RawBuffer

/-! ## The buffers of the model -/

/-- The members of a buffer. -/
def Buffer.raw (b : Buffer) : RawBuffer := ⟨b.alloc, b.data, b.length, b.size⟩

theorem Buffer.inv_raw (b : Buffer) : b.raw.Inv := by
  have := b.fits
  refine ⟨Int.natCast_nonneg _, ?_, rfl⟩
  simp only [Buffer.raw, Buffer.size]
  omega

theorem Buffer.live_raw (b : Buffer) : b.raw.live = b.live := rfl

theorem load_raw (b : Buffer) {len : Nat} (h : len ≤ b.length) :
    load b.raw.memory b.raw.data len = some (b.live.take len) := by
  have hfits := b.fits
  have hin : 0 ≤ b.raw.data ∧ b.raw.data + len ≤ b.raw.memory.length := by
    simp only [Buffer.raw]
    omega
  rw [load, if_pos hin, Buffer.live, List.take_take, Nat.min_eq_left h]
  rfl

theorem store_eq {memory bytes : Bytes} {offset : Nat} (h : offset + bytes.length ≤ memory.length) :
    store memory offset bytes = some (overwrite memory offset bytes) := by
  rw [store, if_pos ⟨Int.natCast_nonneg _, by omega⟩, Int.toNat_natCast]

theorem overwrite_live {b : Buffer} (h : b.data = 0 ∨ b.length = 0) : overwrite b.alloc 0 b.live = b.alloc := by
  have hfits := b.fits
  rw [overwrite_eq (by rw [Buffer.length_live]; omega), Buffer.length_live]
  rcases h with h | h
  · simp [Buffer.live, h]
  · simp [Buffer.live, h]

theorem rewind_raw (b : Buffer) : b.raw.rewind = some (bufferRewind b).raw := by
  have hfits := b.fits
  have hraw : (bufferRewind b).raw = ⟨overwrite b.alloc 0 b.live, 0, b.length, b.size⟩ := by
    simp [Buffer.raw, bufferRewind, Buffer.size]
  rw [hraw, RawBuffer.rewind]
  by_cases hdata : b.data = 0
  · rw [if_neg (by simp [Buffer.raw, hdata]), overwrite_live (.inl hdata)]
    simp [Buffer.raw, hdata]
  rw [if_pos (by simpa [Buffer.raw] using hdata)]
  by_cases hlength : b.length = 0
  · rw [if_neg (by simp [Buffer.raw, hlength]), overwrite_live (.inr hlength)]
    rfl
  · rw [if_pos (by simpa [Buffer.raw] using hlength)]
    have hload := load_raw b (le_refl b.length)
    rw [List.take_of_length_le (by rw [Buffer.length_live])] at hload
    have hstore : store b.raw.memory 0 b.live = some (overwrite b.alloc 0 b.live) :=
      store_eq (by rw [Buffer.length_live]; simp only [Buffer.raw]; omega)
    rw [show b.raw.length = b.length from rfl, hload, Option.bind_eq_bind, Option.bind_some, hstore]
    rfl

theorem size_bufferResize (b : Buffer) (size : Nat) (fresh : Mem) :
    (bufferResize b size fresh).alloc.length = max b.size (b.length + size) := by
  have hrewind : (bufferRewind b).alloc.length = b.size := length_overwrite ..
  show ((bufferRewind b).alloc ++ fresh.bytes (bufferRewind b).size (b.length + size - (bufferRewind b).size)).length =
      _
  rw [List.length_append, hrewind, show (bufferRewind b).size = b.size from hrewind, Mem.bytes,
    List.length_map, List.length_range]
  omega

theorem resize_raw (b : Buffer) {size : Nat} (fresh : Mem) (hsmall : b.length + size < 2 ^ 63) :
    b.raw.resize size fresh = some ((bufferResize b size fresh).raw, max b.size (b.length + size)) := by
  have hexpected : sizeT (((bufferRewind b).raw.length : Int) + size) = b.length + size := by
    rw [show ((bufferRewind b).raw.length : Int) + size = ((b.length + size : Nat) : Int) by rfl]
    exact sizeT_natCast hsmall
  have hrewind : (bufferRewind b).size = b.size := length_overwrite ..
  have hraw : (bufferResize b size fresh).raw =
      ⟨(bufferRewind b).alloc ++ fresh.bytes b.size (b.length + size - b.size), 0, b.length,
        max b.size (b.length + size)⟩ := by
    have hsize : (bufferResize b size fresh).size = max b.size (b.length + size) := size_bufferResize b size fresh
    rw [Buffer.raw, hsize, ← hrewind]
    rfl
  rw [hraw, RawBuffer.resize, rewind_raw, Option.bind_eq_bind, Option.bind_some, hexpected]
  simp only [Buffer.raw, hrewind]
  by_cases hlt : b.size < b.length + size
  · rw [if_pos hlt, Nat.max_eq_right hlt.le]
    have htake : (bufferRewind b).alloc.take (b.length + size) = (bufferRewind b).alloc :=
      List.take_of_length_le (by rw [show (bufferRewind b).alloc.length = b.size from hrewind]; omega)
    simp only [xrealloc, htake, show (bufferRewind b).alloc.length = b.size from hrewind]
    rfl
  · rw [if_neg hlt, Nat.max_eq_left (Nat.le_of_not_lt hlt), Nat.sub_eq_zero_of_le (Nat.le_of_not_lt hlt)]
    simp [Mem.bytes, bufferRewind]

theorem append_raw (b : Buffer) (data : Bytes) (fresh : Mem) (hsmall : b.length + data.length < 2 ^ 63) :
    b.raw.append data fresh = some (bufferAppend b data).raw := by
  have hresize := (length_bufferResize b data.length fresh).2.2
  have halloc : overwrite (bufferResize b data.length fresh).alloc b.length data = (bufferAppend b data).alloc :=
    (overwrite_bufferResize b data fresh).trans (alloc_bufferAppend b data).symm
  have hsize : (bufferAppend b data).size = (bufferResize b data.length fresh).size := by
    rw [Buffer.size, ← halloc, length_overwrite]
    rfl
  have hlength : sizeT ((b.length : Int) + data.length) = b.length + data.length := by
    rw [← Int.natCast_add]
    exact sizeT_natCast hsmall
  rw [RawBuffer.append, resize_raw b fresh hsmall]
  simp only [Option.bind_eq_bind, Option.bind_some]
  rw [show (bufferResize b data.length fresh).raw.data + ((bufferResize b data.length fresh).raw.length : Int)
    = (b.length : Int) from Int.zero_add _]
  rw [show (bufferResize b data.length fresh).raw.memory = (bufferResize b data.length fresh).alloc from rfl,
    store_eq hresize, Option.bind_some, halloc,
    show (bufferResize b data.length fresh).raw.length = b.length from rfl, hlength]
  simp only [Buffer.raw, hsize]
  rfl

theorem cut_raw (b : Buffer) {len : Nat} (h : len ≤ b.length) (hsmall : b.length < 2 ^ 63) :
    b.raw.cut len = ((bufferCut b len).raw, b.length - len) := by
  have hlength : sizeT ((b.length : Int) - len) = b.length - len := by
    rw [← Int.natCast_sub h]
    exact sizeT_natCast (by omega)
  simp only [RawBuffer.cut, Buffer.raw, bufferCut, Nat.min_eq_left h, hlength, Int.natCast_add]
  rfl

theorem take_raw (b : Buffer) (len : Nat) (hsmall : b.length < 2 ^ 63) :
    b.raw.take len = some ((bufferCut b (min b.length len)).raw, b.live.take len) := by
  have hmin : b.live.take (min b.length len) = b.live.take len := by
    rw [← Buffer.length_live b, Nat.min_comm, ← List.take_eq_take_min]
  rw [RawBuffer.take]
  simp only [show b.raw.length = b.length from rfl]
  by_cases hpos : min b.length len > 0
  · rw [if_pos hpos, load_raw b (Nat.min_le_left ..), Option.bind_eq_bind, Option.bind_some,
      cut_raw b (Nat.min_le_left ..) hsmall, hmin]
    rfl
  · have hzero : min b.length len = 0 := Nat.eq_zero_of_not_pos hpos
    rw [if_neg hpos, ← hmin, hzero]
    simp [bufferCut, Buffer.raw, Buffer.size]

theorem copy_raw (b other : Buffer) (fresh : Mem) (hsmall : b.length + other.length < 2 ^ 63) :
    ∃ copied : Buffer, b.raw.copy other.raw fresh = some copied.raw ∧ copied.live = other.live ∧
      copied.size = max b.size (b.length + other.length) := by
  have hsize := size_bufferResize b other.length fresh
  have hroom : other.live.length ≤ (bufferResize b other.length fresh).alloc.length := by
    rw [hsize, Buffer.length_live]
    omega
  refine ⟨⟨overwrite (bufferResize b other.length fresh).alloc 0 other.live, 0, other.length, ?_⟩, ?_, ?_, ?_⟩
  · rw [length_overwrite, hsize]
    omega
  · have hload := load_raw other (le_refl other.length)
    rw [List.take_of_length_le (by rw [Buffer.length_live])] at hload
    have hstore := @store_eq (bufferResize b other.length fresh).alloc other.live 0 (by rw [Nat.zero_add]; exact hroom)
    rw [RawBuffer.copy, show other.raw.length = other.length from rfl, resize_raw b fresh hsmall]
    simp only [Option.bind_eq_bind, Option.bind_some, hload]
    rw [show (bufferResize b other.length fresh).raw.memory = (bufferResize b other.length fresh).alloc from rfl,
      show (bufferResize b other.length fresh).raw.data = ((0 : Nat) : Int) from rfl, hstore]
    simp [Buffer.raw, Buffer.size, bufferResize]
  · simp only [Buffer.live, List.drop_zero]
    rw [overwrite_eq (by rw [Nat.zero_add]; exact hroom), List.take_zero, List.nil_append]
    exact List.take_left' (Buffer.length_live other)
  · rw [Buffer.size, length_overwrite, hsize]

/-! ## Runs -/

section Runs

variable {ι : Type}

/-- What is done with the buffer `i`, with what the allocator leaves in new memory. -/
inductive BufferOp (ι : Type) where
  | init (i : ι) (size : Nat) (fresh : Mem)
  | append (i : ι) (data : Bytes) (fresh : Mem)
  | take (i : ι) (len : Nat)
  | cut (i : ι) (len : Nat)
  | reset (i : ι)
  | rewind (i : ι)
  | resize (i : ι) (size : Nat) (fresh : Mem)
  | copy (i j : ι) (fresh : Mem)

/-- The buffer is one with its live range inside its allocation, and has the bytes of the queue there. -/
def Holds (raw : RawBuffer) (queue : Bytes) : Prop := ∃ b : Buffer, raw = b.raw ∧ b.size < 2 ^ 63 ∧ b.live = queue

/-- Every buffer holds its queue. -/
def Represents (bufs : ι → Option RawBuffer) (queues : ι → Option Bytes) : Prop :=
  ∀ i, Option.Rel Holds (bufs i) (queues i)

theorem Represents.get {bufs : ι → Option RawBuffer} {queues : ι → Option Bytes} (h : Represents bufs queues) {i : ι}
    {queue : Bytes} (hqueue : queues i = some queue) :
    ∃ b : Buffer, bufs i = some b.raw ∧ b.size < 2 ^ 63 ∧ b.live = queue := by
  have hi := h i
  rw [hqueue] at hi
  cases hbuf : bufs i with
  | none => rw [hbuf] at hi; cases hi
  | some raw =>
    rw [hbuf] at hi
    cases hi with
    | some hholds =>
      obtain ⟨b, rfl, hsize, hlive⟩ := hholds
      exact ⟨b, rfl, hsize, hlive⟩

/-- The bytes of the buffers that are there. -/
def contents (bufs : ι → Option RawBuffer) (i : ι) : Option Bytes := (bufs i).map RawBuffer.live

theorem Represents.contents_eq {bufs : ι → Option RawBuffer} {queues : ι → Option Bytes} (h : Represents bufs queues) :
    contents bufs = queues := by
  funext i
  have hi := h i
  unfold contents
  generalize bufs i = buf, queues i = queue at hi ⊢
  cases hi with
  | none => rfl
  | some hholds =>
    obtain ⟨b, rfl, -, rfl⟩ := hholds
    rw [Option.map_some, b.live_raw]

theorem Represents.inv {bufs : ι → Option RawBuffer} {queues : ι → Option Bytes} (h : Represents bufs queues) (i : ι)
    (raw : RawBuffer) (hraw : bufs i = some raw) : raw.Inv := by
  have hi := h i
  rw [hraw] at hi
  generalize queues i = queue at hi
  cases hi with
  | some hholds =>
    obtain ⟨b, rfl, -, -⟩ := hholds
    exact b.inv_raw

variable [DecidableEq ι]

/-- Some buffers, of which only those that have been initialized are there, and the bytes that are taken. -/
def bufferStep (bufs : ι → Option RawBuffer) : BufferOp ι → Option ((ι → Option RawBuffer) × Bytes)
  | .init i size fresh => some (Function.update bufs i (some (.init size fresh)), [])
  | .append i data fresh => do
    let self ← (← bufs i).append data fresh
    return (Function.update bufs i (some self), [])
  | .take i len => do
    let (self, bytes) ← (← bufs i).take len
    return (Function.update bufs i (some self), bytes)
  | .cut i len => do
    let self ← bufs i
    return (Function.update bufs i (some (self.cut len).1), [])
  | .reset i => do
    let self ← bufs i
    return (Function.update bufs i (some self.reset), [])
  | .rewind i => do
    let self ← (← bufs i).rewind
    return (Function.update bufs i (some self), [])
  | .resize i size fresh => do
    let (self, _) ← (← bufs i).resize size fresh
    return (Function.update bufs i (some self), [])
  | .copy i j fresh => do
    let self ← (← bufs i).copy (← bufs j) fresh
    return (Function.update bufs i (some self), [])

/-- The buffers behind each operation, with the bytes that it has taken. -/
def bufferRun (bufs : ι → Option RawBuffer) : List (BufferOp ι) → Option (List ((ι → Option RawBuffer) × Bytes))
  | [] => some []
  | op :: ops => do
    let s ← bufferStep bufs op
    let trace ← bufferRun s.1 ops
    return s :: trace

/-- The operations on queues of bytes. -/
def queueStep (queues : ι → Option Bytes) : BufferOp ι → (ι → Option Bytes) × Bytes
  | .init i _ _ => (Function.update queues i (some []), [])
  | .append i data _ => (Function.update queues i ((queues i).map (· ++ data)), [])
  | .take i len => (Function.update queues i ((queues i).map (·.drop len)), ((queues i).map (·.take len)).getD [])
  | .cut i len => (Function.update queues i ((queues i).map (·.drop len)), [])
  | .reset i => (Function.update queues i ((queues i).map fun _ => []), [])
  | .rewind _ => (queues, [])
  | .resize _ _ _ => (queues, [])
  | .copy i j _ => (Function.update queues i (queues j), [])

def queueRun (queues : ι → Option Bytes) : List (BufferOp ι) → List ((ι → Option Bytes) × Bytes)
  | [] => []
  | op :: ops => queueStep queues op :: queueRun (queueStep queues op).1 ops

/-- The buffers of the operation are there, no more is cut than is in the buffer, a buffer is copied from another
one, and the size that is asked for is below `2 ^ 63`. -/
def Allowed (queues : ι → Option Bytes) : BufferOp ι → Prop
  | .init _ size _ => size < 2 ^ 63
  | .append i data _ => ∃ queue, queues i = some queue ∧ queue.length + data.length < 2 ^ 63
  | .take i _ => ∃ queue, queues i = some queue
  | .cut i len => ∃ queue, queues i = some queue ∧ len ≤ queue.length
  | .reset i => ∃ queue, queues i = some queue
  | .rewind i => ∃ queue, queues i = some queue
  | .resize i size _ => ∃ queue, queues i = some queue ∧ queue.length + size < 2 ^ 63
  | .copy i j _ => i ≠ j ∧ ∃ queue other, queues i = some queue ∧ queues j = some other ∧
      queue.length + other.length < 2 ^ 63

def AllowedRun (queues : ι → Option Bytes) : List (BufferOp ι) → Prop
  | [] => True
  | op :: ops => Allowed queues op ∧ AllowedRun (queueStep queues op).1 ops

theorem Represents.update {bufs : ι → Option RawBuffer} {queues : ι → Option Bytes} (h : Represents bufs queues) (i : ι)
    {raw : RawBuffer} {queue : Bytes} (hholds : Holds raw queue) :
    Represents (Function.update bufs i (some raw)) (Function.update queues i (some queue)) := by
  intro j
  by_cases hj : j = i
  · subst hj
    rw [Function.update_self, Function.update_self]
    exact .some hholds
  · rw [Function.update_of_ne hj, Function.update_of_ne hj]
    exact h j

theorem Represents.keep {bufs : ι → Option RawBuffer} {queues : ι → Option Bytes} (h : Represents bufs queues) {i : ι}
    {raw : RawBuffer} {queue : Bytes} (hqueue : queues i = some queue) (hholds : Holds raw queue) :
    Represents (Function.update bufs i (some raw)) queues := by
  have hupdate := h.update i hholds
  rwa [← hqueue, Function.update_eq_self] at hupdate

/-- An operation that is allowed accesses nothing outside of the memory, and does to the bytes what it does to the
queues. -/
theorem bufferStep_represents {bufs : ι → Option RawBuffer} {queues : ι → Option Bytes} (h : Represents bufs queues)
    {op : BufferOp ι} (hallowed : Allowed queues op) :
    ∃ bufs', bufferStep bufs op = some (bufs', (queueStep queues op).2) ∧ Represents bufs' (queueStep queues op).1 := by
  cases op with
  | init i size fresh =>
    have hlen : (fresh.bytes 0 size).length = size := by simp [Mem.bytes]
    refine ⟨_, rfl, h.update i ⟨bufferInit (fresh.bytes 0 size), ?_, ?_, List.take_zero ..⟩⟩
    · simp [RawBuffer.init, Buffer.raw, bufferInit, Buffer.size, hlen]
    · rw [Buffer.size, bufferInit, hlen]
      exact hallowed
  | append i data fresh =>
    obtain ⟨queue, hqueue, hsmall⟩ := hallowed
    obtain ⟨b, hb, hsize, rfl⟩ := h.get hqueue
    rw [Buffer.length_live] at hsmall
    simp only [bufferStep, queueStep, hb, hqueue, Option.bind_eq_bind, Option.bind_some, append_raw b data fresh hsmall,
      Option.map_some]
    refine ⟨_, rfl, h.update i ⟨bufferAppend b data, rfl, ?_, live_bufferAppend b data⟩⟩
    rw [Buffer.size, ← (overwrite_bufferResize b data fresh).trans (alloc_bufferAppend b data).symm, length_overwrite,
      size_bufferResize]
    omega
  | take i len =>
    obtain ⟨queue, hqueue⟩ := hallowed
    obtain ⟨b, hb, hsize, rfl⟩ := h.get hqueue
    have hfits := b.fits
    rw [Buffer.size] at hsize
    simp only [bufferStep, queueStep, hb, hqueue, Option.bind_eq_bind, Option.bind_some, take_raw b len (by omega),
      Option.map_some, Option.getD_some]
    refine ⟨_, rfl, h.update i ⟨_, rfl, hsize, ?_⟩⟩
    rw [live_bufferCut b (Nat.min_le_left ..), ← Buffer.length_live b, Nat.min_comm, ← List.drop_eq_drop_min]
  | cut i len =>
    obtain ⟨queue, hqueue, hle⟩ := hallowed
    obtain ⟨b, hb, hsize, rfl⟩ := h.get hqueue
    have hfits := b.fits
    rw [Buffer.size] at hsize
    rw [Buffer.length_live] at hle
    simp only [bufferStep, queueStep, hb, hqueue, Option.bind_eq_bind, Option.bind_some, cut_raw b hle (by omega),
      Option.map_some]
    exact ⟨_, rfl, h.update i ⟨_, rfl, hsize, live_bufferCut b hle⟩⟩
  | reset i =>
    obtain ⟨queue, hqueue⟩ := hallowed
    obtain ⟨b, hb, hsize, rfl⟩ := h.get hqueue
    simp only [bufferStep, queueStep, hb, hqueue, Option.bind_eq_bind, Option.bind_some, Option.map_some]
    exact ⟨_, rfl, h.update i ⟨bufferReset b, rfl, hsize, live_bufferReset b⟩⟩
  -- rewinding and resizing move the bytes, and the queue stays
  | rewind i =>
    obtain ⟨queue, hqueue⟩ := hallowed
    obtain ⟨b, hb, hsize, hlive⟩ := h.get hqueue
    simp only [bufferStep, queueStep, hb, Option.bind_eq_bind, Option.bind_some, rewind_raw]
    refine ⟨_, rfl, h.keep hqueue ⟨bufferRewind b, rfl, ?_, ?_⟩⟩
    · rw [Buffer.size, bufferRewind, length_overwrite]
      exact hsize
    · rw [← hlive, live_bufferRewind]
  | resize i size fresh =>
    obtain ⟨queue, hqueue, hsmall⟩ := hallowed
    obtain ⟨b, hb, hsize, hlive⟩ := h.get hqueue
    rw [← hlive, Buffer.length_live] at hsmall
    simp only [bufferStep, queueStep, hb, Option.bind_eq_bind, Option.bind_some, resize_raw b fresh hsmall]
    refine ⟨_, rfl, h.keep hqueue ⟨bufferResize b size fresh, rfl, ?_, ?_⟩⟩
    · rw [Buffer.size, size_bufferResize]
      omega
    · rw [← hlive, live_bufferResize]
  | copy i j fresh =>
    obtain ⟨-, queue, other, hqueue, hother, hsmall⟩ := hallowed
    obtain ⟨b, hb, hsize, rfl⟩ := h.get hqueue
    obtain ⟨b', hb', hsize', rfl⟩ := h.get hother
    rw [Buffer.length_live, Buffer.length_live] at hsmall
    obtain ⟨copied, hcopy, hlive, hcopied⟩ := copy_raw b b' fresh hsmall
    simp only [bufferStep, queueStep, hb, hb', hother, Option.bind_eq_bind, Option.bind_some, hcopy]
    refine ⟨_, rfl, h.update i ⟨copied, rfl, ?_, hlive⟩⟩
    rw [hcopied]
    omega

theorem bufferRun_represents : ∀ {bufs : ι → Option RawBuffer} {queues : ι → Option Bytes} (ops : List (BufferOp ι)),
    Represents bufs queues → AllowedRun queues ops →
      ∃ trace, bufferRun bufs ops = some trace ∧ (∀ s ∈ trace, ∀ i raw, s.1 i = some raw → raw.Inv) ∧
        trace.map (fun s => (contents s.1, s.2)) = queueRun queues ops
  | bufs, queues, [], _, _ => ⟨[], rfl, by simp, rfl⟩
  | bufs, queues, op :: ops, h, ⟨hallowed, hrest⟩ => by
    obtain ⟨bufs', hstep, h'⟩ := bufferStep_represents h hallowed
    obtain ⟨trace, hrun, hinv, hqueues⟩ := bufferRun_represents ops h' hrest
    refine ⟨(bufs', (queueStep queues op).2) :: trace, ?_, ?_, ?_⟩
    · rw [bufferRun, hstep]
      simp only [Option.bind_eq_bind, Option.bind_some, hrun]
      rfl
    · rw [List.forall_mem_cons]
      exact ⟨h'.inv, hinv⟩
    · rw [List.map_cons, hqueues, h'.contents_eq]
      rfl

/-- Any run of allowed operations on any number of buffers goes through without an access outside of the memory,
every buffer has its live range inside its allocation behind every operation, and the bytes of the buffers and
those that are taken are the ones of the queues. -/
theorem bufferRun_queue (ops : List (BufferOp ι)) (hallowed : AllowedRun (fun _ => none) ops) :
    ∃ trace, bufferRun (fun _ => none) ops = some trace ∧ (∀ s ∈ trace, ∀ i raw, s.1 i = some raw → raw.Inv) ∧
      trace.map (fun s => (contents s.1, s.2)) = queueRun (fun _ => none) ops :=
  bufferRun_represents ops (fun _ => .none) hallowed

end Runs

/-- Two buffers: what is appended moves the live range to the front, and what is left of the first is copied. -/
def copyingRun : List (BufferOp Bool) :=
  [.init false 2 fun _ => 7, .append false [1, 2, 3] fun _ => 7, .cut false 1, .append false [4] fun _ => 7,
   .take false 2, .init true 0 fun _ => 7, .copy true false fun _ => 7]

theorem bufferRun_queue_copying :
    ∃ trace, bufferRun (fun _ => none) copyingRun = some trace ∧
      (∀ s ∈ trace, ∀ i raw, s.1 i = some raw → raw.Inv) ∧
      trace.map (fun s => (contents s.1, s.2)) = queueRun (fun _ => none) copyingRun :=
  bufferRun_queue copyingRun
    ⟨show 2 < 2 ^ 63 by decide, ⟨_, rfl, by decide⟩, ⟨_, rfl, by decide⟩, ⟨_, rfl, by decide⟩, ⟨_, rfl⟩,
      show 0 < 2 ^ 63 by decide, ⟨by decide, _, _, rfl, rfl, by decide⟩, trivial⟩

end CMx
