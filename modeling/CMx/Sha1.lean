/-
The SHA1 hash of `sha1.c`, for hosts of either byte order, and what it computes: for every message whose
length a `uint32_t` holds, however it was cut into updates, the digest of FIPS PUB 180-1.
-/
import CMx.Lib.Blocks
import CMx.Websocket
import CMx.RawBuffer

namespace CMx.Sha1

open Mqtt (Bytes)

/-! ## The transformation of one block -/

def rol (value bits : UInt32) : UInt32 := (value <<< bits) ||| (value >>> (32 - bits))

/-- The byte order of the host. -/
inductive ByteOrder where
  | littleEndian
  | bigEndian
  deriving DecidableEq, Repr

/-- The number with these bytes in the memory. -/
def ByteOrder.word : ByteOrder → (b0 b1 b2 b3 : UInt8) → UInt32
  | .littleEndian, b0, b1, b2, b3 => b0.toUInt32 ||| b1.toUInt32 <<< 8 ||| b2.toUInt32 <<< 16 ||| b3.toUInt32 <<< 24
  | .bigEndian, b0, b1, b2, b3 => b0.toUInt32 <<< 24 ||| b1.toUInt32 <<< 16 ||| b2.toUInt32 <<< 8 ||| b3.toUInt32

abbrev Block := Vector UInt8 64

/-- The bytes of a block as the sixteen numbers of `CHAR64LONG16`. -/
def ByteOrder.load (order : ByteOrder) (buffer : Block) : Vector UInt32 16 :=
  Vector.ofFn fun i => order.word buffer[4 * i.val] buffer[4 * i.val + 1] buffer[4 * i.val + 2] buffer[4 * i.val + 3]

/-- The macro, with the block that it leaves. -/
def blk0 (order : ByteOrder) (block : Vector UInt32 16) (i : Fin 16) : UInt32 × Vector UInt32 16 :=
  match order with
  | .littleEndian =>
    let value := (rol block[i] 24 &&& 0xFF00FF00) ||| (rol block[i] 8 &&& 0x00FF00FF)
    (value, block.set i value)
  | .bigEndian => (block[i], block)

def blk (block : Vector UInt32 16) (i : Nat) : UInt32 × Vector UInt32 16 :=
  let value := rol (block[(i + 13) % 16] ^^^ block[(i + 8) % 16] ^^^ block[(i + 2) % 16] ^^^ block[i % 16]) 1
  (value, block.set (i % 16) value)

/-- The working variables of `SHA1Transform`. -/
inductive Register where
  | a | b | c | d | e
  deriving DecidableEq, Repr

structure Working where
  a : UInt32
  b : UInt32
  c : UInt32
  d : UInt32
  e : UInt32
  block : Vector UInt32 16
  deriving DecidableEq, Repr

def Working.get (s : Working) : Register → UInt32
  | .a => s.a
  | .b => s.b
  | .c => s.c
  | .d => s.d
  | .e => s.e

def Working.set (s : Working) (value : UInt32) : Register → Working
  | .a => { s with a := value }
  | .b => { s with b := value }
  | .c => { s with c := value }
  | .d => { s with d := value }
  | .e => { s with e := value }

/-- The macros `R0` to `R4`. -/
inductive Macro where
  | r0 | r1 | r2 | r3 | r4
  deriving DecidableEq, Repr

/-- The expression on `w`, `x` and `y` in the macro. -/
def Macro.mix : Macro → (w x y : UInt32) → UInt32
  | .r0, w, x, y => (w &&& (x ^^^ y)) ^^^ y
  | .r1, w, x, y => (w &&& (x ^^^ y)) ^^^ y
  | .r2, w, x, y => w ^^^ x ^^^ y
  | .r3, w, x, y => ((w ||| x) &&& y) ||| (w &&& x)
  | .r4, w, x, y => w ^^^ x ^^^ y

def Macro.constant : Macro → UInt32
  | .r0 => 0x5A827999
  | .r1 => 0x5A827999
  | .r2 => 0x6ED9EBA1
  | .r3 => 0x8F1BBCDC
  | .r4 => 0xCA62C1D6

def Macro.expand (order : ByteOrder) (block : Vector UInt32 16) (i : Nat) : Macro → UInt32 × Vector UInt32 16
  | .r0 => blk0 order block (Fin.ofNat 16 i)
  | _ => blk block i

/-- A use of a macro, with its arguments. -/
structure Round where
  name : Macro
  v : Register
  w : Register
  x : Register
  y : Register
  z : Register
  i : Nat
  deriving DecidableEq, Repr

def Round.run (order : ByteOrder) (s : Working) (r : Round) : Working :=
  let (value, block) := r.name.expand order s.block r.i
  let s := { s with block := block }
  let s := s.set
    (s.get r.z + (r.name.mix (s.get r.w) (s.get r.x) (s.get r.y) + value + r.name.constant + rol (s.get r.v) 5)) r.z
  s.set (rol (s.get r.w) 30) r.w

open Register Macro in
/-- The loop of `SHA1Transform`, unrolled. -/
def rounds : List Round :=
  [⟨r0, a, b, c, d, e, 0⟩, ⟨r0, e, a, b, c, d, 1⟩, ⟨r0, d, e, a, b, c, 2⟩, ⟨r0, c, d, e, a, b, 3⟩,
    ⟨r0, b, c, d, e, a, 4⟩, ⟨r0, a, b, c, d, e, 5⟩, ⟨r0, e, a, b, c, d, 6⟩, ⟨r0, d, e, a, b, c, 7⟩,
    ⟨r0, c, d, e, a, b, 8⟩, ⟨r0, b, c, d, e, a, 9⟩, ⟨r0, a, b, c, d, e, 10⟩, ⟨r0, e, a, b, c, d, 11⟩,
    ⟨r0, d, e, a, b, c, 12⟩, ⟨r0, c, d, e, a, b, 13⟩, ⟨r0, b, c, d, e, a, 14⟩, ⟨r0, a, b, c, d, e, 15⟩,
    ⟨r1, e, a, b, c, d, 16⟩, ⟨r1, d, e, a, b, c, 17⟩, ⟨r1, c, d, e, a, b, 18⟩, ⟨r1, b, c, d, e, a, 19⟩,
    ⟨r2, a, b, c, d, e, 20⟩, ⟨r2, e, a, b, c, d, 21⟩, ⟨r2, d, e, a, b, c, 22⟩, ⟨r2, c, d, e, a, b, 23⟩,
    ⟨r2, b, c, d, e, a, 24⟩, ⟨r2, a, b, c, d, e, 25⟩, ⟨r2, e, a, b, c, d, 26⟩, ⟨r2, d, e, a, b, c, 27⟩,
    ⟨r2, c, d, e, a, b, 28⟩, ⟨r2, b, c, d, e, a, 29⟩, ⟨r2, a, b, c, d, e, 30⟩, ⟨r2, e, a, b, c, d, 31⟩,
    ⟨r2, d, e, a, b, c, 32⟩, ⟨r2, c, d, e, a, b, 33⟩, ⟨r2, b, c, d, e, a, 34⟩, ⟨r2, a, b, c, d, e, 35⟩,
    ⟨r2, e, a, b, c, d, 36⟩, ⟨r2, d, e, a, b, c, 37⟩, ⟨r2, c, d, e, a, b, 38⟩, ⟨r2, b, c, d, e, a, 39⟩,
    ⟨r3, a, b, c, d, e, 40⟩, ⟨r3, e, a, b, c, d, 41⟩, ⟨r3, d, e, a, b, c, 42⟩, ⟨r3, c, d, e, a, b, 43⟩,
    ⟨r3, b, c, d, e, a, 44⟩, ⟨r3, a, b, c, d, e, 45⟩, ⟨r3, e, a, b, c, d, 46⟩, ⟨r3, d, e, a, b, c, 47⟩,
    ⟨r3, c, d, e, a, b, 48⟩, ⟨r3, b, c, d, e, a, 49⟩, ⟨r3, a, b, c, d, e, 50⟩, ⟨r3, e, a, b, c, d, 51⟩,
    ⟨r3, d, e, a, b, c, 52⟩, ⟨r3, c, d, e, a, b, 53⟩, ⟨r3, b, c, d, e, a, 54⟩, ⟨r3, a, b, c, d, e, 55⟩,
    ⟨r3, e, a, b, c, d, 56⟩, ⟨r3, d, e, a, b, c, 57⟩, ⟨r3, c, d, e, a, b, 58⟩, ⟨r3, b, c, d, e, a, 59⟩,
    ⟨r4, a, b, c, d, e, 60⟩, ⟨r4, e, a, b, c, d, 61⟩, ⟨r4, d, e, a, b, c, 62⟩, ⟨r4, c, d, e, a, b, 63⟩,
    ⟨r4, b, c, d, e, a, 64⟩, ⟨r4, a, b, c, d, e, 65⟩, ⟨r4, e, a, b, c, d, 66⟩, ⟨r4, d, e, a, b, c, 67⟩,
    ⟨r4, c, d, e, a, b, 68⟩, ⟨r4, b, c, d, e, a, 69⟩, ⟨r4, a, b, c, d, e, 70⟩, ⟨r4, e, a, b, c, d, 71⟩,
    ⟨r4, d, e, a, b, c, 72⟩, ⟨r4, c, d, e, a, b, 73⟩, ⟨r4, b, c, d, e, a, 74⟩, ⟨r4, a, b, c, d, e, 75⟩,
    ⟨r4, e, a, b, c, d, 76⟩, ⟨r4, d, e, a, b, c, 77⟩, ⟨r4, c, d, e, a, b, 78⟩, ⟨r4, b, c, d, e, a, 79⟩]

def sha1Transform (order : ByteOrder) (state : Vector UInt32 5) (buffer : Block) : Vector UInt32 5 :=
  let s := rounds.foldl (Round.run order) ⟨state[0], state[1], state[2], state[3], state[4], order.load buffer⟩
  #v[state[0] + s.a, state[1] + s.b, state[2] + s.c, state[3] + s.d, state[4] + s.e]

/-! ## The context -/

structure Sha1Ctx where
  state : Vector UInt32 5
  count : Vector UInt32 2
  buffer : Block
  deriving DecidableEq, Repr

/-- `memcpy` to an offset of the buffer; outside of it there is no result. -/
def Block.copy (buffer : Block) (offset : Nat) (bytes : Bytes) : Option Block :=
  if offset + bytes.length ≤ 64 then some ⟨(overwrite buffer.toList offset bytes).toArray, by simp⟩ else none

/-- The data of one call, whose length is a `uint32_t`. -/
structure Piece where
  bytes : Bytes
  fits : bytes.length < 2 ^ 32

def Piece.len (data : Piece) : UInt32 := UInt32.ofNat data.bytes.length

/-- The members `count` and `buffer` are what was in the memory. -/
def sha1Init (context : Sha1Ctx) : Sha1Ctx :=
  { context with state := #v[0x67452301, 0xEFCDAB89, 0x98BADCFE, 0x10325476, 0xC3D2E1F0], count := #v[0, 0] }

/-- The loop over the blocks of the data, with the number it leaves in `i`. There is no result where it reads
behind the data. -/
def sha1UpdateLoop (order : ByteOrder) (data : Piece) (state : Vector UInt32 5) (i : UInt32) :
    Option (Vector UInt32 5 × UInt32) :=
  if i + 63 < data.len then
    if h : 64 ≤ (data.bytes.drop i.toNat).length then
      sha1UpdateLoop order data (sha1Transform order state (Blocks.front (data.bytes.drop i.toNat) h)) (i + 64)
    else none
  else some (state, i)
termination_by data.bytes.length - i.toNat
decreasing_by
  have := data.fits
  rw [List.length_drop] at h
  rw [UInt32.toNat_add, Nat.mod_eq_of_lt (by simp; omega)]
  simp
  omega

def sha1Update (order : ByteOrder) (context : Sha1Ctx) (data : Piece) : Option Sha1Ctx := do
  let j := context.count[0]
  let count0 := context.count[0] + data.len <<< 3
  let count1 := if count0 < j then context.count[1] + 1 else context.count[1]
  let count1 := count1 + data.len >>> 29
  let j := (j >>> 3) &&& 63
  if j + data.len > 63 then
    let i := 64 - j
    let buffer ← Block.copy context.buffer j.toNat (data.bytes.take i.toNat)
    let state := sha1Transform order context.state buffer
    let (state, i) ← sha1UpdateLoop order data state i
    let buffer ← Block.copy buffer 0 (data.bytes.drop i.toNat)
    return ⟨state, #v[count0, count1], buffer⟩
  else
    let buffer ← Block.copy context.buffer j.toNat data.bytes
    return ⟨context.state, #v[count0, count1], buffer⟩

/-- A call with one byte. -/
def Piece.byte (c : UInt8) : Piece := ⟨[c], by simp⟩

/-- The loop of `SHA1Final`, at most this many times. -/
def sha1FinalLoop (order : ByteOrder) : Nat → Sha1Ctx → Option Sha1Ctx
  | 0, _ => none
  | passes + 1, context =>
    if context.count[0] &&& 504 ≠ 448 then do
      let context ← sha1Update order context (.byte 0)
      sha1FinalLoop order passes context
    else some context

/-- The bytes of `finalcount`. -/
def finalcount (count : Vector UInt32 2) : Vector UInt8 8 :=
  Vector.ofFn fun i =>
    ((if 4 ≤ i.val then count[0] else count[1]) >>> UInt32.ofNat ((3 - i.val % 4) * 8) &&& 255).toUInt8

def sha1Final (order : ByteOrder) (context : Sha1Ctx) : Option (Vector UInt8 20) := do
  let finalcount := finalcount context.count
  let context ← sha1Update order context (.byte 0x80)
  -- the length in bits is there at the latest after sixty-three bytes
  let context ← sha1FinalLoop order 64 context
  let context ← sha1Update order context ⟨finalcount.toList, by simp⟩
  return Vector.ofFn fun i => (context.state[i.val / 4] >>> UInt32.ofNat ((3 - i.val % 4) * 8) &&& 255).toUInt8

/-- `SHA1` of the bytes, with the context that is on the stack. -/
def sha1 (order : ByteOrder) (stack : Sha1Ctx) (str : Piece) : Option (Vector UInt8 20) := do
  let ctx ← str.bytes.foldlM (fun ctx c => sha1Update order ctx (.byte c)) (sha1Init stack)
  sha1Final order ctx

/-! ## FIPS PUB 180-1 -/

namespace Fips

/-- The functions of the four groups of twenty steps. -/
def f (t : Nat) (b c d : UInt32) : UInt32 :=
  if t < 20 then (b &&& c) ||| (~~~b &&& d)
  else if t < 40 then b ^^^ c ^^^ d
  else if t < 60 then (b &&& c) ||| (b &&& d) ||| (c &&& d)
  else b ^^^ c ^^^ d

def k (t : Nat) : UInt32 :=
  if t < 20 then 0x5A827999 else if t < 40 then 0x6ED9EBA1 else if t < 60 then 0x8F1BBCDC else 0xCA62C1D6

/-- The words of a block, and the words that they are expanded to. -/
def w (block : Block) (t : Nat) : UInt32 :=
  if h : t < 16 then
    ByteOrder.bigEndian.word block[4 * t] block[4 * t + 1] block[4 * t + 2] block[4 * t + 3]
  else rol (w block (t - 3) ^^^ w block (t - 8) ^^^ w block (t - 14) ^^^ w block (t - 16)) 1

structure Words where
  a : UInt32
  b : UInt32
  c : UInt32
  d : UInt32
  e : UInt32

def step (block : Block) (s : Words) (t : Nat) : Words :=
  ⟨rol s.a 5 + f t s.b s.c s.d + s.e + w block t + k t, s.a, rol s.b 30, s.c, s.d⟩

def compress (h : Vector UInt32 5) (block : Block) : Vector UInt32 5 :=
  let s := (List.range 80).foldl (step block) ⟨h[0], h[1], h[2], h[3], h[4]⟩
  #v[h[0] + s.a, h[1] + s.b, h[2] + s.c, h[3] + s.d, h[4] + s.e]

def start : Vector UInt32 5 := #v[0x67452301, 0xEFCDAB89, 0x98BADCFE, 0x10325476, 0xC3D2E1F0]

/-- A one bit, as many zero bits as it takes, and the length in bits. -/
def pad (msg : Bytes) : Bytes :=
  msg ++ 0x80 :: List.replicate ((119 - msg.length % 64) % 64) 0 ++ toBigEndian 8 (8 * msg.length)

def digest (msg : Bytes) : Vector UInt8 20 :=
  let h := Blocks.absorb compress start (pad msg)
  ⟨(h.toList.flatMap fun word => toBigEndian 4 word.toNat).toArray, by simp⟩

theorem toList_digest (msg : Bytes) :
    (digest msg).toList = (Blocks.absorb compress start (pad msg)).toList.flatMap fun word =>
      toBigEndian 4 word.toNat := rfl

end Fips

/-! ## One block -/

theorem choose_eq (w x y : UInt32) : (w &&& (x ^^^ y)) ^^^ y = (w &&& x) ||| (~~~w &&& y) := by
  apply UInt32.toBitVec_inj.1
  ext i hi
  simp
  cases w.toBitVec[i] <;> simp

theorem majority_eq (w x y : UInt32) : ((w ||| x) &&& y) ||| (w &&& x) = (w &&& x) ||| (w &&& y) ||| (x &&& y) := by
  apply UInt32.toBitVec_inj.1
  ext i hi
  simp
  cases w.toBitVec[i] <;> cases x.toBitVec[i] <;> simp

/-- The two rotations of `blk0` turn the bytes of a number around. -/
theorem swap_word (b0 b1 b2 b3 : UInt8) :
    (rol (ByteOrder.littleEndian.word b0 b1 b2 b3) 24 &&& 0xFF00FF00) |||
        (rol (ByteOrder.littleEndian.word b0 b1 b2 b3) 8 &&& 0x00FF00FF) =
      ByteOrder.bigEndian.word b0 b1 b2 b3 := by
  apply UInt32.toBitVec_inj.1
  ext i hi
  simp only [rol, ByteOrder.word]
  simp
  interval_cases i <;> simp

/-- The register in front of a register, as the rounds turn. -/
def Register.pred : Register → Register
  | .a => .e
  | .b => .a
  | .c => .b
  | .d => .c
  | .e => .d

def Register.succ : Register → Register
  | .a => .b
  | .b => .c
  | .c => .d
  | .d => .e
  | .e => .a

/-- The first argument of a round. -/
def first : (t : Nat) → Register
  | 0 => .a
  | t + 1 => (first t).pred

def macroOf (t : Nat) : Macro :=
  if t < 16 then .r0 else if t < 20 then .r1 else if t < 40 then .r2 else if t < 60 then .r3 else .r4

/-- The rounds without the unrolling. -/
def roundAt (t : Nat) : Round :=
  let v := first t
  ⟨macroOf t, v, v.succ, v.succ.succ, v.succ.succ.succ, v.pred, t⟩

theorem rounds_eq : rounds = (List.range 80).map roundAt := by decide +kernel

theorem mix_macroOf (t : Nat) : (macroOf t).mix = Fips.f t := by
  funext w x y
  unfold macroOf Fips.f
  by_cases h1 : t < 16
  · rw [if_pos h1, if_pos (by omega)]
    exact choose_eq w x y
  rw [if_neg h1]
  by_cases h2 : t < 20
  · rw [if_pos h2, if_pos h2]
    exact choose_eq w x y
  rw [if_neg h2, if_neg h2]
  by_cases h3 : t < 40
  · rw [if_pos h3, if_pos h3]
    rfl
  rw [if_neg h3, if_neg h3]
  by_cases h4 : t < 60
  · rw [if_pos h4, if_pos h4]
    exact majority_eq w x y
  · rw [if_neg h4, if_neg h4]
    rfl

theorem constant_macroOf (t : Nat) : (macroOf t).constant = Fips.k t := by
  unfold macroOf Fips.k
  by_cases h1 : t < 16
  · rw [if_pos h1, if_pos (by omega)]
    rfl
  · rw [if_neg h1]
    split_ifs <;> rfl

/-- What the sixteen numbers are before a round: the last sixteen words, and before the first words are
expanded the block as it was loaded. -/
structure Window (order : ByteOrder) (buffer : Block) (t : Nat) (block : Vector UInt32 16) : Prop where
  expanded : ∀ u, u < t → t ≤ u + 16 → block[u % 16] = Fips.w buffer u
  loaded : ∀ i : Fin 16, t ≤ i.val → block[i] = (order.load buffer)[i]

section Transform

variable {order : ByteOrder} {buffer : Block} {t : Nat} {block : Vector UInt32 16}

theorem window_zero : Window order buffer 0 (order.load buffer) :=
  ⟨fun u h => absurd h (Nat.not_lt_zero u), fun _ _ => rfl⟩

theorem blk0_spec (order : ByteOrder) (buffer : Block) (i : Fin 16) (h : block[i] = (order.load buffer)[i]) :
    blk0 order block i = (Fips.w buffer i, block.set i (Fips.w buffer i)) := by
  have hword :
      block[i] = order.word buffer[4 * i.val] buffer[4 * i.val + 1] buffer[4 * i.val + 2] buffer[4 * i.val + 3] := by
    rw [h]
    simp [ByteOrder.load]
  rw [Fips.w, dif_pos i.isLt]
  cases order with
  | littleEndian => simp only [blk0, hword, swap_word]
  | bigEndian =>
    rw [← hword]
    simp [blk0]

theorem blk_spec (h : Window order buffer t block) (ht : 16 ≤ t) :
    blk block t = (Fips.w buffer t, block.set (t % 16) (Fips.w buffer t)) := by
  have h3 : block[(t + 13) % 16] = Fips.w buffer (t - 3) := by
    rw [← h.expanded (t - 3) (by omega) (by omega)]
    congr 1
    omega
  have h8 : block[(t + 8) % 16] = Fips.w buffer (t - 8) := by
    rw [← h.expanded (t - 8) (by omega) (by omega)]
    congr 1
    omega
  have h14 : block[(t + 2) % 16] = Fips.w buffer (t - 14) := by
    rw [← h.expanded (t - 14) (by omega) (by omega)]
    congr 1
    omega
  have h16 : block[t % 16] = Fips.w buffer (t - 16) := by
    rw [← h.expanded (t - 16) (by omega) (by omega)]
    congr 1
    omega
  have hw : Fips.w buffer t = rol (Fips.w buffer (t - 3) ^^^ Fips.w buffer (t - 8) ^^^ Fips.w buffer (t - 14) ^^^
      Fips.w buffer (t - 16)) 1 := by
    rw [Fips.w, dif_neg (by omega)]
  simp only [blk, h3, h8, h14, h16, ← hw]

/-- A round takes the next word from the block, and puts it there. -/
theorem expand_spec (h : Window order buffer t block) :
    (macroOf t).expand order block t = (Fips.w buffer t, block.set (t % 16) (Fips.w buffer t)) := by
  by_cases ht : t < 16
  · have hkind : macroOf t = .r0 := if_pos ht
    have hblk0 := blk0_spec order buffer (Fin.ofNat 16 t) (h.loaded _ (by simp [Nat.mod_eq_of_lt ht]))
    simp only [Fin.ofNat, Nat.mod_eq_of_lt ht] at hblk0
    simp only [hkind, Macro.expand, Fin.ofNat, Nat.mod_eq_of_lt ht, hblk0]
  · have hkind : macroOf t ≠ .r0 := by
      unfold macroOf
      split_ifs <;> simp
    have hexpand : (macroOf t).expand order block t = blk block t := by
      cases hm : macroOf t with
      | r0 => exact absurd hm hkind
      | _ => rfl
    rw [hexpand, blk_spec h (by omega)]

theorem Window.next (h : Window order buffer t block) :
    Window order buffer (t + 1) (block.set (t % 16) (Fips.w buffer t)) where
  expanded := by
    intro u hu ht
    by_cases heq : u = t
    · subst heq
      simp
    · rw [Vector.getElem_set_ne _ _ (by omega)]
      exact h.expanded u (by omega) (by omega)
  loaded := by
    intro i hi
    have hne : t % 16 ≠ i.val := by omega
    rw [← h.loaded i (by omega)]
    exact Vector.getElem_set_ne _ _ hne

/-- The working variables under the names of the standard, when `v` is the first of them. -/
def Working.words (s : Working) (v : Register) : Fips.Words :=
  ⟨s.get v, s.get v.succ, s.get v.succ.succ, s.get v.succ.succ.succ, s.get v.pred⟩

/-- One round of the code is one step of the standard, with the names moved on by one. -/
theorem run_roundAt {s : Working} (h : Window order buffer t s.block) :
    ((roundAt t).run order s).words (first (t + 1)) = Fips.step buffer (s.words (first t)) t ∧
      Window order buffer (t + 1) ((roundAt t).run order s).block := by
  obtain ⟨a, b, c, d, e, block⟩ := s
  have hexpand := expand_spec h
  constructor
  · simp only [Round.run, roundAt, hexpand, mix_macroOf, constant_macroOf, Fips.step, Working.words, first]
    cases first t <;>
      simp only [Register.pred, Register.succ, Working.get, Working.set, Fips.Words.mk.injEq, and_self, and_true] <;>
      ac_rfl
  · have hblock : ((roundAt t).run order ⟨a, b, c, d, e, block⟩).block = block.set (t % 16) (Fips.w buffer t) := by
      simp only [Round.run, roundAt, hexpand]
      cases first t <;> rfl
    rw [hblock]
    exact h.next

theorem foldl_rounds (order : ByteOrder) (buffer : Block) (s : Working) (h : s.block = order.load buffer) (n : Nat) :
    (((List.range n).map roundAt).foldl (Round.run order) s).words (first n) =
        (List.range n).foldl (Fips.step buffer) (s.words .a) ∧
      Window order buffer n (((List.range n).map roundAt).foldl (Round.run order) s).block := by
  induction n with
  | zero =>
    refine ⟨rfl, ?_⟩
    show Window order buffer 0 s.block
    rw [h]
    exact window_zero
  | succ n ih =>
    obtain ⟨hwords, hwindow⟩ := ih
    obtain ⟨hstep, hnext⟩ := run_roundAt hwindow
    simp only [List.range_succ, List.map_append, List.map_cons, List.map_nil, List.foldl_append, List.foldl_cons,
      List.foldl_nil]
    refine ⟨?_, hnext⟩
    rw [hstep, hwords]

/-- The sums at the end, for any number of rounds after which the names are back in their places. -/
theorem add_words (state : Vector UInt32 5) {n : Nat} (hn : first n = .a) {rs : List Round}
    (hrs : rs = (List.range n).map roundAt) :
    let s := rs.foldl (Round.run order) ⟨state[0], state[1], state[2], state[3], state[4], order.load buffer⟩
    let h := (List.range n).foldl (Fips.step buffer) ⟨state[0], state[1], state[2], state[3], state[4]⟩
    #v[state[0] + s.a, state[1] + s.b, state[2] + s.c, state[3] + s.d, state[4] + s.e] =
      #v[state[0] + h.a, state[1] + h.b, state[2] + h.c, state[3] + h.d, state[4] + h.e] := by
  obtain ⟨hwords, -⟩ := foldl_rounds order buffer
    ⟨state[0], state[1], state[2], state[3], state[4], order.load buffer⟩ rfl n
  rw [← hrs, hn] at hwords
  have hsteps : (List.range n).foldl (Fips.step buffer) ⟨state[0], state[1], state[2], state[3], state[4]⟩ =
      (rs.foldl (Round.run order)
        ⟨state[0], state[1], state[2], state[3], state[4], order.load buffer⟩).words .a := hwords.symm
  simp only [hsteps, Working.words, Working.get, Register.succ, Register.pred]

/-- The transformation of a block, on hosts of either byte order. -/
theorem sha1Transform_eq (order : ByteOrder) (state : Vector UInt32 5) (buffer : Block) :
    sha1Transform order state buffer = Fips.compress state buffer :=
  add_words state (n := 80) (by decide) rounds_eq

end Transform

/-- The block of the message `abc`. -/
example : sha1Transform .littleEndian Fips.start ⟨(Fips.pad (text "abc")).toArray, by decide⟩ =
    #v[0xA9993E36, 0x4706816A, 0xBA3E2571, 0x7850C26C, 0x9CD0D89D] := by
  decide +kernel

/-! ## Updates -/

/-- What the context is after these bytes: the state behind the whole blocks, the rest in the buffer, and the
number of bits in two parts. -/
structure Holds (context : Sha1Ctx) (bytes : Bytes) : Prop where
  state : context.state = Blocks.absorb Fips.compress Fips.start bytes
  count : context.count[0].toNat + 2 ^ 32 * context.count[1].toNat = 8 * bytes.length % 2 ^ 64
  buffer : context.buffer.toList.take (bytes.length % 64) = Blocks.rest 64 bytes

theorem holds_sha1Init (context : Sha1Ctx) : Holds (sha1Init context) [] where
  state := by rw [Blocks.absorb_short (by simp)]; rfl
  count := rfl
  buffer := by rw [Blocks.rest_short (by simp)]; rfl

theorem Piece.toNat_len (data : Piece) : data.len.toNat = data.bytes.length := by
  have := data.fits
  simp only [Piece.len, UInt32.toNat_ofNat']
  omega

theorem toNat_index (count : UInt32) : ((count >>> 3) &&& 63).toNat = count.toNat / 8 % 64 := by
  simp only [UInt32.toNat_and, UInt32.toNat_shiftRight, UInt32.reduceToNat]
  rw [show 63 = 2 ^ 6 - 1 from rfl, Nat.and_two_pow_sub_one_eq_mod, Nat.shiftRight_eq_div_pow]

/-- The number of bits is counted modulo `2 ^ 64`. -/
theorem count_add {count0 count1 len sum : UInt32} (h : sum = count0 + len <<< 3) :
    sum.toNat + 2 ^ 32 * ((if sum < count0 then count1 + 1 else count1) + len >>> 29).toNat =
      (count0.toNat + 2 ^ 32 * count1.toNat + 8 * len.toNat) % 2 ^ 64 := by
  have h0 := count0.toNat_lt
  have h1 := count1.toNat_lt
  have hlen := len.toNat_lt
  have hsum : sum.toNat = (count0.toNat + len.toNat * 8 % 2 ^ 32) % 2 ^ 32 := by
    rw [h, UInt32.toNat_add, UInt32.toNat_shiftLeft, Nat.shiftLeft_eq]
    rfl
  have hhigh : (len >>> 29).toNat = len.toNat / 2 ^ 29 := by
    rw [UInt32.toNat_shiftRight, Nat.shiftRight_eq_div_pow]
    rfl
  by_cases hcarry : sum < count0
  · have hone : (count1 + 1).toNat = (count1.toNat + 1) % 2 ^ 32 := UInt32.toNat_add ..
    rw [if_pos hcarry, UInt32.toNat_add, hone, hhigh, hsum]
    rw [UInt32.lt_iff_toNat_lt, hsum] at hcarry
    omega
  · rw [if_neg hcarry, UInt32.toNat_add, hhigh, hsum]
    rw [UInt32.lt_iff_toNat_lt, hsum] at hcarry
    omega

theorem toList_copy (buffer : Block) (offset : Nat) (bytes : Bytes) (h : offset + bytes.length ≤ 64) :
    ∃ copied, Block.copy buffer offset bytes = some copied ∧
      copied.toList = buffer.toList.take offset ++ bytes ++ buffer.toList.drop (offset + bytes.length) := by
  refine ⟨_, if_pos h, ?_⟩
  have hsize : offset + bytes.length ≤ buffer.toList.length := by
    rw [Vector.length_toList]
    exact h
  rw [← overwrite_eq hsize]
  rfl

/-- The loop takes all whole blocks, if its index stays a `uint32_t` until then. -/
theorem sha1UpdateLoop_spec (order : ByteOrder) (data : Piece) (state : Vector UInt32 5) (i : UInt32)
    (hle : i.toNat ≤ data.bytes.length)
    (hfits : (data.bytes.length - i.toNat) / 64 * 64 + i.toNat + 63 < 2 ^ 32) :
    ∃ i', sha1UpdateLoop order data state i =
        some (Blocks.absorb Fips.compress state (data.bytes.drop i.toNat), i') ∧
      data.bytes.drop i'.toNat = Blocks.rest 64 (data.bytes.drop i.toNat) := by
  have hlen := data.toNat_len
  have hnext : (i + 63).toNat = i.toNat + 63 := by
    rw [UInt32.toNat_add, show (63 : UInt32).toNat = 63 from rfl]
    omega
  rw [sha1UpdateLoop]
  -- by recursion on the blocks that are left; no index wraps around up to the last one
  by_cases hmore : i + 63 < data.len
  · have hlong := UInt32.lt_iff_toNat_lt.1 hmore
    rw [hnext, hlen] at hlong
    have hblock : 64 ≤ (data.bytes.drop i.toNat).length := by
      rw [List.length_drop]
      omega
    have hstep : (i + 64).toNat = i.toNat + 64 := by
      rw [UInt32.toNat_add, show (64 : UInt32).toNat = 64 from rfl]
      omega
    have hdrop : data.bytes.drop (i + 64).toNat = (data.bytes.drop i.toNat).drop 64 := by
      rw [hstep, List.drop_drop]
    obtain ⟨i', hrun, hrest⟩ := sha1UpdateLoop_spec order data
      (sha1Transform order state (Blocks.front (data.bytes.drop i.toNat) hblock)) (i + 64) (by omega) (by omega)
    refine ⟨i', ?_, ?_⟩
    · rw [if_pos hmore, dif_pos hblock, hrun, hdrop, Blocks.absorb_front (by norm_num) hblock, sha1Transform_eq]
    · rw [hrest, hdrop, Blocks.rest_front (by norm_num) hblock]
  · have hshort := mt UInt32.lt_iff_toNat_lt.2 hmore
    rw [hnext, hlen] at hshort
    have hblock : (data.bytes.drop i.toNat).length < 64 := by
      rw [List.length_drop]
      omega
    refine ⟨i, ?_, ?_⟩
    · rw [if_neg hmore, Blocks.absorb_short hblock]
    · rw [Blocks.rest_short hblock]
termination_by data.bytes.length - i.toNat

section Update

variable (order : ByteOrder) {context : Sha1Ctx} {bytes : Bytes}

theorem Holds.index (h : Holds context bytes) :
    ((context.count[0] >>> 3) &&& 63).toNat = bytes.length % 64 := by
  have hcount := h.count
  have h0 := context.count[0].toNat_lt
  rw [toNat_index]
  omega

/-- The sum with which the update looks for a whole block. -/
theorem Holds.sum (h : Holds context bytes) (data : Piece) :
    (((context.count[0] >>> 3) &&& 63) + data.len).toNat = (bytes.length % 64 + data.bytes.length) % 2 ^ 32 := by
  rw [UInt32.toNat_add, h.index, data.toNat_len]

theorem Holds.count_next (h : Holds context bytes) (data : Piece) :
    let sum := context.count[0] + data.len <<< 3
    sum.toNat +
        2 ^ 32 * ((if sum < context.count[0] then context.count[1] + 1 else context.count[1]) + data.len >>> 29).toNat =
      8 * (bytes ++ data.bytes).length % 2 ^ 64 := by
  have hcount := h.count
  refine (count_add rfl).trans ?_
  rw [data.toNat_len, List.length_append]
  omega

/-- Data that does not complete a block goes to the buffer. -/
theorem sha1Update_short (h : Holds context bytes) (data : Piece)
    (hshort : bytes.length % 64 + data.bytes.length < 64) :
    ∃ next, sha1Update order context data = some next ∧ Holds next (bytes ++ data.bytes) := by
  have hindex := h.index
  have hkept : context.buffer.toList.take (bytes.length % 64) = Blocks.rest 64 bytes := h.buffer
  have hrest : (Blocks.rest 64 bytes).length = bytes.length % 64 := Blocks.length_rest (by norm_num) bytes
  have hfull : ¬ ((context.count[0] >>> 3) &&& 63) + data.len > 63 := by
    intro hgt
    have hlong := UInt32.lt_iff_toNat_lt.1 hgt
    rw [h.sum, show (63 : UInt32).toNat = 63 from rfl] at hlong
    omega
  obtain ⟨copied, hcopy, hcopied⟩ := toList_copy context.buffer (bytes.length % 64) data.bytes (by omega)
  have hsmall : (Blocks.rest 64 bytes ++ data.bytes).length < 64 := by
    rw [List.length_append, hrest]
    exact hshort
  have hnew : (bytes ++ data.bytes).length % 64 = (Blocks.rest 64 bytes ++ data.bytes).length := by
    rw [List.length_append, List.length_append, hrest]
    omega
  refine ⟨⟨context.state, #v[context.count[0] + data.len <<< 3, _], copied⟩, ?_, ?_, h.count_next data, ?_⟩
  · simp only [sha1Update]
    rw [if_neg hfull, hindex, hcopy]
    rfl
  · rw [h.state, Blocks.absorb_append (by norm_num), Blocks.absorb_short hsmall]
  · rw [Blocks.rest_append (by norm_num), Blocks.rest_short hsmall, hnew, hcopied, hkept, List.take_left]

/-- Data that completes a block: it fills the buffer, the loop takes the blocks behind it, and what is left
goes to the front of the buffer. -/
theorem sha1Update_full (h : Holds context bytes) (data : Piece)
    (hfull : 64 ≤ bytes.length % 64 + data.bytes.length) (hfits : bytes.length % 64 + data.bytes.length < 2 ^ 32) :
    ∃ next, sha1Update order context data = some next ∧ Holds next (bytes ++ data.bytes) := by
  have hindex := h.index
  have hkept : context.buffer.toList.take (bytes.length % 64) = Blocks.rest 64 bytes := h.buffer
  have hrest : (Blocks.rest 64 bytes).length = bytes.length % 64 := Blocks.length_rest (by norm_num) bytes
  have hmore : ((context.count[0] >>> 3) &&& 63) + data.len > 63 := by
    refine UInt32.lt_iff_toNat_lt.2 ?_
    rw [h.sum, show (63 : UInt32).toNat = 63 from rfl]
    omega
  have hi : ((64 : UInt32) - ((context.count[0] >>> 3) &&& 63)).toNat = 64 - bytes.length % 64 := by
    have hle : ((context.count[0] >>> 3) &&& 63) ≤ 64 := by
      rw [UInt32.le_iff_toNat_le, hindex, show (64 : UInt32).toNat = 64 from rfl]
      omega
    rw [UInt32.toNat_sub_of_le _ _ hle, hindex]
    rfl
  have htake : (data.bytes.take (64 - bytes.length % 64)).length = 64 - bytes.length % 64 := by
    rw [List.length_take]
    omega
  -- the first bytes fill up the buffer, which is the next block
  obtain ⟨filled, hcopy, hfilled⟩ := toList_copy context.buffer (bytes.length % 64)
    (data.bytes.take (64 - bytes.length % 64)) (by omega)
  have hblock : 64 ≤ (Blocks.rest 64 bytes ++ data.bytes).length := by
    rw [List.length_append, hrest]
    exact hfull
  have hfront : filled = Blocks.front (Blocks.rest 64 bytes ++ data.bytes) hblock := by
    apply Vector.toList_inj.1
    have hnone : context.buffer.toList.drop (bytes.length % 64 + (64 - bytes.length % 64)) = [] := by
      apply List.drop_eq_nil_of_le
      rw [Vector.length_toList]
      omega
    rw [Blocks.toList_fill (by norm_num), hfilled, htake, hnone, List.append_nil, hkept]
  -- the loop takes whole blocks from the data itself, and what is left is buffered
  obtain ⟨i', hloop, hbehind⟩ := sha1UpdateLoop_spec order data (sha1Transform order context.state filled)
    ((64 : UInt32) - ((context.count[0] >>> 3) &&& 63)) (by omega) (by omega)
  rw [hi] at hloop hbehind
  have hnewrest : Blocks.rest 64 (bytes ++ data.bytes) = data.bytes.drop i'.toNat := by
    rw [Blocks.rest_fill (by norm_num) hblock, hbehind]
  have hsmall : (data.bytes.drop i'.toNat).length = (bytes ++ data.bytes).length % 64 := by
    rw [← hnewrest]
    exact Blocks.length_rest (by norm_num) _
  obtain ⟨last, hcopy', hlast⟩ := toList_copy filled 0 (data.bytes.drop i'.toNat) (by omega)
  refine ⟨⟨Blocks.absorb Fips.compress (sha1Transform order context.state filled)
      (data.bytes.drop (64 - bytes.length % 64)), #v[context.count[0] + data.len <<< 3, _], last⟩,
    ?_, ?_, h.count_next data, ?_⟩
  · simp only [sha1Update]
    rw [if_pos hmore, hindex, hi, hcopy]
    simp only [Option.bind_eq_bind, Option.bind_some, hloop, hcopy']
    rfl
  · rw [sha1Transform_eq, h.state, hfront, Blocks.absorb_fill (by norm_num) hblock]
  · rw [hnewrest, hlast, List.take_zero, List.nil_append, ← hsmall, List.take_left]

/-- An update with data that fits is the bytes behind those that were there. -/
theorem sha1Update_holds (h : Holds context bytes) (data : Piece)
    (hfits : bytes.length % 64 + data.bytes.length < 2 ^ 32) :
    ∃ next, sha1Update order context data = some next ∧ Holds next (bytes ++ data.bytes) := by
  by_cases hfull : 64 ≤ bytes.length % 64 + data.bytes.length
  · exact sha1Update_full order h data hfull hfits
  · exact sha1Update_short order h data (by omega)

/-- Where the number of bytes wraps around, the update writes behind the buffer. -/
theorem sha1Update_none (h : Holds context bytes) (data : Piece)
    (hfits : 2 ^ 32 ≤ bytes.length % 64 + data.bytes.length) : sha1Update order context data = none := by
  have hdata := data.fits
  have hfull : ¬ ((context.count[0] >>> 3) &&& 63) + data.len > 63 := by
    intro hgt
    have hlong := UInt32.lt_iff_toNat_lt.1 hgt
    rw [h.sum, show (63 : UInt32).toNat = 63 from rfl] at hlong
    omega
  have hcopy : Block.copy context.buffer (bytes.length % 64) data.bytes = none := if_neg (by omega)
  simp only [sha1Update]
  rw [if_neg hfull, h.index, hcopy]
  rfl

end Update

/-! ## The digest -/

theorem toUInt8_shiftRight (x : UInt32) {k : Nat} (hk : k < 32) :
    (x >>> UInt32.ofNat k &&& 255).toUInt8 = UInt8.ofNat (x.toNat / 2 ^ k) := by
  apply UInt8.toNat_inj.1
  have hmask : (255 : UInt32).toNat = 2 ^ 8 - 1 := rfl
  rw [UInt32.toNat_toUInt8, UInt32.toNat_and, hmask, Nat.and_two_pow_sub_one_eq_mod, UInt32.toNat_shiftRight,
    UInt32.toNat_ofNat', Nat.shiftRight_eq_div_pow, UInt8.toNat_ofNat', Nat.mod_mod,
    Nat.mod_eq_of_lt (show k < 2 ^ 32 by omega), Nat.mod_eq_of_lt hk]

/-- The bytes of a number, the high ones first. -/
theorem getElem_toBigEndian : ∀ (size n : Nat) {i : Nat} (h : i < (toBigEndian size n).length),
    (toBigEndian size n)[i] = UInt8.ofNat (n / 256 ^ (size - 1 - i))
  | 0, _, i, h => absurd h (Nat.not_lt_zero i)
  | size + 1, n, i, h => by
    rw [length_toBigEndian] at h
    simp only [toBigEndian]
    by_cases hi : i < size
    · rw [List.getElem_append_left (by rw [length_toBigEndian]; exact hi), getElem_toBigEndian, Nat.div_div_eq_div_mul,
        ← pow_succ']
      congr 3
      omega
    · have heq : i = size := by omega
      subst heq
      simp

theorem toList_finalcount (count : Vector UInt32 2) :
    (finalcount count).toList = toBigEndian 8 (count[0].toNat + 2 ^ 32 * count[1].toNat) := by
  have h0 := count[0].toNat_lt
  refine List.ext_getElem (by simp) fun i hi _ => ?_
  rw [Vector.length_toList] at hi
  rw [getElem_toBigEndian]
  simp only [finalcount, Vector.getElem_toList, Vector.getElem_ofFn]
  rw [toUInt8_shiftRight _ (by omega)]
  apply UInt8.toNat_inj.1
  rw [UInt8.toNat_ofNat', UInt8.toNat_ofNat']
  interval_cases i <;> simp only [Nat.reduceLeDiff, if_true, if_false] <;> norm_num <;> omega

theorem toList_words (state : Vector UInt32 5) :
    (Vector.ofFn fun i : Fin 20 => (state[i.val / 4] >>> UInt32.ofNat ((3 - i.val % 4) * 8) &&& 255).toUInt8).toList =
      state.toList.flatMap fun word => toBigEndian 4 word.toNat := by
  have hstate : state.toList = [state[0], state[1], state[2], state[3], state[4]] := by
    refine List.ext_getElem (by simp) fun i hi _ => ?_
    rw [Vector.length_toList] at hi
    interval_cases i <;> simp
  rw [hstate]
  refine List.ext_getElem (by simp) fun i hi _ => ?_
  rw [Vector.length_toList] at hi
  rw [Vector.getElem_toList, Vector.getElem_ofFn, toUInt8_shiftRight _ (by omega)]
  interval_cases i <;> simp [toBigEndian, Nat.div_div_eq_div_mul]

section Final

variable (order : ByteOrder) {context : Sha1Ctx} {bytes : Bytes}

/-- One byte always fits. -/
theorem sha1Update_byte (h : Holds context bytes) (c : UInt8) :
    ∃ next, sha1Update order context (.byte c) = some next ∧ Holds next (bytes ++ [c]) :=
  sha1Update_holds order h _ (by simp only [Piece.byte, List.length_singleton]; omega)

theorem Holds.done_iff (h : Holds context bytes) : context.count[0] &&& 504 = 448 ↔ bytes.length % 64 = 56 := by
  have hcount := h.count
  have h0 := context.count[0].toNat_lt
  have hmask : (context.count[0] &&& 504).toNat = context.count[0].toNat / 8 % 64 * 8 := by
    have hbits : context.count[0].toNat / 8 % 64 * 8 = ((context.count[0].toNat >>> 3) &&& (2 ^ 6 - 1)) <<< 3 := by
      rw [Nat.shiftLeft_eq, Nat.and_two_pow_sub_one_eq_mod, Nat.shiftRight_eq_div_pow]
    rw [hbits, UInt32.toNat_and, show (504 : UInt32).toNat = (2 ^ 6 - 1) <<< 3 from rfl]
    apply Nat.eq_of_testBit_eq
    intro i
    simp only [Nat.testBit_and, Nat.testBit_shiftLeft, Nat.testBit_shiftRight]
    by_cases hi : 3 ≤ i
    · simp [hi]
    · simp [hi]
  rw [← UInt32.toNat_inj, hmask, show (448 : UInt32).toNat = 448 from rfl]
  omega

/-- The loop of `SHA1Final` stops where the length is the next to be written. -/
theorem sha1FinalLoop_spec (order : ByteOrder) :
    ∀ (passes : Nat) {context : Sha1Ctx} {bytes : Bytes}, Holds context bytes →
    (119 - (bytes.length + 63) % 64) % 64 < passes →
    ∃ next, sha1FinalLoop order passes context = some next ∧
      Holds next (bytes ++ List.replicate ((119 - (bytes.length + 63) % 64) % 64) 0)
  | 0, _, _, _, hpasses => absurd hpasses (Nat.not_lt_zero _)
  | passes + 1, context, bytes, h, hpasses => by
    by_cases hdone : context.count[0] &&& 504 = 448
    · have hzero : (119 - (bytes.length + 63) % 64) % 64 = 0 := by
        have := h.done_iff.1 hdone
        omega
      refine ⟨context, by rw [sha1FinalLoop, if_neg (not_not.2 hdone)], ?_⟩
      rw [hzero, List.replicate_zero, List.append_nil]
      exact h
    · have hmore : (119 - (bytes.length + 63) % 64) % 64 = (119 - (bytes.length + 1 + 63) % 64) % 64 + 1 := by
        have := mt h.done_iff.2 hdone
        omega
      obtain ⟨next, hnext, hholds⟩ := sha1Update_byte order h 0
      have hlen : (bytes ++ [0]).length = bytes.length + 1 := by simp
      obtain ⟨last, hlast, hall⟩ := sha1FinalLoop_spec order passes hholds (by rw [hlen]; omega)
      refine ⟨last, ?_, ?_⟩
      · rw [sha1FinalLoop, if_pos hdone, hnext]
        exact hlast
      · rw [hlen, List.append_assoc] at hall
        rw [hmore, List.replicate_succ]
        exact hall

/-- Behind the padding, the length and the last block, the state is the digest. -/
theorem sha1Final_eq (h : Holds context bytes) : sha1Final order context = some (Fips.digest bytes) := by
  obtain ⟨one, hone, hholds1⟩ := sha1Update_byte order h 0x80
  obtain ⟨zeros, hzeros, hholds2⟩ := sha1FinalLoop_spec order 64 hholds1 (by omega)
  have hlen : (bytes ++ [0x80]).length = bytes.length + 1 := by simp
  have hcount : (finalcount context.count).toList = toBigEndian 8 (8 * bytes.length) := by
    rw [toList_finalcount, h.count]
    refine List.ext_getElem (by simp) fun i hi _ => ?_
    rw [getElem_toBigEndian, getElem_toBigEndian]
    rw [length_toBigEndian] at hi
    apply UInt8.toNat_inj.1
    rw [UInt8.toNat_ofNat', UInt8.toNat_ofNat']
    interval_cases i <;> norm_num <;> omega
  obtain ⟨last, hlast, hholds3⟩ := sha1Update_holds order hholds2
    ⟨(finalcount context.count).toList, by simp⟩ (by simp only [Vector.length_toList]; omega)
  have hpad : (bytes ++ [0x80] ++ List.replicate ((119 - ((bytes ++ [0x80]).length + 63) % 64) % 64) 0) ++
      (finalcount context.count).toList = Fips.pad bytes := by
    have hzero : (119 - (bytes.length + 1 + 63) % 64) % 64 = (119 - bytes.length % 64) % 64 := by omega
    rw [hcount, hlen, hzero, Fips.pad]
    simp
  have hstate : last.state = Blocks.absorb Fips.compress Fips.start (Fips.pad bytes) := by
    rw [hholds3.state, hpad]
  have hrun : sha1Final order context =
      some (Vector.ofFn fun i => (last.state[i.val / 4] >>> UInt32.ofNat ((3 - i.val % 4) * 8) &&& 255).toUInt8) := by
    simp only [sha1Final, hone, hzeros, hlast, Option.bind_eq_bind, Option.bind_some]
    rfl
  rw [hrun]
  refine congrArg some (Vector.toList_inj.1 ?_)
  rw [toList_words, hstate, Fips.toList_digest]

end Final

/-! ## The whole hash -/

/-- Every piece fits to the bytes that are before it: their number and that of the bytes in the buffer is still a
`uint32_t`. -/
def Fits : (done : Bytes) → List Piece → Prop
  | _, [] => True
  | done, data :: pieces => done.length % 64 + data.bytes.length < 2 ^ 32 ∧ Fits (done ++ data.bytes) pieces

theorem foldlM_sha1Update (order : ByteOrder) : ∀ {pieces : List Piece} {context : Sha1Ctx} {done : Bytes},
    Holds context done → Fits done pieces →
    ∃ next, pieces.foldlM (sha1Update order) context = some next ∧
      Holds next (done ++ pieces.flatMap Piece.bytes)
  | [], context, done, h, _ => by
    refine ⟨context, rfl, ?_⟩
    rw [List.flatMap_nil, List.append_nil]
    exact h
  | data :: pieces, context, done, h, hfits => by
    obtain ⟨next, hnext, hholds⟩ := sha1Update_holds order h data hfits.1
    obtain ⟨last, hlast, hall⟩ := foldlM_sha1Update order hholds hfits.2
    refine ⟨last, ?_, ?_⟩
    · rw [List.foldlM_cons, hnext]
      exact hlast
    · rw [List.flatMap_cons, ← List.append_assoc]
      exact hall

theorem foldlM_sha1Update_none (order : ByteOrder) : ∀ {pieces : List Piece} {context : Sha1Ctx} {done : Bytes},
    Holds context done → ¬ Fits done pieces → pieces.foldlM (sha1Update order) context = none
  | [], _, _, _, hfits => absurd trivial hfits
  | data :: pieces, context, done, h, hfits => by
    by_cases hdata : done.length % 64 + data.bytes.length < 2 ^ 32
    · obtain ⟨next, hnext, hholds⟩ := sha1Update_holds order h data hdata
      rw [List.foldlM_cons, hnext]
      exact foldlM_sha1Update_none order hholds fun hrest => hfits ⟨hdata, hrest⟩
    · rw [List.foldlM_cons, sha1Update_none order h data (by omega)]
      rfl

/-- The bytes that `sha1` takes one at a time fit. -/
theorem fits_byte : ∀ (str done : Bytes), Fits done (str.map Piece.byte)
  | [], _ => trivial
  | c :: str, done => by
    refine ⟨?_, fits_byte str _⟩
    simp only [Piece.byte, List.length_singleton]
    omega

theorem sha1_eq_digest (order : ByteOrder) (stack : Sha1Ctx) (str : Piece) :
    sha1 order stack str = some (Fips.digest str.bytes) := by
  obtain ⟨ctx, hctx, hholds⟩ := foldlM_sha1Update order (holds_sha1Init stack) (fits_byte str.bytes [])
  have hbytes : (str.bytes.map Piece.byte).flatMap Piece.bytes = str.bytes := by
    rw [List.flatMap_map]
    exact List.flatMap_singleton' str.bytes
  rw [List.foldlM_map] at hctx
  rw [hbytes, List.nil_append] at hholds
  rw [sha1, hctx]
  exact sha1Final_eq order hholds

/-- The hash of a message that comes in pieces is the digest of all of it, however it was cut, if the pieces fit;
there is none if one of them does not. -/
theorem sha1_pieces_iff (order : ByteOrder) (stack : Sha1Ctx) (pieces : List Piece) (digest : Vector UInt8 20) :
    ((pieces.foldlM (sha1Update order) (sha1Init stack)).bind (sha1Final order) = some digest) ↔
      Fits [] pieces ∧ digest = Fips.digest (pieces.flatMap Piece.bytes) := by
  by_cases hfits : Fits [] pieces
  · obtain ⟨ctx, hctx, hholds⟩ := foldlM_sha1Update order (holds_sha1Init stack) hfits
    rw [List.nil_append] at hholds
    rw [hctx, Option.bind_some, sha1Final_eq order hholds, Option.some.injEq]
    constructor
    · intro heq
      exact ⟨hfits, heq.symm⟩
    · rintro ⟨-, heq⟩
      exact heq.symm
  · rw [foldlM_sha1Update_none order (holds_sha1Init stack) hfits]
    constructor
    · intro heq
      cases heq
    · rintro ⟨h, -⟩
      exact absurd h hfits

/-! ## The hash of the handshake -/

/-- `SHA1` as the handshake calls it. -/
def sha1Sum (order : ByteOrder) (stack : Sha1Ctx) : Ws.Sha1 := fun bytes =>
  if h : bytes.length < 2 ^ 32 then (sha1 order stack ⟨bytes, h⟩).getD (Vector.replicate 20 0)
  else Vector.replicate 20 0

theorem sha1Sum_eq (order : ByteOrder) (stack : Sha1Ctx) {bytes : Bytes} (h : bytes.length < 2 ^ 32) :
    sha1Sum order stack bytes = Fips.digest bytes := by
  rw [sha1Sum, dif_pos h, sha1_eq_digest]
  rfl

/-- The accept key is the encoded digest of the request key with the identifier of the protocol behind it, on
hosts of either byte order and whatever was on the stack; it takes a buffer of thirty-one bytes. -/
theorem wsCalculateAcceptKey_digest (order : ByteOrder) (stack : Sha1Ctx) (reqkey : Bytes) (length : Nat)
    (h : reqkey.length + Ws.wsGuid.length < 2 ^ 32) :
    Ws.wsCalculateAcceptKey (sha1Sum order stack) reqkey length =
      if 31 ≤ length then some (Ws.base64EncodeLoop (Fips.digest (reqkey ++ Ws.wsGuid)).toList) else none := by
  have hsum := sha1Sum_eq order stack (show (reqkey ++ Ws.wsGuid).length < 2 ^ 32 by
    rw [List.length_append]
    exact h)
  by_cases hlength : 31 ≤ length
  · rw [if_pos hlength, Ws.wsCalculateAcceptKey_eq _ _ hlength, Ws.acceptKey, hsum]
  · have hlen : (sha1Sum order stack (reqkey ++ Ws.wsGuid)).toList.length = 20 := Vector.length_toList
    have hencode : Ws.base64Encode (sha1Sum order stack (reqkey ++ Ws.wsGuid)).toList length = [] := by
      simp only [Ws.base64Encode, hlen]
      exact if_pos (by omega)
    rw [if_neg hlength]
    simp only [Ws.wsCalculateAcceptKey, hencode, if_true]

theorem wsCalculateAcceptKey_digest_sample :
    24 + Ws.wsGuid.length < 2 ^ 32 ∧
      Ws.wsCalculateAcceptKey
          (sha1Sum .littleEndian ⟨Vector.replicate 5 0, Vector.replicate 2 0, Vector.replicate 64 0⟩)
          (text "dGhlIHNhbXBsZSBub25jZQ==") 32 =
        some (Ws.base64EncodeLoop (Fips.digest (text "dGhlIHNhbXBsZSBub25jZQ==" ++ Ws.wsGuid)).toList) :=
  ⟨by decide, wsCalculateAcceptKey_digest _ _ _ 32 (by decide)⟩

end CMx.Sha1
