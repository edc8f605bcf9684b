/-
The integer types of C, with the numbers that they hold, and numbers in network byte order.
-/
import CMx.Mqtt.Packet

namespace CMx

open Mqtt (Bytes)

/-! ## Integer types -/

/-- The conversion of a `ssize_t` to an `int`. -/
def cInt (x : Int) : Int := x.bmod (2 ^ 32)

/-- The conversion to a `size_t`. -/
def sizeT (n : Int) : Nat := (n % 2 ^ 64).toNat

theorem cInt_eq {x : Int} (hlo : -2 ^ 31 ≤ x) (hhi : x < 2 ^ 31) : cInt x = x := by
  unfold cInt
  rw [Int.bmod_eq_emod]
  split <;> omega

theorem cInt_bounds (x : Int) : -2 ^ 31 ≤ cInt x ∧ cInt x < 2 ^ 31 := by
  unfold cInt
  rw [Int.bmod_eq_emod]
  split <;> omega

theorem sizeT_natCast {n : Nat} (h : n < 2 ^ 63) : sizeT n = n := by
  unfold sizeT
  omega

/-! ## Network byte order -/

/-- The number with these bytes, the most significant first. -/
def bigEndian (bytes : Bytes) : Nat := bytes.foldl (fun n b => n * 256 + b.toNat) 0

/-- The `size` low bytes of a number, the most significant first. -/
def toBigEndian : (size n : Nat) → Bytes
  | 0, _ => []
  | size + 1, n => toBigEndian size (n / 256) ++ [UInt8.ofNat n]

@[simp] theorem length_toBigEndian : ∀ (size n : Nat), (toBigEndian size n).length = size
  | 0, _ => rfl
  | size + 1, n => by simp [toBigEndian, length_toBigEndian size]

theorem bigEndian_append (bytes : Bytes) (b : UInt8) : bigEndian (bytes ++ [b]) = bigEndian bytes * 256 + b.toNat := by
  simp [bigEndian]

theorem bigEndian_toBigEndian : ∀ (size n : Nat), n < 256 ^ size → bigEndian (toBigEndian size n) = n
  | 0, n, h => by
    have hn : n = 0 := by simpa using h
    rw [hn]
    rfl
  | size + 1, n, h => by
    have hdiv : n / 256 < 256 ^ size := by rw [Nat.div_lt_iff_lt_mul (by norm_num), ← Nat.pow_succ]; exact h
    rw [toBigEndian, bigEndian_append, bigEndian_toBigEndian size _ hdiv, UInt8.toNat_ofNat']
    exact Nat.div_add_mod' n 256

theorem bigEndian_lt (bytes : Bytes) : bigEndian bytes < 256 ^ bytes.length := by
  induction bytes using List.reverseRecOn with
  | nil => simp [bigEndian]
  | append_singleton bytes b ih =>
    have hb := b.toNat_lt
    rw [bigEndian_append, List.length_append, List.length_singleton, Nat.pow_succ]
    omega

end CMx
