/-
The receive buffer of `buffer.c`: an allocation, and the live range in it. What lies outside of the
live range stays where it is: old data, or whatever the allocator returned.
-/
import CMx.Mqtt.Body

namespace CMx

open Mqtt (Bytes Mem)

/-! ## The buffer -/

/-- `data` is an offset into the allocation. -/
structure Buffer where
  alloc : Bytes
  data : Nat
  length : Nat
  fits : data + length ≤ alloc.length
  deriving DecidableEq

namespace Buffer

def size (b : Buffer) : Nat := b.alloc.length

/-- The bytes of the live range. -/
def live (b : Buffer) : Bytes := (b.alloc.drop b.data).take b.length

@[simp] theorem length_live (b : Buffer) : b.live.length = b.length := by
  have h := b.fits
  simp only [live, List.length_take, List.length_drop]
  omega

end Buffer

/-- `memcpy` to an offset of an allocation, as far as it goes. -/
def overwrite (alloc : Bytes) (offset : Nat) (bytes : Bytes) : Bytes :=
  alloc.mapIdx fun i b => if offset ≤ i then bytes.getD (i - offset) b else b

@[simp] theorem length_overwrite (alloc : Bytes) (offset : Nat) (bytes : Bytes) :
    (overwrite alloc offset bytes).length = alloc.length := List.length_mapIdx ..

/-- `buffer_init` with what `malloc` returned. -/
def bufferInit (fresh : Bytes) : Buffer := ⟨fresh, 0, 0, Nat.zero_le _⟩

def bufferRewind (b : Buffer) : Buffer where
  alloc := overwrite b.alloc 0 b.live
  data := 0
  length := b.length
  fits := by
    have h := b.fits
    rw [length_overwrite]
    omega

/-- `realloc` keeps the bytes and puts others, which it takes from `fresh`, behind them. -/
def bufferResize (b : Buffer) (size : Nat) (fresh : Mem) : Buffer :=
  let b := bufferRewind b
  { b with
    alloc := b.alloc ++ fresh.bytes b.size (b.length + size - b.size)
    fits := by
      have h := b.fits
      rw [List.length_append]
      omega }

theorem length_bufferResize (b : Buffer) (size : Nat) (fresh : Mem) :
    (bufferResize b size fresh).data = 0 ∧ (bufferResize b size fresh).length = b.length ∧
      b.length + size ≤ (bufferResize b size fresh).alloc.length := by
  refine ⟨rfl, rfl, ?_⟩
  have hlen : (bufferRewind b).length = b.length := rfl
  simp only [bufferResize, List.length_append, Mem.bytes, List.length_map, List.length_range, Buffer.size, hlen]
  omega

/-- The new bytes of the allocation are all overwritten. -/
def bufferAppend (b : Buffer) (data : Bytes) : Buffer where
  alloc := overwrite (bufferResize b data.length fun _ => 0).alloc b.length data
  data := 0
  length := b.length + data.length
  fits := by
    have h := (length_bufferResize b data.length fun _ => 0).2.2
    rw [length_overwrite]
    omega

def bufferReset (b : Buffer) : Buffer := ⟨b.alloc, 0, 0, Nat.zero_le _⟩

/-- Nothing is cut that is not there. -/
def bufferCut (b : Buffer) (len : Nat) : Buffer where
  alloc := b.alloc
  data := b.data + min len b.length
  length := b.length - len
  fits := by
    have h := b.fits
    omega

/-- The bytes at an offset of the live range are overwritten. -/
def bufferOverwrite (b : Buffer) (offset : Nat) (bytes : Bytes) : Buffer :=
  { b with alloc := overwrite b.alloc (b.data + offset) bytes, fits := by rw [length_overwrite]; exact b.fits }

def bufferIsEmpty (b : Buffer) : Bool := b.length = 0

/-! ## The live range -/

theorem getElem_overwrite {alloc : Bytes} {offset : Nat} {bytes : Bytes} {i : Nat} (h : i < alloc.length)
    (h' : i < (overwrite alloc offset bytes).length) :
    (overwrite alloc offset bytes)[i] =
      if offset ≤ i then bytes.getD (i - offset) alloc[i] else alloc[i] := by
  simp [overwrite]

/-- What was in front, the bytes, and what was behind. -/
theorem overwrite_eq {alloc : Bytes} {offset : Nat} {bytes : Bytes} (h : offset + bytes.length ≤ alloc.length) :
    overwrite alloc offset bytes = alloc.take offset ++ bytes ++ alloc.drop (offset + bytes.length) := by
  refine List.ext_getElem ?_ fun i h1 h2 => ?_
  · simp only [length_overwrite, List.length_append, List.length_take, List.length_drop]
    omega
  · rw [length_overwrite] at h1
    rw [getElem_overwrite h1 _]
    by_cases hfront : offset ≤ i
    · rw [if_pos hfront]
      by_cases hin : i - offset < bytes.length
      · rw [List.getElem_append_left (by simp; omega), List.getElem_append_right (by simp; omega)]
        have hmin : min offset alloc.length = offset := by omega
        simp [List.getD_eq_getElem?_getD, hin, hmin]
      · rw [List.getElem_append_right (by simp; omega)]
        have hsum : offset + bytes.length + (i - (min offset alloc.length + bytes.length)) = i := by omega
        simp [List.getD_eq_getElem?_getD, List.getElem?_eq_none (not_lt.1 hin), hsum]
    · rw [if_neg hfront, List.getElem_append_left (by simp; omega), List.getElem_append_left (by simp; omega),
        List.getElem_take]

/-- Bytes written behind the live range once there is room for them: the range has moved to the front of the
allocation, and nothing is left of what the allocator put there. -/
theorem overwrite_bufferResize (b : Buffer) (data : Bytes) (fresh : Mem) :
    overwrite (bufferResize b data.length fresh).alloc b.length data =
      b.live ++ data ++ b.alloc.drop (b.length + data.length) := by
  have hfits := b.fits
  have hresize := (length_bufferResize b data.length fresh).2.2
  have hrewind : (bufferRewind b).alloc = b.live ++ b.alloc.drop b.length := by
    show overwrite _ _ _ = _
    rw [overwrite_eq (by rw [Buffer.length_live]; omega), Buffer.length_live]
    simp
  have hfront : (bufferResize b data.length fresh).alloc.take b.length = b.live := by
    show ((bufferRewind b).alloc ++ _).take b.length = _
    rw [hrewind, List.append_assoc, List.take_left' (Buffer.length_live b)]
  have hbehind : (bufferResize b data.length fresh).alloc.drop (b.length + data.length) =
      b.alloc.drop (b.length + data.length) := by
    show ((bufferRewind b).alloc ++ _).drop _ = _
    rw [hrewind, List.append_assoc, List.drop_append, List.drop_of_length_le (by rw [Buffer.length_live]; omega),
      Buffer.length_live, List.nil_append, List.drop_append, List.drop_drop]
    simp [Mem.bytes, Buffer.size, length_overwrite, bufferRewind]
    omega
  rw [overwrite_eq hresize, hfront, hbehind]

theorem alloc_bufferAppend (b : Buffer) (data : Bytes) :
    (bufferAppend b data).alloc = b.live ++ data ++ b.alloc.drop (b.length + data.length) :=
  overwrite_bufferResize b data fun _ => 0

theorem live_bufferAppend (b : Buffer) (data : Bytes) : (bufferAppend b data).live = b.live ++ data := by
  have hlen : (b.live ++ data).length = (bufferAppend b data).length := by
    rw [List.length_append, Buffer.length_live]
    rfl
  unfold Buffer.live
  rw [alloc_bufferAppend]
  exact List.take_left' hlen

theorem live_bufferRewind (b : Buffer) : (bufferRewind b).live = b.live := by
  have hfits := b.fits
  show (overwrite b.alloc 0 b.live).take b.length = b.live
  rw [overwrite_eq (by rw [Buffer.length_live]; omega), List.take_zero, List.nil_append]
  exact List.take_left' (Buffer.length_live b)

theorem live_bufferResize (b : Buffer) (size : Nat) (fresh : Mem) : (bufferResize b size fresh).live = b.live := by
  have hfits := b.fits
  have hlen : (bufferRewind b).alloc.length = b.alloc.length := length_overwrite ..
  rw [← live_bufferRewind b]
  show ((bufferRewind b).alloc ++ _).take b.length = (bufferRewind b).alloc.take b.length
  exact List.take_append_of_le_length (by omega)

@[simp] theorem live_bufferReset (b : Buffer) : (bufferReset b).live = [] := List.take_zero ..

theorem live_bufferCut (b : Buffer) {len : Nat} (h : len ≤ b.length) : (bufferCut b len).live = b.live.drop len := by
  unfold Buffer.live bufferCut
  simp only [Nat.min_eq_left h]
  rw [List.drop_take, List.drop_drop]

theorem bufferIsEmpty_iff (b : Buffer) : bufferIsEmpty b = true ↔ b.live = [] := by
  rw [← List.length_eq_zero_iff, Buffer.length_live]
  simp [bufferIsEmpty]

theorem live_bufferOverwrite (b : Buffer) {offset : Nat} {bytes : Bytes} (h : offset + bytes.length ≤ b.length) :
    (bufferOverwrite b offset bytes).live = b.live.take offset ++ bytes ++ b.live.drop (offset + bytes.length) := by
  have hfits := b.fits
  rw [← overwrite_eq (by rw [Buffer.length_live]; exact h)]
  refine List.ext_getElem (by simp [bufferOverwrite]) fun i h1 h2 => ?_
  rw [length_overwrite, Buffer.length_live] at h2
  have h2' : i < b.live.length := by rw [Buffer.length_live]; exact h2
  rw [getElem_overwrite h2' _]
  have hi : b.data + i < b.alloc.length := by omega
  have hi' : b.data + i < (overwrite b.alloc (b.data + offset) bytes).length := by rw [length_overwrite]; exact hi
  have hlive : b.live[i] = b.alloc[b.data + i] := by
    simp [Buffer.live]
  have hleft : (bufferOverwrite b offset bytes).live[i] = (overwrite b.alloc (b.data + offset) bytes)[b.data + i] := by
    simp [Buffer.live, bufferOverwrite]
  rw [hleft, getElem_overwrite hi hi', hlive]
  have hsub : b.data + i - (b.data + offset) = i - offset := by omega
  rw [hsub]
  split <;> split <;> first | rfl | omega

end CMx
