/-
The remaining length of a frame, whatever its bytes are: what `mqtt_decode_length` answers for any
string, and that no string that is shorter stands for the same value as what `mqtt_encode_length` writes.
-/
import CMx.Mqtt.Packet

namespace CMx.Mqtt

/-! ## Length bytes -/

/-- A byte with the continuation bit. -/
def Continues (c : UInt8) : Prop := c &&& 128 ≠ 0

instance (c : UInt8) : Decidable (Continues c) := inferInstanceAs (Decidable (_ ≠ _))

/-- What a byte adds to the value. -/
def lengthDigit (c : UInt8) : Nat := (c &&& 127).toNat

/-- The value of some length bytes, to the base 128. -/
def lengthValue (bytes : Bytes) : Nat := Nat.ofDigits 128 (bytes.map lengthDigit)

theorem lengthDigit_eq (c : UInt8) : lengthDigit c = c.toNat % 128 := by
  rw [lengthDigit, UInt8.toNat_and]
  exact Nat.and_two_pow_sub_one_eq_mod _ 7

theorem lengthDigit_lt (c : UInt8) : lengthDigit c < 128 := by
  rw [lengthDigit_eq]
  exact Nat.mod_lt _ (by decide)

theorem continues_iff (c : UInt8) : Continues c ↔ 128 ≤ c.toNat := by
  have hall : ∀ n : Fin 256, Continues (UInt8.ofNat n) ↔ 128 ≤ (UInt8.ofNat n).toNat := by decide +kernel
  have hc := hall ⟨c.toNat, c.toNat_lt⟩
  rwa [UInt8.ofNat_toNat] at hc

/-- A byte is its digit and its continuation bit. -/
theorem byte_ext {c d : UInt8} (hdigit : lengthDigit c = lengthDigit d) (hbit : Continues c ↔ Continues d) : c = d := by
  have hc := c.toNat_lt
  have hd := d.toNat_lt
  rw [lengthDigit_eq, lengthDigit_eq] at hdigit
  rw [continues_iff, continues_iff] at hbit
  rw [← UInt8.toNat_inj]
  omega

theorem lengthValue_lt (bytes : Bytes) : lengthValue bytes < 128 ^ bytes.length := by
  have h := @Nat.ofDigits_lt_base_pow_length' 126 (bytes.map lengthDigit) fun d hd => by
    obtain ⟨c, -, rfl⟩ := List.mem_map.1 hd
    exact lengthDigit_lt c
  rwa [List.length_map] at h

/-- Strings of one length with one value have the same digits. -/
theorem lengthDigits_inj {str str' : Bytes} (hlen : str.length = str'.length) (h : lengthValue str = lengthValue str') :
    str.map lengthDigit = str'.map lengthDigit := by
  have hlt : ∀ bytes : Bytes, ∀ d ∈ bytes.map lengthDigit, d < 128 := fun bytes d hd => by
    obtain ⟨c, -, rfl⟩ := List.mem_map.1 hd
    exact lengthDigit_lt c
  exact Nat.ofDigits_inj_of_len_eq (by decide) (by simpa using hlen) (hlt str) (hlt str') h

/-- Of some bytes all continue, or there is a first that does not. -/
theorem continues_split (buffer : Bytes) : (∀ c ∈ buffer, Continues c) ∨
    ∃ front last rest, buffer = front ++ last :: rest ∧ (∀ c ∈ front, Continues c) ∧ ¬ Continues last := by
  induction buffer with
  | nil => exact Or.inl fun c hc => by cases hc
  | cons c buffer ih =>
    by_cases hc : Continues c
    · rcases ih with hall | ⟨front, last, rest, rfl, hfront, hlast⟩
      · exact Or.inl (List.forall_mem_cons.2 ⟨hc, hall⟩)
      · exact Or.inr ⟨c :: front, last, rest, rfl, List.forall_mem_cons.2 ⟨hc, hfront⟩, hlast⟩
    · exact Or.inr ⟨[], c, buffer, rfl, List.forall_mem_nil _, hc⟩

/-! ## Decoding -/

theorem decodeLoop_continues {c : UInt8} (h : Continues c) {idx : Nat} (hidx : idx < mqttMaxLengthSize) (buffer : Bytes)
    (multiplier val : Nat) :
    mqttDecodeLengthLoop (c :: buffer) idx multiplier val =
      mqttDecodeLengthLoop buffer (idx + 1) (multiplier * 128) (val + lengthDigit c * multiplier) := by
  rw [mqttDecodeLengthLoop, if_neg (not_le.2 hidx)]
  exact if_pos h

theorem decodeLoop_stops {c : UInt8} (h : ¬ Continues c) {idx : Nat} (hidx : idx < mqttMaxLengthSize) (buffer : Bytes)
    (multiplier val : Nat) :
    mqttDecodeLengthLoop (c :: buffer) idx multiplier val = .done (idx + 1) (val + lengthDigit c * multiplier) := by
  rw [mqttDecodeLengthLoop, if_neg (not_le.2 hidx)]
  exact if_neg h

/-- The loop runs out of bytes, -/
theorem decodeLoop_more : ∀ {buffer : Bytes} {idx : Nat} (multiplier val : Nat), (∀ c ∈ buffer, Continues c) →
    idx + buffer.length ≤ mqttMaxLengthSize → mqttDecodeLengthLoop buffer idx multiplier val = .more
  | [], _, _, _, _, _ => rfl
  | c :: buffer, idx, multiplier, val, hall, h => by
    rw [List.forall_mem_cons] at hall
    rw [List.length_cons] at h
    rw [decodeLoop_continues hall.1 (by omega)]
    exact decodeLoop_more _ _ hall.2 (by omega)

/-- or out of length bytes, -/
theorem decodeLoop_tooLong : ∀ {front : Bytes} {idx : Nat} (multiplier val : Nat) (c : UInt8) (rest : Bytes),
    (∀ c ∈ front, Continues c) → idx + front.length = mqttMaxLengthSize →
      mqttDecodeLengthLoop (front ++ c :: rest) idx multiplier val = .error
  | [], idx, multiplier, val, c, rest, _, h => by
    have hidx : idx ≥ mqttMaxLengthSize := h.ge
    rw [List.nil_append, mqttDecodeLengthLoop, if_pos hidx]
  | d :: front, idx, multiplier, val, c, rest, hall, h => by
    rw [List.forall_mem_cons] at hall
    rw [List.length_cons] at h
    rw [List.cons_append, decodeLoop_continues hall.1 (by omega)]
    exact decodeLoop_tooLong _ _ c rest hall.2 (by omega)

/-- or it comes to the last of them. -/
theorem decodeLoop_last : ∀ {front : Bytes} {last : UInt8} {idx : Nat} (multiplier val : Nat) (rest : Bytes),
    (∀ c ∈ front, Continues c) → ¬ Continues last → idx + front.length < mqttMaxLengthSize →
      mqttDecodeLengthLoop (front ++ last :: rest) idx multiplier val =
        .done (idx + front.length + 1) (val + lengthValue (front ++ [last]) * multiplier)
  | [], last, idx, multiplier, val, rest, _, hlast, h => by
    have hidx : idx < mqttMaxLengthSize := h
    have hval : lengthValue [last] = lengthDigit last := by simp [lengthValue]
    rw [List.nil_append, decodeLoop_stops hlast hidx, List.nil_append, hval]
    rfl
  | c :: front, last, idx, multiplier, val, rest, hall, hlast, h => by
    rw [List.forall_mem_cons] at hall
    rw [List.length_cons] at h
    have ih := decodeLoop_last (multiplier * 128) (val + lengthDigit c * multiplier) rest hall.2 hlast
      (show idx + 1 + front.length < mqttMaxLengthSize by omega)
    have hval : lengthValue (c :: (front ++ [last])) = lengthDigit c + 128 * lengthValue (front ++ [last]) := rfl
    rw [List.cons_append, decodeLoop_continues hall.1 (by omega), ih, List.length_cons, List.cons_append, hval]
    congr 1
    · omega
    · ring

/-- The decoding loop with products of the type `int`; there is no result where one is too large. -/
def mqttDecodeLengthIntLoop : Bytes → (idx multiplier val : Nat) → Option DecodedLength
  | [], _, _, _ => some .more
  | c :: buffer, idx, multiplier, val =>
    if idx ≥ mqttMaxLengthSize then some .error
    else if (c &&& 127).toNat * multiplier ≥ 2 ^ 31 ∨ multiplier * 128 ≥ 2 ^ 31 then none
    else
      let val := val + (c &&& 127).toNat * multiplier
      if c &&& 128 ≠ 0 then mqttDecodeLengthIntLoop buffer (idx + 1) (multiplier * 128) val
      else some (.done (idx + 1) val)

theorem decodeIntLoop_eq : ∀ (buffer : Bytes) (idx val : Nat),
    mqttDecodeLengthIntLoop buffer idx (128 ^ idx) val = some (mqttDecodeLengthLoop buffer idx (128 ^ idx) val)
  | [], _, _ => rfl
  | c :: buffer, idx, val => by
    rw [mqttDecodeLengthIntLoop, mqttDecodeLengthLoop]
    by_cases hidx : idx ≥ mqttMaxLengthSize
    · rw [if_pos hidx, if_pos hidx]
    have hpow : 128 ^ idx ≤ 128 ^ 3 := Nat.pow_le_pow_right (by decide) (by unfold mqttMaxLengthSize at hidx; omega)
    have hdigit : (c &&& 127).toNat < 128 := lengthDigit_lt c
    have hsmall : ¬ ((c &&& 127).toNat * 128 ^ idx ≥ 2 ^ 31 ∨ 128 ^ idx * 128 ≥ 2 ^ 31) := by
      have hproduct : (c &&& 127).toNat * 128 ^ idx ≤ 127 * 128 ^ 3 := Nat.mul_le_mul (by omega) hpow
      omega
    rw [if_neg hidx, if_neg hidx, if_neg hsmall, ← Nat.pow_succ]
    simp only
    split
    · exact decodeIntLoop_eq buffer (idx + 1) _
    · rfl

/-- What the decoder answers for a string. -/
structure DecodesExactly (buffer : Bytes) : Prop where
  more : mqttDecodeLength buffer = .more ↔ buffer.length < 5 ∧ ∀ c ∈ buffer, Continues c
  error : mqttDecodeLength buffer = .error ↔ 5 ≤ buffer.length ∧ ∀ c ∈ buffer.take 4, Continues c
  done : ∀ n value, mqttDecodeLength buffer = .done n value ↔
    ∃ front last rest, buffer = front ++ last :: rest ∧ front.length < 4 ∧ (∀ c ∈ front, Continues c) ∧
      ¬ Continues last ∧ n = front.length + 1 ∧ value = lengthValue (front ++ [last])
  noOverflow : mqttDecodeLengthIntLoop buffer 0 1 0 = some (mqttDecodeLength buffer)

theorem decode_tooLong {buffer : Bytes} (hlen : 5 ≤ buffer.length) (hall : ∀ c ∈ buffer.take 4, Continues c) :
    mqttDecodeLength buffer = .error := by
  have hfour : (buffer.take 4).length = 4 := by rw [List.length_take]; omega
  obtain ⟨c, rest, hrest⟩ : ∃ c rest, buffer.drop 4 = c :: rest := by
    refine List.exists_cons_of_length_pos ?_
    rw [List.length_drop]
    omega
  rw [← List.take_append_drop 4 buffer, hrest]
  exact decodeLoop_tooLong 1 0 c rest hall (by rw [hfour]; rfl)

theorem decode_last {front : Bytes} {last : UInt8} (hlen : front.length < 4) (hfront : ∀ c ∈ front, Continues c)
    (hlast : ¬ Continues last) (rest : Bytes) :
    mqttDecodeLength (front ++ last :: rest) = .done (front.length + 1) (lengthValue (front ++ [last])) := by
  have hloop := decodeLoop_last 1 0 rest hfront hlast (show 0 + front.length < mqttMaxLengthSize by
    unfold mqttMaxLengthSize
    omega)
  rwa [Nat.zero_add, Nat.zero_add, Nat.mul_one] at hloop

/-- There are three kinds of strings. -/
theorem decode_cases (buffer : Bytes) :
    (buffer.length < 5 ∧ ∀ c ∈ buffer, Continues c) ∨ (5 ≤ buffer.length ∧ ∀ c ∈ buffer.take 4, Continues c) ∨
      ∃ front last rest, buffer = front ++ last :: rest ∧ front.length < 4 ∧ (∀ c ∈ front, Continues c) ∧
        ¬ Continues last := by
  rcases continues_split buffer with hall | ⟨front, last, rest, rfl, hfront, hlast⟩
  · rcases Nat.lt_or_ge buffer.length 5 with hshort | hlong
    · exact Or.inl ⟨hshort, hall⟩
    · exact Or.inr (Or.inl ⟨hlong, fun c hc => hall c (List.mem_of_mem_take hc)⟩)
  · rcases Nat.lt_or_ge front.length 4 with hshort | hlong
    · exact Or.inr (Or.inr ⟨front, last, rest, rfl, hshort, hfront, hlast⟩)
    · refine Or.inr (Or.inl ⟨?_, fun c hc => ?_⟩)
      · rw [List.length_append, List.length_cons]
        omega
      · rw [List.take_append_of_le_length hlong] at hc
        exact hfront c (List.mem_of_mem_take hc)

theorem decodesExactly (buffer : Bytes) : DecodesExactly buffer := by
  have hmore : buffer.length < 5 ∧ (∀ c ∈ buffer, Continues c) → mqttDecodeLength buffer = .more := by
    rintro ⟨hlen, hall⟩
    exact decodeLoop_more 1 0 hall (by unfold mqttMaxLengthSize; omega)
  have herror : 5 ≤ buffer.length ∧ (∀ c ∈ buffer.take 4, Continues c) → mqttDecodeLength buffer = .error :=
    fun h => decode_tooLong h.1 h.2
  refine ⟨⟨fun h => ?_, hmore⟩, ⟨fun h => ?_, herror⟩, fun n value => ⟨fun h => ?_, ?_⟩, decodeIntLoop_eq buffer 0 0⟩
  · rcases decode_cases buffer with h' | h' | ⟨front, last, rest, rfl, hlen, hfront, hlast⟩
    · exact h'
    · rw [herror h'] at h
      cases h
    · rw [decode_last hlen hfront hlast] at h
      cases h
  · rcases decode_cases buffer with h' | h' | ⟨front, last, rest, rfl, hlen, hfront, hlast⟩
    · rw [hmore h'] at h
      cases h
    · exact h'
    · rw [decode_last hlen hfront hlast] at h
      cases h
  · rcases decode_cases buffer with h' | h' | ⟨front, last, rest, rfl, hlen, hfront, hlast⟩
    · rw [hmore h'] at h
      cases h
    · rw [herror h'] at h
      cases h
    · rw [decode_last hlen hfront hlast] at h
      cases h
      exact ⟨front, last, rest, rfl, hlen, hfront, hlast, rfl, rfl⟩
  · rintro ⟨front, last, rest, rfl, hlen, hfront, hlast, rfl, rfl⟩
    exact decode_last hlen hfront hlast rest

/-! ## Encoding -/

/-- The encoder writes a string that decodes to the value, and no other string of the same length
or a shorter one does. -/
structure EncodesShortest (value : Nat) : Prop where
  decodes : mqttDecodeLength (mqttEncodeLength value) = .done (mqttEncodeLength value).length value
  shortest : ∀ str : Bytes, mqttDecodeLength str = .done str.length value → str ≠ mqttEncodeLength value →
    (mqttEncodeLength value).length < str.length

/-- A string that is decoded as a whole. -/
theorem decode_whole {str : Bytes} {value : Nat} (h : mqttDecodeLength str = .done str.length value) :
    ∃ front last, str = front ++ [last] ∧ (∀ c ∈ front, Continues c) ∧ ¬ Continues last ∧ value = lengthValue str := by
  obtain ⟨front, last, rest, rfl, -, hfront, hlast, hlen, hvalue⟩ := ((decodesExactly str).done _ _).1 h
  obtain rfl : rest = [] := by
    rw [List.length_append, List.length_cons] at hlen
    exact List.eq_nil_of_length_eq_zero (by omega)
  exact ⟨front, last, rfl, hfront, hlast, hvalue⟩

/-- Two strings of one length with one value are the same. -/
theorem decode_inj {str str' : Bytes} {value : Nat} (h : mqttDecodeLength str = .done str.length value)
    (h' : mqttDecodeLength str' = .done str'.length value) (hlen : str.length = str'.length) : str = str' := by
  obtain ⟨front, last, hstr, hfront, hlast, hvalue⟩ := decode_whole h
  obtain ⟨front', last', hstr', hfront', hlast', hvalue'⟩ := decode_whole h'
  have hdigits := lengthDigits_inj hlen (hvalue.symm.trans hvalue')
  have hfronts : front.length = front'.length := by
    rw [hstr, hstr', List.length_append, List.length_append] at hlen
    exact Nat.add_right_cancel hlen
  rw [hstr, hstr', List.map_append, List.map_append] at hdigits
  obtain ⟨hmap, hend⟩ := List.append_inj hdigits (by rw [List.length_map, List.length_map, hfronts])
  have hends : last = last' := byte_ext (List.cons.inj hend).1 (iff_of_false hlast hlast')
  have hsame : front = front' := by
    refine List.ext_getElem hfronts fun i hi hi' => byte_ext ?_ ?_
    · have hget := List.getElem_of_eq hmap (show i < (front.map lengthDigit).length by rwa [List.length_map])
      rwa [List.getElem_map, List.getElem_map] at hget
    · exact iff_of_true (hfront _ (List.getElem_mem hi)) (hfront' _ (List.getElem_mem hi'))
  rw [hstr, hstr', hsame, hends]

theorem encodesShortest {value : Nat} (h : value < 2 ^ 28) : EncodesShortest value := by
  have hdecodes : mqttDecodeLength (mqttEncodeLength value) = .done (mqttEncodeLength value).length value := by
    have hrest := decode_encode (show value ≤ mqttMaxBodyLength by unfold mqttMaxBodyLength; omega) []
    rwa [List.append_nil] at hrest
  refine ⟨hdecodes, fun str hstr hne => ?_⟩
  obtain ⟨front, last, hends, -, -, hvalue⟩ := decode_whole hstr
  have hlen : str.length = front.length + 1 := by rw [hends, List.length_append, List.length_singleton]
  have hle : (mqttEncodeLength value).length ≤ front.length + 1 :=
    length_encodeLoop_le front.length 9 value (by rw [hvalue, ← hlen]; exact lengthValue_lt str)
  rcases Nat.lt_or_ge (mqttEncodeLength value).length str.length with hlt | hge
  · exact hlt
  · exact absurd (decode_inj hstr hdecodes (by omega)) hne

/-- Every string is decoded as it is to be, and every value of up to 28 bits is encoded by the shortest string. -/
theorem lengthBytes_exactly (buffer : Bytes) {value : Nat} (h : value < 2 ^ 28) :
    DecodesExactly buffer ∧ EncodesShortest value :=
  ⟨decodesExactly buffer, encodesShortest h⟩

/-- A value of two bytes, and a string of two for a value of one byte. -/
theorem lengthBytes_exactly_two : DecodesExactly [0x81, 0] ∧ EncodesShortest 200 :=
  lengthBytes_exactly [0x81, 0] (by decide)

end CMx.Mqtt
