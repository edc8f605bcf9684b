/-
MQTT control packets: the packet types, flags and fixed header of `mqtt.h`, and the remaining
length and frame functions of `mqtt.c`. A buffer is the list of its bytes, and a formatter returns
the bytes it writes.
-/
import Mathlib.Tactic

namespace CMx.Mqtt

abbrev Bytes := List UInt8

/-! ## Constants -/

def mqttMinFixedHeaderSize : Nat := 2
def mqttMaxLengthSize : Nat := 4
def mqttMaxFixedHeaderSize : Nat := 1 + mqttMaxLengthSize

inductive MqttPacketType where
  | forbidden | connect | connack | publish | puback | pubrec | pubrel | pubcomp
  | subscribe | suback | unsubscribe | unsuback | pingreq | pingresp | disconnect
  deriving DecidableEq, Repr

namespace MqttPacketType

/-- The value of the enumerator. -/
def toByte : MqttPacketType → UInt8
  | forbidden => 0 | connect => 1 | connack => 2 | publish => 3 | puback => 4 | pubrec => 5
  | pubrel => 6 | pubcomp => 7 | subscribe => 8 | suback => 9 | unsubscribe => 10
  | unsuback => 11 | pingreq => 12 | pingresp => 13 | disconnect => 14

/-- The enumerator with a value, if there is one. -/
def ofByte (b : UInt8) : Option MqttPacketType :=
  match b.toNat with
  | 0 => some forbidden | 1 => some connect | 2 => some connack | 3 => some publish
  | 4 => some puback | 5 => some pubrec | 6 => some pubrel | 7 => some pubcomp
  | 8 => some subscribe | 9 => some suback | 10 => some unsubscribe | 11 => some unsuback
  | 12 => some pingreq | 13 => some pingresp | 14 => some disconnect
  | _ => none

@[simp] theorem ofByte_toByte (t : MqttPacketType) : ofByte t.toByte = some t := by cases t <;> rfl

theorem toByte_lt (t : MqttPacketType) : t.toByte < 16 := by cases t <;> decide

end MqttPacketType

def mqttRetainFlag : UInt8 := 0x1
def mqttDupFlag : UInt8 := 0x8
def mqttQosPos : UInt8 := 1
def mqttQosMsk : UInt8 := 0x3

def mqttQosToFlags (qos : UInt8) : UInt8 := (qos &&& mqttQosMsk) <<< mqttQosPos
def mqttQosFromFlags (flags : UInt8) : UInt8 := (flags >>> mqttQosPos) &&& mqttQosMsk

def mqttQos0 : UInt8 := 0
def mqttQos1 : UInt8 := 1
def mqttQos2 : UInt8 := 2

def mqttRequestType : MqttPacketType → MqttPacketType
  | .suback => .subscribe
  | .unsuback => .unsubscribe
  | .puback | .pubrec => .publish
  | .pubcomp => .pubrel
  | _ => .forbidden

def mqttResponseType (reqType : MqttPacketType) (qos : UInt8) : MqttPacketType :=
  match reqType with
  | .subscribe => .suback
  | .unsubscribe => .unsuback
  | .publish => if qos = mqttQos1 then .puback else if qos = mqttQos2 then .pubrec else .forbidden
  | .pubrel => .pubcomp
  | _ => .forbidden

structure MqttFixedHeader where
  type : UInt8
  flags : UInt8
  bodyLength : Nat
  deriving DecidableEq, Repr

/-! ## The remaining length -/

/-- The return value of `mqtt_decode_length`: 0 (more data needed), -1 (error), or the number of
length bytes with the value stored. -/
inductive DecodedLength where
  | more
  | error
  | done (idx value : Nat)
  deriving DecidableEq, Repr

/-- The loop of `mqtt_decode_length`, with the bytes from `idx` on. -/
def mqttDecodeLengthLoop : Bytes → (idx multiplier val : Nat) → DecodedLength
  | [], _, _, _ => .more
  | c :: buffer, idx, multiplier, val =>
    if idx ≥ mqttMaxLengthSize then .error
    else
      let val := val + (c &&& 127).toNat * multiplier
      if c &&& 128 ≠ 0 then mqttDecodeLengthLoop buffer (idx + 1) (multiplier * 128) val
      else .done (idx + 1) val

def mqttDecodeLength (buffer : Bytes) : DecodedLength := mqttDecodeLengthLoop buffer 0 1 0

/-- The loop of `mqtt_encode_length`, at most `rounds` times. -/
def mqttEncodeLengthLoop : (rounds value : Nat) → Bytes
  | 0, _ => []
  | rounds + 1, value =>
    let d := UInt8.ofNat (value % 128)
    let value := value / 128
    if value > 0 then (d ||| 0x80) :: mqttEncodeLengthLoop rounds value else [d]

/-- Ten rounds exhaust a 64-bit `size_t`. -/
def mqttEncodeLength (value : Nat) : Bytes := mqttEncodeLengthLoop 10 value

/-! ## Frames -/

/-- The return value of `mqtt_parse_frame` with what it stores: 0 and the length hint, -1, or the
body offset with the header and the frame length. -/
inductive ParsedFrame where
  | more (frameLength : Nat)
  | error
  | frame (bodyOffset : Nat) (header : MqttFixedHeader) (frameLength : Nat)
  deriving DecidableEq, Repr

def mqttParseFrame (data : Bytes) : ParsedFrame :=
  match data with
  | [] | [_] => .more mqttMinFixedHeaderSize
  | first :: rest =>
    let type := (first >>> 4) &&& 0xF
    let flags := first &&& 0xF
    match mqttDecodeLength rest with
    | .error => .error
    | .more => .more (data.length + 1)
    | .done lengthBytes bodyLength =>
      let bodyOffset := 1 + lengthBytes
      let expectedFrameLength := bodyOffset + bodyLength
      if data.length < expectedFrameLength then .more expectedFrameLength
      else .frame bodyOffset ⟨type, flags, bodyLength⟩ expectedFrameLength

def mqttFormatFixedHeader (type flags : UInt8) (bodyLength : Nat) : Bytes :=
  ((type <<< 4) ||| flags) :: mqttEncodeLength bodyLength

def mqttFormatFrame (type flags : UInt8) (bodyData : Bytes) : Bytes :=
  mqttFormatFixedHeader type flags bodyData.length ++ bodyData

/-- A CONNACK with two body bytes. -/
example : mqttFormatFrame 2 0 [0, 0] = [0x20, 2, 0, 0] := by decide

/-! ## The length field: decoding what was encoded -/

theorem mqttEncodeLengthLoop_succ (rounds value : Nat) :
    mqttEncodeLengthLoop (rounds + 1) value =
      if value / 128 > 0 then (UInt8.ofNat (value % 128) ||| 0x80) :: mqttEncodeLengthLoop rounds (value / 128)
      else [UInt8.ofNat (value % 128)] := rfl

/-- A digit has its continuation bit clear, and the marked digit has it set. -/
theorem digit_bits (d : Nat) (h : d < 128) :
    (UInt8.ofNat d &&& 128 = 0) ∧ (UInt8.ofNat d &&& 127).toNat = d ∧
      ((UInt8.ofNat d ||| 0x80) &&& 128 ≠ 0) ∧ ((UInt8.ofNat d ||| 0x80) &&& 127).toNat = d := by
  revert d; decide

/-- A value of at most `k` digits, read back behind `idx` length bytes. -/
theorem decodeLoop_encodeLoop : ∀ (k rounds value idx multiplier val : Nat) (rest : Bytes),
    k ≤ rounds → value < 128 ^ (k + 1) → idx + k < mqttMaxLengthSize →
    mqttDecodeLengthLoop (mqttEncodeLengthLoop (rounds + 1) value ++ rest) idx multiplier val =
      .done (idx + (mqttEncodeLengthLoop (rounds + 1) value).length) (val + value * multiplier)
  | k, rounds, value, idx, multiplier, val, rest, hk, hv, hidx => by
    have hi : ¬ idx ≥ mqttMaxLengthSize := by omega
    obtain ⟨b1, b2, b3, b4⟩ := digit_bits (value % 128) (Nat.mod_lt _ (by decide))
    rw [mqttEncodeLengthLoop_succ]
    split
    · rename_i hmore
      -- a value with a second digit
      obtain ⟨k, rfl⟩ : ∃ k', k = k' + 1 := by
        refine ⟨k - 1, ?_⟩
        have : k ≠ 0 := by rintro rfl; omega
        omega
      obtain ⟨rounds, rfl⟩ : ∃ r, rounds = r + 1 := ⟨rounds - 1, by omega⟩
      have hdiv : value / 128 < 128 ^ (k + 1) := by
        rw [Nat.div_lt_iff_lt_mul (by decide)]
        calc value < 128 ^ (k + 1 + 1) := hv
          _ = 128 ^ (k + 1) * 128 := by rw [Nat.pow_succ]
      have ih := decodeLoop_encodeLoop k rounds (value / 128) (idx + 1) (multiplier * 128)
        (val + value % 128 * multiplier) rest (by omega) hdiv (by omega)
      simp only [List.cons_append, mqttDecodeLengthLoop, hi, if_false, b3, ne_eq, not_false_eq_true, if_true, b4]
      rw [ih]
      have hval : value % 128 * multiplier + value / 128 * (multiplier * 128) = value * multiplier := by
        calc value % 128 * multiplier + value / 128 * (multiplier * 128)
            = (128 * (value / 128) + value % 128) * multiplier := by ring
          _ = value * multiplier := by rw [Nat.div_add_mod]
      simp only [List.length_cons, DecodedLength.done.injEq]
      omega
    · have hsmall : value % 128 = value := Nat.mod_eq_of_lt (by omega)
      rw [hsmall] at b1 b2 ⊢
      simp [mqttDecodeLengthLoop, hi, b1, b2]

/-- The largest remaining length. -/
def mqttMaxBodyLength : Nat := 268435455

theorem decode_encode {value : Nat} (h : value ≤ mqttMaxBodyLength) (rest : Bytes) :
    mqttDecodeLength (mqttEncodeLength value ++ rest) = .done (mqttEncodeLength value).length value := by
  unfold mqttDecodeLength mqttEncodeLength
  rw [decodeLoop_encodeLoop 3 9 value 0 1 0 rest (by omega) (by unfold mqttMaxBodyLength at h; omega) (by decide)]
  simp

/-- A length of five bytes or more is an error for the decoder. -/
theorem decodeLoop_long : ∀ (k rounds value idx multiplier val : Nat) (rest : Bytes),
    k ≤ rounds → 128 ^ k ≤ value → idx + k = mqttMaxLengthSize →
    mqttDecodeLengthLoop (mqttEncodeLengthLoop (rounds + 1) value ++ rest) idx multiplier val = .error
  | 0, rounds, value, idx, multiplier, val, rest, _, _, hidx => by
    have hi : idx ≥ mqttMaxLengthSize := hidx.ge
    rw [mqttEncodeLengthLoop_succ]
    split
    · rw [List.cons_append, mqttDecodeLengthLoop, if_pos hi]
    · rw [List.cons_append, mqttDecodeLengthLoop, if_pos hi]
  | k + 1, rounds, value, idx, multiplier, val, rest, hk, hv, hidx => by
    obtain ⟨rounds, rfl⟩ : ∃ r, rounds = r + 1 := ⟨rounds - 1, by omega⟩
    obtain ⟨-, -, hmarked, -⟩ := digit_bits (value % 128) (Nat.mod_lt _ (by decide))
    have hdiv : 128 ^ k ≤ value / 128 := by
      rw [Nat.le_div_iff_mul_le (by decide), ← Nat.pow_succ]
      exact hv
    have hmore : value / 128 > 0 := lt_of_lt_of_le (Nat.pow_pos (by decide)) hdiv
    rw [mqttEncodeLengthLoop_succ, if_pos hmore, List.cons_append, mqttDecodeLengthLoop, if_neg (by omega),
      if_pos hmarked]
    exact decodeLoop_long k rounds (value / 128) (idx + 1) _ _ rest (by omega) hdiv (by omega)

/-! ## The length field: what a verdict depends on -/

theorem decodeLoop_done : ∀ (buffer : Bytes) (idx multiplier val n v : Nat) (rest : Bytes),
    mqttDecodeLengthLoop buffer idx multiplier val = .done n v →
      idx < n ∧ n ≤ idx + buffer.length ∧
        mqttDecodeLengthLoop (buffer ++ rest) idx multiplier val = .done n v
  | [], idx, multiplier, val, n, v, rest, h => by cases h
  | c :: buffer, idx, multiplier, val, n, v, rest, h => by
    simp only [mqttDecodeLengthLoop] at h
    split at h
    · cases h
    · rename_i hi
      split at h
      · rename_i hc
        obtain ⟨h1, h2, h3⟩ := decodeLoop_done buffer _ _ _ n v rest h
        refine ⟨by omega, by simp only [List.length_cons]; omega, ?_⟩
        rw [List.cons_append, mqttDecodeLengthLoop, if_neg hi, if_pos hc]
        exact h3
      · rename_i hc
        cases h
        refine ⟨by omega, by simp only [List.length_cons]; omega, ?_⟩
        rw [List.cons_append, mqttDecodeLengthLoop, if_neg hi, if_neg hc]

theorem decodeLoop_error : ∀ (buffer : Bytes) (idx multiplier val : Nat) (rest : Bytes),
    mqttDecodeLengthLoop buffer idx multiplier val = .error →
      mqttDecodeLengthLoop (buffer ++ rest) idx multiplier val = .error
  | [], idx, multiplier, val, rest, h => by cases h
  | c :: buffer, idx, multiplier, val, rest, h => by
    simp only [mqttDecodeLengthLoop, List.cons_append] at h ⊢
    split at h
    · rename_i hi; rw [if_pos hi]
    · rename_i hi
      rw [if_neg hi]
      split at h
      · rename_i hc
        rw [if_pos hc]
        exact decodeLoop_error buffer _ _ _ rest h
      · cases h

/-! ## Frames: parsing what was formatted -/

/-- Two nibbles in a byte, and back. -/
theorem nibbles (type flags : UInt8) (ht : type < 16) (hf : flags < 16) :
    ((((type <<< 4) ||| flags) >>> 4) &&& 0xF) = type ∧ (((type <<< 4) ||| flags) &&& 0xF) = flags := by
  have key : ∀ t f : Fin 16,
      ((((UInt8.ofNat t <<< 4) ||| UInt8.ofNat f) >>> 4) &&& 0xF) = UInt8.ofNat t ∧
        (((UInt8.ofNat t <<< 4) ||| UInt8.ofNat f) &&& 0xF) = UInt8.ofNat f := by decide
  have := key ⟨type.toNat, by simpa [UInt8.lt_iff_toNat_lt] using ht⟩
    ⟨flags.toNat, by simpa [UInt8.lt_iff_toNat_lt] using hf⟩
  simpa using this

theorem mqttEncodeLength_pos (value : Nat) : 0 < (mqttEncodeLength value).length := by
  unfold mqttEncodeLength
  rw [mqttEncodeLengthLoop_succ]; split <;> simp

theorem length_encodeLoop_le : ∀ (k rounds value : Nat), value < 128 ^ (k + 1) →
    (mqttEncodeLengthLoop (rounds + 1) value).length ≤ k + 1
  | k, rounds, value, hv => by
    rw [mqttEncodeLengthLoop_succ]
    split
    · rename_i hmore
      have hk0 : k ≠ 0 := by
        rintro rfl
        omega
      obtain ⟨k, rfl⟩ := Nat.exists_eq_succ_of_ne_zero hk0
      have hdiv : value / 128 < 128 ^ (k + 1) := by
        rw [Nat.div_lt_iff_lt_mul (by decide), ← Nat.pow_succ]
        exact hv
      cases rounds with
      | zero => simp [mqttEncodeLengthLoop]
      | succ rounds =>
        have ih := length_encodeLoop_le k rounds (value / 128) hdiv
        rw [List.length_cons]
        omega
    · simp

theorem mqttFormatFixedHeader_fits (type flags : UInt8) {n : Nat} (h : n ≤ mqttMaxBodyLength) :
    (mqttFormatFixedHeader type flags n).length ≤ mqttMaxFixedHeaderSize := by
  have hlen : (mqttEncodeLengthLoop 10 n).length ≤ 4 := length_encodeLoop_le 3 9 n (by unfold mqttMaxBodyLength at h; omega)
  rw [mqttFormatFixedHeader, List.length_cons, mqttEncodeLength, mqttMaxFixedHeaderSize, mqttMaxLengthSize]
  omega

/-- The value of `mqtt_parse_frame` on at least two bytes. -/
theorem mqttParseFrame_cons {first : UInt8} {rest : Bytes} (h : rest ≠ []) :
    mqttParseFrame (first :: rest) =
      match mqttDecodeLength rest with
      | .error => .error
      | .more => .more (rest.length + 2)
      | .done n v =>
        if rest.length + 1 < 1 + n + v then .more (1 + n + v)
        else .frame (1 + n) ⟨(first >>> 4) &&& 0xF, first &&& 0xF, v⟩ (1 + n + v) := by
  cases rest with
  | nil => exact absurd rfl h
  | cons b rest =>
    simp only [mqttParseFrame, List.length_cons]

/-- A header that announces as many bytes as follow it: one frame. -/
theorem mqttParseFrame_header {type flags : UInt8} {n : Nat} (ht : type < 16) (hf : flags < 16)
    (hn : n ≤ mqttMaxBodyLength) (rest : Bytes) :
    mqttParseFrame (mqttFormatFixedHeader type flags n ++ rest) =
      if rest.length < n then .more ((mqttFormatFixedHeader type flags n).length + n)
      else .frame (mqttFormatFixedHeader type flags n).length ⟨type, flags, n⟩
        ((mqttFormatFixedHeader type flags n).length + n) := by
  obtain ⟨n1, n2⟩ := nibbles type flags ht hf
  have hpos := mqttEncodeLength_pos n
  have hne : mqttEncodeLength n ++ rest ≠ [] := by
    intro h; rw [List.append_eq_nil_iff] at h; rw [h.1] at hpos; cases hpos
  simp only [mqttFormatFixedHeader, List.cons_append]
  rw [mqttParseFrame_cons hne, decode_encode hn]
  simp only [List.length_append, List.length_cons, n1, n2]
  by_cases h : rest.length < n
  · rw [if_pos h, if_pos (by omega)]; congr 1; omega
  · rw [if_neg h, if_neg (by omega)]; congr 1 <;> omega

/-- A header that announces more than four length bytes can tell. -/
theorem mqttParseFrame_long {type flags : UInt8} {n : Nat} (hn : mqttMaxBodyLength < n) (rest : Bytes) :
    mqttParseFrame (mqttFormatFixedHeader type flags n ++ rest) = .error := by
  have hpos := mqttEncodeLength_pos n
  have hne : mqttEncodeLength n ++ rest ≠ [] := by
    intro h
    rw [List.append_eq_nil_iff] at h
    rw [h.1] at hpos
    cases hpos
  have hlong : mqttDecodeLength (mqttEncodeLength n ++ rest) = .error :=
    decodeLoop_long 4 9 n 0 1 0 rest (by decide) (by unfold mqttMaxBodyLength at hn; omega) rfl
  rw [mqttFormatFixedHeader, List.cons_append, mqttParseFrame_cons hne, hlong]

/-- One frame of a stream. -/
theorem mqttParseFrame_format {type flags : UInt8} {body : Bytes} (ht : type < 16) (hf : flags < 16)
    (hn : body.length ≤ mqttMaxBodyLength) (rest : Bytes) :
    mqttParseFrame (mqttFormatFrame type flags body ++ rest) =
      .frame (mqttFormatFixedHeader type flags body.length).length ⟨type, flags, body.length⟩
        (mqttFormatFrame type flags body).length := by
  unfold mqttFormatFrame
  rw [List.append_assoc, mqttParseFrame_header ht hf hn, if_neg (by simp), List.length_append]

/-! ## Frames: every cut -/

/-- A length field that is cut asks for more: its last byte, which is missing, is the only one
without a continuation bit. -/
theorem decodeLoop_cut : ∀ (pre : Bytes) (k rounds value idx multiplier val : Nat),
    k ≤ rounds → value < 128 ^ (k + 1) → idx + k < mqttMaxLengthSize →
    pre <+: mqttEncodeLengthLoop (rounds + 1) value → pre ≠ mqttEncodeLengthLoop (rounds + 1) value →
    mqttDecodeLengthLoop pre idx multiplier val = .more
  | [], _, _, _, _, _, _, _, _, _, _, _ => rfl
  | c :: pre, k, rounds, value, idx, multiplier, val, hk, hv, hidx, hpre, hne => by
    obtain ⟨-, -, hcontinues, -⟩ := digit_bits (value % 128) (Nat.mod_lt _ (by decide))
    rw [mqttEncodeLengthLoop_succ] at hpre hne
    split at hpre
    · rename_i hmore
      rw [if_pos hmore] at hne
      obtain ⟨rfl, hrest⟩ := List.cons_prefix_cons.1 hpre
      have hk0 : k ≠ 0 := by
        rintro rfl
        omega
      obtain ⟨k, rfl⟩ := Nat.exists_eq_succ_of_ne_zero hk0
      obtain ⟨rounds, rfl⟩ : ∃ r, rounds = r + 1 := ⟨rounds - 1, by omega⟩
      have hdiv : value / 128 < 128 ^ (k + 1) := by
        rw [Nat.div_lt_iff_lt_mul (by decide), ← Nat.pow_succ]
        exact hv
      rw [mqttDecodeLengthLoop, if_neg (by omega), if_pos hcontinues]
      exact decodeLoop_cut pre k rounds (value / 128) _ _ _ (by omega) hdiv (by omega) hrest fun he => hne (by rw [he])
    · rename_i hlast
      rw [if_neg hlast] at hne
      obtain ⟨rfl, hrest⟩ := List.cons_prefix_cons.1 hpre
      exact absurd (by rw [List.prefix_nil.1 hrest]) hne

theorem decode_cut {value : Nat} (h : value ≤ mqttMaxBodyLength) {pre : Bytes} (hpre : pre <+: mqttEncodeLength value)
    (hne : pre ≠ mqttEncodeLength value) : mqttDecodeLength pre = .more :=
  decodeLoop_cut pre 3 9 value 0 1 0 (by decide) (by unfold mqttMaxBodyLength at h; omega) (by decide) hpre hne

section Cut

variable {type flags : UInt8} {body : Bytes} (ht : type < 16) (hf : flags < 16) (hn : body.length ≤ mqttMaxBodyLength)
include ht hf hn

/-- A strict prefix of a frame is not taken for a frame, and its hint is between the two. -/
theorem mqttParseFrame_cut {pre : Bytes} (hpre : pre <+: mqttFormatFrame type flags body)
    (hne : pre ≠ mqttFormatFrame type flags body) :
    ∃ hint, mqttParseFrame pre = .more hint ∧ pre.length < hint ∧ hint ≤ (mqttFormatFrame type flags body).length := by
  have hpos := mqttEncodeLength_pos body.length
  have hlen : (mqttFormatFrame type flags body).length = (mqttEncodeLength body.length).length + 1 + body.length := by
    rw [mqttFormatFrame, List.length_append, mqttFormatFixedHeader, List.length_cons]
  have hlt : pre.length < (mqttFormatFrame type flags body).length :=
    lt_of_le_of_ne hpre.length_le fun he => hne (hpre.eq_of_length he)
  match pre with
  | [] => exact ⟨2, rfl, by decide, by omega⟩
  | [_] => exact ⟨2, rfl, Nat.one_lt_two, by omega⟩
  | c :: d :: pre =>
    obtain ⟨rfl, hrest⟩ := List.cons_prefix_cons.1 hpre
    rcases lt_or_ge (d :: pre).length (mqttEncodeLength body.length).length with hshort | hlong
    · -- the cut is in the length field
      have hfield : d :: pre <+: mqttEncodeLength body.length :=
        List.prefix_of_prefix_length_le hrest (List.prefix_append _ _) hshort.le
      have hmore := decode_cut hn hfield fun he => by
        rw [he] at hshort
        exact lt_irrefl _ hshort
      refine ⟨(d :: pre).length + 2, ?_, by simp, ?_⟩
      · rw [mqttParseFrame_cons (List.cons_ne_nil _ _), hmore]
      · omega
    · -- the cut is in the body
      obtain ⟨behind, hbehind⟩ := List.prefix_of_prefix_length_le (List.prefix_append _ _) hrest hlong
      have hheader := mqttParseFrame_header ht hf hn behind
      have hshort : behind.length < body.length := by
        rw [← hbehind, List.length_cons, List.length_append] at hlt
        omega
      rw [mqttFormatFixedHeader, List.cons_append, hbehind, if_pos hshort, List.length_cons] at hheader
      exact ⟨_, hheader, by omega, hlen.ge⟩

/-- A frame is parsed wherever the stream is cut. -/
theorem mqttParseFrame_everyCut :
    (∀ rest, ∃ bodyOffset, mqttParseFrame (mqttFormatFrame type flags body ++ rest) =
        .frame bodyOffset ⟨type, flags, body.length⟩ (mqttFormatFrame type flags body).length ∧
      ((mqttFormatFrame type flags body ++ rest).drop bodyOffset).take body.length = body) ∧
    ∀ pre, pre <+: mqttFormatFrame type flags body → pre ≠ mqttFormatFrame type flags body →
      ∃ hint, mqttParseFrame pre = .more hint ∧ pre.length < hint ∧ hint ≤ (mqttFormatFrame type flags body).length := by
  refine ⟨fun rest => ⟨_, mqttParseFrame_format ht hf hn rest, ?_⟩, fun pre hpre hne => mqttParseFrame_cut ht hf hn hpre hne⟩
  rw [mqttFormatFrame, List.append_assoc, List.drop_left, List.take_left]

end Cut

/-- A frame of the largest type and flags, whose length takes two bytes. -/
theorem mqttParseFrame_everyCut_long :
    let body : Bytes := List.replicate 200 7
    let frame := mqttFormatFrame 15 15 body
    frame.length = 203 ∧
      (∀ rest, ∃ bodyOffset, mqttParseFrame (frame ++ rest) = .frame bodyOffset ⟨15, 15, body.length⟩ frame.length ∧
        ((frame ++ rest).drop bodyOffset).take body.length = body) ∧
      ∀ pre, pre <+: frame → pre ≠ frame →
        ∃ hint, mqttParseFrame pre = .more hint ∧ pre.length < hint ∧ hint ≤ frame.length := by
  intro body frame
  refine ⟨by decide +kernel, ?_⟩
  exact mqttParseFrame_everyCut (by decide) (by decide) (by decide +kernel)

end CMx.Mqtt
