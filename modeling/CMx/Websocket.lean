/-
WebSocket frames and the accept key: `websocket.c`, with `base64_encode` of `base64.c`. The hash of
`sha1.c` is a parameter, a function to the twenty bytes of a SHA1 hash.
-/
import CMx.Numbers
import CMx.Http
import CMx.Lib.Framing

namespace CMx.Ws

open Mqtt (Bytes)
open Framing (Parser)

/-! ## Constants -/

def wsFinOpcodeIdx : Nat := 0
def wsMaskLenIdx : Nat := 1
def wsExtlenIdx : Nat := 2

def wsMaskSize : Nat := 4
def wsExtlen16Size : Nat := 2
def wsExtlen64Size : Nat := 8
def wsMinHeaderSize : Nat := 2
def wsMaxHeaderSize : Nat := wsMinHeaderSize + wsExtlen64Size + wsMaskSize

def wsExtlen16Mark : UInt8 := 126
def wsExtlen64Mark : UInt8 := 127

def wsFinFlag : UInt8 := 0x80
def wsMaskFlag : UInt8 := 0x80
def wsOpcodeMsk : UInt8 := 0x0F
def wsPayloadLenMsk : UInt8 := 0x7F

def wsOpcodeContinue : UInt8 := 0x0
def wsOpcodeText : UInt8 := 0x1
def wsOpcodeBinary : UInt8 := 0x2
def wsOpcodeClose : UInt8 := 0x8
def wsOpcodePing : UInt8 := 0x9
def wsOpcodePong : UInt8 := 0xA

def wsCloseProtocolError : UInt16 := 1002

/-- The numbers of a `size_t`. -/
def sizeRange : Nat := 2 ^ 64

/-! ## Masks -/

abbrev Mask := Vector UInt8 4

def wsApplyMask (data : Bytes) (mask : Mask) : Bytes := data.mapIdx fun i b => b ^^^ mask.toList.getD (i % wsMaskSize) 0

/-- The mask at an offset of a frame. -/
def maskAt (data : Bytes) (offset : Nat) : Mask := Vector.ofFn fun i => data.getD (offset + i) 0

/-! ## Frames -/

structure WsFrame where
  finFlag : Bool
  opcode : UInt8
  maskFlag : Bool
  payloadLength : Nat
  maskOffset : Nat
  payloadOffset : Nat
  deriving DecidableEq, Repr

/-- The result of `ws_parse_frame`, with the frame length that it stores in both cases. -/
inductive ParsedFrame where
  | more (frameLength : Nat)
  | frame (frame : WsFrame) (frameLength : Nat)
  deriving DecidableEq, Repr

def wsParseFrame (data : Bytes) : ParsedFrame :=
  if data.length < wsMinHeaderSize then .more wsMinHeaderSize
  else
    let finOpcode := data.getD wsFinOpcodeIdx 0
    let maskLen := data.getD wsMaskLenIdx 0
    let maskFlag := maskLen &&& wsMaskFlag = wsMaskFlag
    let maskSize := if maskFlag then wsMaskSize else 0
    let mark := maskLen &&& wsPayloadLenMsk
    let extlenSize :=
      if mark = wsExtlen16Mark then wsExtlen16Size
      else if mark = wsExtlen64Mark then wsExtlen64Size
      else 0
    let headerSize := wsMinHeaderSize + extlenSize + maskSize
    if data.length < headerSize then .more headerSize
    else
      let payloadLength :=
        if mark = wsExtlen16Mark ∨ mark = wsExtlen64Mark then bigEndian ((data.drop wsExtlenIdx).take extlenSize)
        else mark.toNat
      -- the sum is a `size_t`
      let frameLength := (headerSize + payloadLength) % sizeRange
      if data.length < frameLength then .more frameLength
      else
        .frame
          { finFlag := finOpcode &&& wsFinFlag = wsFinFlag
            opcode := finOpcode &&& wsOpcodeMsk
            maskFlag
            payloadLength
            maskOffset := wsMinHeaderSize + extlenSize
            payloadOffset := headerSize }
          frameLength

def wsFormatFrame (flags : UInt8) (mask : Option Mask) (data : Bytes) : Bytes :=
  let maskFlag := if mask.isSome then wsMaskFlag else 0
  let lengthBytes :=
    if data.length > 0xFFFF then (wsExtlen64Mark ||| maskFlag) :: toBigEndian wsExtlen64Size data.length
    else if data.length ≥ 126 then (wsExtlen16Mark ||| maskFlag) :: toBigEndian wsExtlen16Size data.length
    else [UInt8.ofNat data.length ||| maskFlag]
  match mask with
  | some mask => flags :: lengthBytes ++ mask.toList ++ wsApplyMask data mask
  | none => flags :: lengthBytes ++ data

/-! ## The accept key -/

def base64Table : Bytes := text "ABCDEFGHIJKLMNOPQRSTUVWXYZabcdefghijklmnopqrstuvwxyz0123456789+/"

/-- An entry of the table. -/
def base64Char (index : UInt8) : UInt8 := base64Table.getD index.toNat 0

/-- The loop of `base64_encode` and what it does with the bytes behind the last three. -/
def base64EncodeLoop : Bytes → Bytes
  | a :: b :: c :: rest =>
    base64Char (a >>> 2) :: base64Char (((a &&& 0x03) <<< 4) ||| (b >>> 4)) ::
      base64Char (((b &&& 0x0F) <<< 2) ||| (c >>> 6)) :: base64Char (c &&& 0x3F) :: base64EncodeLoop rest
  | [a, b] =>
    [base64Char (a >>> 2), base64Char (((a &&& 0x03) <<< 4) ||| (b >>> 4)), base64Char ((b &&& 0x0F) <<< 2), 0x3D]
  | [a] => [base64Char (a >>> 2), base64Char ((a &&& 0x03) <<< 4), 0x3D, 0x3D]
  | [] => []

/-- `base64_encode` without line feeds, into a buffer of `outLen` bytes: nothing where they do not
suffice by its estimate. -/
def base64Encode (src : Bytes) (outLen : Nat) : Bytes :=
  let olen := src.length * 4 / 3 + 4
  let olen := olen + olen / 72 + 1
  if olen > outLen then [] else base64EncodeLoop src

/-- The hash of `sha1.c`. -/
abbrev Sha1 := Bytes → Vector UInt8 20

def wsGuid : Bytes := text "258EAFA5-E914-47DA-95CA-C5AB0DC85B11"

/-- `ws_calculate_accept_key` into a buffer of `length` bytes. -/
def wsCalculateAcceptKey (sha1 : Sha1) (reqkey : Bytes) (length : Nat) : Option Bytes :=
  let encoded := base64Encode (sha1 (reqkey ++ wsGuid)).toList length
  if encoded = [] then none else some encoded

/-! ## Masks and numbers -/

@[simp] theorem length_wsApplyMask (data : Bytes) (mask : Mask) : (wsApplyMask data mask).length = data.length :=
  List.length_mapIdx ..

/-- Masking twice is not masking. -/
@[simp] theorem wsApplyMask_wsApplyMask (data : Bytes) (mask : Mask) : wsApplyMask (wsApplyMask data mask) mask = data := by
  refine List.ext_getElem (by simp) fun i h1 h2 => ?_
  simp only [wsApplyMask, List.getElem_mapIdx, UInt8.xor_assoc, UInt8.xor_self, UInt8.xor_zero]

/-- A mask is where it was put. -/
theorem maskAt_append (front behind : Bytes) (mask : Mask) :
    maskAt (front ++ (mask.toList ++ behind)) front.length = mask := by
  ext i hi
  simp [maskAt, List.getElem?_append_right, List.getElem?_append_left]

/-! ## What is recognised -/

/-- The size of the extended payload length behind a length mark. -/
def extlenSize (mark : UInt8) : Nat :=
  if mark = wsExtlen16Mark then wsExtlen16Size else if mark = wsExtlen64Mark then wsExtlen64Size else 0

/-- The payload length with a length mark and the bytes behind it. -/
def payloadLength (mark : UInt8) (behind : Bytes) : Nat :=
  if mark = wsExtlen16Mark ∨ mark = wsExtlen64Mark then bigEndian (behind.take (extlenSize mark)) else mark.toNat

/-- The header at the front of the data, which has to be complete. -/
def headerOf (first second : UInt8) (behind : Bytes) : WsFrame :=
  let maskFlag := second &&& wsMaskFlag = wsMaskFlag
  let mark := second &&& wsPayloadLenMsk
  { finFlag := first &&& wsFinFlag = wsFinFlag
    opcode := first &&& wsOpcodeMsk
    maskFlag
    payloadLength := payloadLength mark behind
    maskOffset := wsMinHeaderSize + extlenSize mark
    payloadOffset := wsMinHeaderSize + extlenSize mark + if maskFlag then wsMaskSize else 0 }

/-- The size of a frame, as a `size_t` has it. -/
def WsFrame.size (frame : WsFrame) : Nat := (frame.payloadOffset + frame.payloadLength) % sizeRange

theorem wsParseFrame_cons (first second : UInt8) (behind : Bytes) :
    wsParseFrame (first :: second :: behind) =
      let header := headerOf first second behind
      if behind.length + 2 < header.payloadOffset then .more header.payloadOffset
      else if behind.length + 2 < header.size then .more header.size
      else .frame header header.size := by
  unfold wsParseFrame
  rw [if_neg (by simp [wsMinHeaderSize])]
  rfl

/-- What a recognised frame says about the data. -/
structure Recognised (data : Bytes) (frame : WsFrame) (frameLength : Nat) : Prop where
  maskOffset_pos : 2 ≤ frame.maskOffset
  payloadOffset_eq : frame.payloadOffset = frame.maskOffset + if frame.maskFlag then wsMaskSize else 0
  payloadOffset_le : frame.payloadOffset ≤ data.length
  frameLength_eq : frameLength = frame.size
  frameLength_le : frameLength ≤ data.length
  append : ∀ rest, wsParseFrame (data ++ rest) = .frame frame frameLength

theorem wsParseFrame_spec {data : Bytes} {frame : WsFrame} {frameLength : Nat}
    (h : wsParseFrame data = .frame frame frameLength) : Recognised data frame frameLength := by
  match data with
  | [] => cases h
  | [_] => cases h
  | first :: second :: behind =>
    have hoff : 2 + extlenSize (second &&& wsPayloadLenMsk) ≤ (headerOf first second behind).payloadOffset :=
      Nat.le_add_right _ _
    rw [wsParseFrame_cons] at h
    simp only at h
    split at h
    · cases h
    · rename_i hheader
      split at h
      · cases h
      · rename_i hsize
        injection h with hframe hlength
        subst hframe hlength
        refine ⟨Nat.le_add_right _ _, by simp [headerOf], not_lt.1 hheader, rfl, not_lt.1 hsize, fun rest => ?_⟩
        have hbehind : extlenSize (second &&& wsPayloadLenMsk) ≤ behind.length := by omega
        have hsame : headerOf first second (behind ++ rest) = headerOf first second behind := by
          simp only [headerOf, payloadLength, List.take_append_of_le_length hbehind]
        rw [List.cons_append, List.cons_append, wsParseFrame_cons, hsame]
        simp only [List.length_append]
        rw [if_neg (by omega), if_neg (by omega)]

/-! ## Frames on the wire -/

/-- A frame as its sender means it: with the payload before it is masked. -/
structure Frame where
  fin : Bool
  opcode : UInt8
  mask : Option Mask
  payload : Bytes
  deriving DecidableEq

namespace Frame

/-- The byte with the FIN flag and the opcode. -/
def flags (f : Frame) : UInt8 := (if f.fin then wsFinFlag else 0) ||| f.opcode

def format (f : Frame) : Bytes := wsFormatFrame f.flags f.mask f.payload

/-- A frame that its header has room for and whose size fits a `size_t`. -/
structure Proper (f : Frame) : Prop where
  opcode_lt : f.opcode < 16
  length_lt : f.payload.length + wsMaxHeaderSize < sizeRange

end Frame

/-- The length mark of a payload length, and the bytes behind it. -/
def lengthMark (n : Nat) : UInt8 :=
  if n > 0xFFFF then wsExtlen64Mark else if n ≥ 126 then wsExtlen16Mark else UInt8.ofNat n

def lengthExt (n : Nat) : Bytes :=
  if n > 0xFFFF then toBigEndian wsExtlen64Size n else if n ≥ 126 then toBigEndian wsExtlen16Size n else []

theorem lengthMark_lt (n : Nat) : lengthMark n < 128 := by
  unfold lengthMark
  split
  · decide
  · split
    · decide
    · rw [UInt8.lt_iff_toNat_lt, UInt8.toNat_ofNat']
      show n % 256 < 128
      omega

theorem ofNat_ne_mark {n : Nat} (h : n < 126) : UInt8.ofNat n ≠ wsExtlen16Mark ∧ UInt8.ofNat n ≠ wsExtlen64Mark := by
  have hn : (UInt8.ofNat n).toNat = n := by rw [UInt8.toNat_ofNat']; omega
  constructor <;> intro he <;> rw [he] at hn
  · exact absurd hn (by simp [wsExtlen16Mark]; omega)
  · exact absurd hn (by simp [wsExtlen64Mark]; omega)

theorem extlenSize_lengthMark (n : Nat) : extlenSize (lengthMark n) = (lengthExt n).length := by
  unfold lengthMark lengthExt
  split
  · rw [length_toBigEndian]; rfl
  · split
    · rw [length_toBigEndian]; rfl
    · obtain ⟨h16, h64⟩ := ofNat_ne_mark (n := n) (by omega)
      rw [extlenSize, if_neg h16, if_neg h64]
      rfl

theorem payloadLength_lengthMark {n : Nat} (h : n < sizeRange) (behind : Bytes) :
    payloadLength (lengthMark n) (lengthExt n ++ behind) = n := by
  unfold payloadLength
  rw [extlenSize_lengthMark, List.take_left' rfl]
  unfold lengthMark lengthExt
  split
  · rw [if_pos (Or.inr rfl)]
    exact bigEndian_toBigEndian _ _ h
  · split
    · rw [if_pos (Or.inl rfl)]
      exact bigEndian_toBigEndian _ _ (by simp [wsExtlen16Size]; omega)
    · obtain ⟨h16, h64⟩ := ofNat_ne_mark (n := n) (by omega)
      rw [if_neg (by rw [not_or]; exact ⟨h16, h64⟩), UInt8.toNat_ofNat']
      omega

theorem and_payloadLenMsk {mark : UInt8} (h : mark < 128) :
    (mark ||| wsMaskFlag) &&& wsPayloadLenMsk = mark ∧ (mark ||| 0) &&& wsPayloadLenMsk = mark ∧
      (mark ||| wsMaskFlag) &&& wsMaskFlag = wsMaskFlag ∧ (mark ||| 0) &&& wsMaskFlag ≠ wsMaskFlag := by
  have key : ∀ m : Fin 128, (UInt8.ofNat m ||| wsMaskFlag) &&& wsPayloadLenMsk = UInt8.ofNat m ∧
      (UInt8.ofNat m ||| 0) &&& wsPayloadLenMsk = UInt8.ofNat m ∧
      (UInt8.ofNat m ||| wsMaskFlag) &&& wsMaskFlag = wsMaskFlag ∧
      (UInt8.ofNat m ||| 0) &&& wsMaskFlag ≠ wsMaskFlag := by decide +kernel
  have := key ⟨mark.toNat, by simpa [UInt8.lt_iff_toNat_lt] using h⟩
  simpa using this

theorem and_flags {opcode : UInt8} (h : opcode < 16) :
    (wsFinFlag ||| opcode) &&& wsFinFlag = wsFinFlag ∧ (0 ||| opcode) &&& wsFinFlag ≠ wsFinFlag ∧
      (wsFinFlag ||| opcode) &&& wsOpcodeMsk = opcode ∧ (0 ||| opcode) &&& wsOpcodeMsk = opcode := by
  have key : ∀ o : Fin 16, (wsFinFlag ||| UInt8.ofNat o) &&& wsFinFlag = wsFinFlag ∧
      (0 ||| UInt8.ofNat o) &&& wsFinFlag ≠ wsFinFlag ∧
      (wsFinFlag ||| UInt8.ofNat o) &&& wsOpcodeMsk = UInt8.ofNat o ∧
      (0 ||| UInt8.ofNat o) &&& wsOpcodeMsk = UInt8.ofNat o := by decide +kernel
  have := key ⟨opcode.toNat, by simpa [UInt8.lt_iff_toNat_lt] using h⟩
  simpa using this

namespace Frame

variable {f : Frame}

def maskBytes (f : Frame) : Bytes := f.mask.elim [] Vector.toList

/-- The payload as it is sent. -/
def sent (f : Frame) : Bytes := f.mask.elim f.payload (wsApplyMask f.payload)

/-- The header that a receiver finds. -/
def header (f : Frame) : WsFrame where
  finFlag := f.fin
  opcode := f.opcode
  maskFlag := f.mask.isSome
  payloadLength := f.payload.length
  maskOffset := wsMinHeaderSize + (lengthExt f.payload.length).length
  payloadOffset := wsMinHeaderSize + (lengthExt f.payload.length).length + f.maskBytes.length

theorem length_maskBytes : f.maskBytes.length = if f.mask.isSome then wsMaskSize else 0 := by
  unfold maskBytes
  cases f.mask <;> simp [wsMaskSize]

@[simp] theorem length_sent : f.sent.length = f.payload.length := by
  unfold sent
  cases f.mask <;> simp

theorem format_eq (f : Frame) : f.format = f.flags ::
    (lengthMark f.payload.length ||| if f.mask.isSome then wsMaskFlag else 0) ::
      (lengthExt f.payload.length ++ (f.maskBytes ++ f.sent)) := by
  unfold format wsFormatFrame lengthMark lengthExt maskBytes sent
  cases f.mask with
  | none => simp only; split <;> [rfl; (split <;> rfl)]
  | some mask => simp only; split <;> [simp; (split <;> simp)]

theorem length_format : f.format.length = f.header.payloadOffset + f.header.payloadLength := by
  rw [format_eq]
  simp [header, wsMinHeaderSize]
  omega

theorem headerOf_format (h : f.Proper) (rest : Bytes) :
    headerOf f.flags (lengthMark f.payload.length ||| if f.mask.isSome then wsMaskFlag else 0)
      (lengthExt f.payload.length ++ rest) = f.header := by
  obtain ⟨hmasked, hplain, hmask, hnomask⟩ := and_payloadLenMsk (lengthMark_lt f.payload.length)
  obtain ⟨hfin, hnofin, hopcode, hopcode'⟩ := and_flags h.opcode_lt
  have hlen : f.payload.length < sizeRange := by
    have := h.length_lt
    omega
  have hpl := payloadLength_lengthMark hlen rest
  unfold headerOf header flags
  rw [length_maskBytes]
  cases f.mask <;> cases f.fin <;>
    simp only [Option.isSome, if_true, if_false, Bool.false_eq_true, hmasked, hplain, hmask, hnomask,
      hfin, hnofin, hopcode, hopcode',
      hpl, extlenSize_lengthMark, decide_true, decide_false]

/-- The header of a frame has room in front of the payload. -/
theorem payloadOffset_header_le (f : Frame) : f.header.payloadOffset ≤ wsMaxHeaderSize := by
  have hext : (lengthExt f.payload.length).length ≤ 8 := by
    unfold lengthExt
    split <;> [skip; split] <;> simp [wsExtlen64Size, wsExtlen16Size]
  have hmask : f.maskBytes.length ≤ 4 := by
    rw [length_maskBytes]
    split <;> simp [wsMaskSize]
  simp only [header, wsMinHeaderSize, wsMaxHeaderSize, wsExtlen64Size, wsMaskSize]
  omega

theorem length_format_le (f : Frame) : f.format.length ≤ f.payload.length + wsMaxHeaderSize := by
  have hoffset := payloadOffset_header_le f
  have hlen : f.header.payloadLength = f.payload.length := rfl
  rw [length_format, hlen]
  omega

theorem size_header (h : f.Proper) : f.header.size = f.format.length := by
  have hlen := h.length_lt
  have hle := length_format_le f
  rw [length_format] at hle ⊢
  exact Nat.mod_eq_of_lt (lt_of_le_of_lt hle hlen)

/-- A formatted frame is recognised. -/
theorem wsParseFrame_format (h : f.Proper) (rest : Bytes) :
    wsParseFrame (f.format ++ rest) = .frame f.header f.format.length := by
  have hsize := size_header h
  have hlen := length_format (f := f)
  have htotal := hlen
  rw [format_eq] at htotal
  simp only [List.length_cons] at htotal
  rw [format_eq, List.cons_append, List.cons_append, List.append_assoc, wsParseFrame_cons,
    headerOf_format h]
  simp only
  rw [if_neg, if_neg, hsize, ← format_eq]
  · rw [hsize, hlen]
    simp only [List.length_append] at htotal ⊢
    omega
  · simp only [List.length_append] at htotal ⊢
    omega

end Frame

/-! ## The parser of a byte stream -/

/-- The payload bytes of a frame at the front of the data, as they are there. -/
def payloadAt (data : Bytes) (frame : WsFrame) : Bytes := (data.drop frame.payloadOffset).take frame.payloadLength

/-- The mask of a frame at the front of the data. -/
def maskOf (data : Bytes) (frame : WsFrame) : Option Mask :=
  if frame.maskFlag then some (maskAt data frame.maskOffset) else none

/-- The header promises more than an address space holds: header and payload together have a size
that wraps around. -/
def WsFrame.Wraps (frame : WsFrame) : Prop := sizeRange ≤ frame.payloadOffset + frame.payloadLength

instance (frame : WsFrame) : Decidable frame.Wraps := inferInstanceAs (Decidable (_ ≤ _))

/-- The frame that a header and the data at whose front it is mean. -/
def frameAt (data : Bytes) (header : WsFrame) : Frame :=
  let mask := maskOf data header
  let payload := payloadAt data header
  ⟨header.finFlag, header.opcode, mask, mask.elim payload (wsApplyMask payload)⟩

/-- `ws_parse_frame` with the frame that it finds; a size that wraps around is no frame's. -/
def frameParser : Parser UInt8 (WsFrame × Frame) := fun data =>
  match wsParseFrame data with
  | .more _ => .more
  | .frame header frameLength => if header.Wraps then .bad else .frame (header, frameAt data header) frameLength

theorem frameParser_frame {data : Bytes} {found : WsFrame × Frame} {n : Nat} (h : frameParser data = .frame found n) :
    ∃ header, wsParseFrame data = .frame header n ∧ ¬ header.Wraps ∧ found = (header, frameAt data header) := by
  unfold frameParser at h
  cases hp : wsParseFrame data with
  | more n => rw [hp] at h; cases h
  | frame header frameLength =>
    rw [hp] at h
    simp only at h
    split at h
    · cases h
    · rename_i hwraps
      cases h
      exact ⟨header, rfl, hwraps, rfl⟩

section Recognised

variable {data : Bytes} {frame : WsFrame} {frameLength : Nat}

/-- Without wrapping around, a frame is its header and its payload. -/
theorem Recognised.frameLength_of_not_wraps (h : Recognised data frame frameLength) (hwraps : ¬ frame.Wraps) :
    frameLength = frame.payloadOffset + frame.payloadLength := by
  rw [h.frameLength_eq, WsFrame.size, Nat.mod_eq_of_lt (not_le.1 hwraps)]

theorem Recognised.maskOf_append (h : Recognised data frame frameLength) (rest : Bytes) :
    maskOf (data ++ rest) frame = maskOf data frame := by
  have hoff := h.payloadOffset_eq
  have hle := h.payloadOffset_le
  unfold maskOf
  split
  · rename_i hflag
    rw [if_pos hflag] at hoff
    simp only [wsMaskSize] at hoff
    congr 1
    ext i hi
    simp [maskAt, List.getElem?_append_left (show frame.maskOffset + i < data.length by omega)]
  · rfl

theorem Recognised.payloadAt_append (h : Recognised data frame frameLength) (hwraps : ¬ frame.Wraps) (rest : Bytes) :
    payloadAt (data ++ rest) frame = payloadAt data frame := by
  have hlen := h.frameLength_of_not_wraps hwraps
  have hle := h.frameLength_le
  unfold payloadAt
  rw [List.drop_append_of_le_length (by omega), List.take_append_of_le_length (by rw [List.length_drop]; omega)]

end Recognised

theorem frameParser_stable : Parser.Stable frameParser where
  nil := rfl
  pos := by
    intro xs f n h
    obtain ⟨header, hp, hwraps, -⟩ := frameParser_frame h
    have hr := wsParseFrame_spec hp
    have hlen := hr.frameLength_of_not_wraps hwraps
    have hpos := hr.maskOffset_pos
    have hoff := hr.payloadOffset_eq
    omega
  le := by
    intro xs f n h
    obtain ⟨header, hp, -⟩ := frameParser_frame h
    exact (wsParseFrame_spec hp).frameLength_le
  frame_append := by
    intro xs f n ys h
    obtain ⟨header, hp, hwraps, rfl⟩ := frameParser_frame h
    have hr := wsParseFrame_spec hp
    simp only [frameParser, hr.append ys, if_neg hwraps, frameAt, hr.maskOf_append, hr.payloadAt_append hwraps]
  bad_append := by
    intro xs ys h
    unfold frameParser at h ⊢
    cases hp : wsParseFrame xs with
    | more n => rw [hp] at h; cases h
    | frame header n =>
      rw [(wsParseFrame_spec hp).append ys]
      rw [hp] at h
      simp only at h ⊢
      split at h
      · rename_i hwraps
        rw [if_pos hwraps]
      · cases h

namespace Frame

variable {f : Frame}

theorem not_wraps (h : f.Proper) : ¬ f.header.Wraps := by
  have hsize := size_header h
  have hlen := length_format (f := f)
  have hlt : f.header.size < sizeRange := Nat.mod_lt _ (by norm_num [sizeRange])
  unfold WsFrame.Wraps
  omega

/-- The mask and the payload that a receiver finds. -/
theorem maskOf_format (rest : Bytes) : maskOf (f.format ++ rest) f.header = f.mask := by
  unfold maskOf
  cases hmask : f.mask with
  | none => rw [if_neg (by simp [header, hmask])]
  | some mask =>
    rw [if_pos (by simp [header, hmask])]
    have hmaskBytes : f.maskBytes = mask.toList := by simp [maskBytes, hmask]
    have hfront : (f.flags :: (lengthMark f.payload.length ||| if f.mask.isSome then wsMaskFlag else 0) ::
        lengthExt f.payload.length).length = f.header.maskOffset := by
      simp [header, wsMinHeaderSize]
      omega
    have hsplit := maskAt_append (f.flags ::
      (lengthMark f.payload.length ||| if f.mask.isSome then wsMaskFlag else 0) :: lengthExt f.payload.length)
      (f.sent ++ rest) mask
    rw [hfront] at hsplit
    rw [format_eq, hmaskBytes]
    simp only [List.cons_append, List.append_assoc] at hsplit ⊢
    rw [hsplit]

theorem payloadAt_format (rest : Bytes) : payloadAt (f.format ++ rest) f.header = f.sent := by
  have hfront : (f.flags :: (lengthMark f.payload.length ||| if f.mask.isSome then wsMaskFlag else 0) ::
      (lengthExt f.payload.length ++ f.maskBytes)).length = f.header.payloadOffset := by
    simp [header, wsMinHeaderSize]
    omega
  have hformat : f.format ++ rest = (f.flags :: (lengthMark f.payload.length ||| if f.mask.isSome then wsMaskFlag else 0) ::
      (lengthExt f.payload.length ++ f.maskBytes)) ++ (f.sent ++ rest) := by
    rw [format_eq]
    simp
  unfold payloadAt
  rw [hformat, List.drop_left' hfront, List.take_left' (by simp [header])]

/-- Unmasking what was sent gives the payload back. -/
theorem elim_sent : f.mask.elim f.sent (wsApplyMask f.sent) = f.payload := by
  unfold sent
  cases f.mask <;> simp

/-- A strict prefix of a frame is not taken for a frame, and its hint is between the two. -/
theorem wsParseFrame_cut (h : f.Proper) {pre : Bytes} (hpre : pre <+: f.format) (hne : pre ≠ f.format) :
    ∃ hint, wsParseFrame pre = .more hint ∧ pre.length < hint ∧ hint ≤ f.format.length := by
  have hlt : pre.length < f.format.length := lt_of_le_of_ne hpre.length_le fun he => hne (hpre.eq_of_length he)
  have hsize := size_header h
  have hoffset : f.header.payloadOffset ≤ f.format.length := by
    rw [length_format]
    exact Nat.le_add_right _ _
  have hmin : 2 ≤ f.header.payloadOffset := by
    simp only [header, wsMinHeaderSize]
    omega
  match pre with
  | [] => exact ⟨2, rfl, by decide, by omega⟩
  | [_] => exact ⟨2, rfl, Nat.one_lt_two, by omega⟩
  | first :: second :: behind =>
    rw [format_eq] at hpre
    obtain ⟨rfl, hrest⟩ := List.cons_prefix_cons.1 hpre
    obtain ⟨rfl, hbehind⟩ := List.cons_prefix_cons.1 hrest
    rw [wsParseFrame_cons]
    -- the size of the header does not depend on the bytes behind the first two
    have hheader : (headerOf f.flags (lengthMark f.payload.length ||| if f.mask.isSome then wsMaskFlag else 0)
        behind).payloadOffset = f.header.payloadOffset := by
      have hcomplete := congrArg WsFrame.payloadOffset (headerOf_format h [])
      exact hcomplete
    simp only [hheader]
    by_cases hshort : behind.length + 2 < f.header.payloadOffset
    · rw [if_pos hshort]
      exact ⟨_, rfl, hshort, hoffset⟩
    · have hext : (lengthExt f.payload.length).length ≤ behind.length := by
        simp only [header, wsMinHeaderSize] at hshort
        omega
      obtain ⟨rest, rfl⟩ := List.prefix_of_prefix_length_le (List.prefix_append _ _) hbehind hext
      rw [if_neg hshort, headerOf_format h, hsize]
      refine ⟨_, if_pos hlt, hlt, le_refl _⟩

/-- A receiver finds what the sender meant. -/
theorem frameAt_format (f : Frame) (rest : Bytes) : frameAt (f.format ++ rest) f.header = f := by
  simp only [frameAt, maskOf_format, payloadAt_format, elim_sent]
  rfl

theorem frameParser_format (h : f.Proper) (rest : Bytes) :
    frameParser (f.format ++ rest) = .frame (f.header, f) f.format.length := by
  simp only [frameParser, wsParseFrame_format h, if_neg (not_wraps h), frameAt_format]

end Frame

/-- A concatenation of formatted frames is drained frame by frame. -/
theorem drain_format : ∀ {fs : List Frame}, (∀ f ∈ fs, f.Proper) →
    Framing.drain frameParser (fs.flatMap Frame.format) = ⟨fs.map fun f => (f.header, f), [], false⟩
  | [], _ => Framing.drain_more rfl
  | f :: fs, h => by
    have hf := Frame.frameParser_format (h f (List.mem_cons_self ..)) (fs.flatMap Frame.format)
    rw [List.flatMap_cons, Framing.drain_frame frameParser_stable hf, List.drop_left,
      drain_format fun f hm => h f (List.mem_cons_of_mem _ hm), List.map_cons]

section EveryCut

variable (fin : Bool) {opcode : UInt8} (mask : Option Mask) {data : Bytes}
    (hopcode : opcode < 16) (hdata : data.length < 2 ^ 62)
include hopcode hdata

/-- A frame is parsed wherever the stream is cut, and its payload is unmasked to the data. -/
theorem wsFormatFrame_everyCut :
    let frame := wsFormatFrame ((if fin then wsFinFlag else 0) ||| opcode) mask data
    frame.length ≤ data.length + wsMaxHeaderSize ∧
    (∀ rest, ∃ header, wsParseFrame (frame ++ rest) = .frame header frame.length ∧
      header.finFlag = fin ∧ header.opcode = opcode ∧ header.maskFlag = mask.isSome ∧
      header.payloadLength = data.length ∧ maskOf (frame ++ rest) header = mask ∧
      mask.elim (payloadAt (frame ++ rest) header) (wsApplyMask (payloadAt (frame ++ rest) header)) = data) ∧
    ∀ pre, pre <+: frame → pre ≠ frame →
      ∃ hint, wsParseFrame pre = .more hint ∧ pre.length < hint ∧ hint ≤ frame.length := by
  let f : Frame := ⟨fin, opcode, mask, data⟩
  have h : f.Proper := ⟨hopcode,
    by simp only [f, sizeRange, wsMaxHeaderSize, wsMinHeaderSize, wsExtlen64Size, wsMaskSize]; omega⟩
  refine ⟨Frame.length_format_le f, fun rest => ?_, fun pre hpre hne => Frame.wsParseFrame_cut h hpre hne⟩
  refine ⟨f.header, Frame.wsParseFrame_format h rest, rfl, rfl, rfl, rfl, Frame.maskOf_format (f := f) rest, ?_⟩
  have hpayload := Frame.payloadAt_format (f := f) rest
  rw [show payloadAt (wsFormatFrame ((if fin then wsFinFlag else 0) ||| opcode) mask data ++ rest)
      f.header = f.sent from hpayload]
  exact Frame.elim_sent (f := f)

end EveryCut

/-- A masked text frame with one byte. -/
theorem wsFormatFrame_everyCut_text :
    let frame := wsFormatFrame ((if true then wsFinFlag else 0) ||| wsOpcodeText) (some (Vector.replicate 4 1)) [0x61]
    frame.length ≤ 1 + wsMaxHeaderSize ∧
    (∀ rest, ∃ header, wsParseFrame (frame ++ rest) = .frame header frame.length ∧
      header.finFlag = true ∧ header.opcode = wsOpcodeText ∧ header.maskFlag = true ∧
      header.payloadLength = 1 ∧ maskOf (frame ++ rest) header = some (Vector.replicate 4 1) ∧
      wsApplyMask (payloadAt (frame ++ rest) header) (Vector.replicate 4 1) = [0x61]) ∧
    ∀ pre, pre <+: frame → pre ≠ frame →
      ∃ hint, wsParseFrame pre = .more hint ∧ pre.length < hint ∧ hint ≤ frame.length :=
  wsFormatFrame_everyCut true (some (Vector.replicate 4 1)) (by decide) (by decide)

/-! ## Lengths that wrap around -/

/-- The extended length is so large that the size of header and payload is no `size_t`. -/
def AnnouncesTooMuch (data : Bytes) : Prop :=
  data.getD wsMaskLenIdx 0 &&& wsPayloadLenMsk = wsExtlen64Mark ∧
    sizeRange ≤ wsMinHeaderSize + wsExtlen64Size +
      (if data.getD wsMaskLenIdx 0 &&& wsMaskFlag = wsMaskFlag then wsMaskSize else 0) +
      bigEndian ((data.drop wsExtlenIdx).take wsExtlen64Size)

/-- Only a 64-bit length is large enough to wrap around. -/
theorem wraps_headerOf_iff (first second : UInt8) (behind : Bytes) :
    (headerOf first second behind).Wraps ↔ AnnouncesTooMuch (first :: second :: behind) := by
  have hmask : (if second &&& wsMaskFlag = wsMaskFlag then wsMaskSize else 0) ≤ 4 := by
    split <;> simp [wsMaskSize]
  have hsecond : (first :: second :: behind).getD wsMaskLenIdx 0 = second := rfl
  have hbehind : (first :: second :: behind).drop wsExtlenIdx = behind := rfl
  have h127 : wsExtlen64Mark ≠ wsExtlen16Mark := by decide
  unfold WsFrame.Wraps AnnouncesTooMuch headerOf payloadLength extlenSize
  rw [hsecond, hbehind]
  by_cases h64 : second &&& wsPayloadLenMsk = wsExtlen64Mark
  · simp only [h64, if_neg h127, or_true, if_true, true_and]
  · refine ⟨fun hwraps => ?_, fun htoo => absurd htoo.1 h64⟩
    exfalso
    by_cases h16 : second &&& wsPayloadLenMsk = wsExtlen16Mark
    · have hlt : bigEndian (behind.take wsExtlen16Size) < 256 ^ 2 := by
        refine lt_of_lt_of_le (bigEndian_lt _) (Nat.pow_le_pow_right (by decide) ?_)
        rw [List.length_take]
        exact Nat.min_le_left _ _
      simp only [h16, if_true, true_or, wsMinHeaderSize, wsExtlen16Size, sizeRange] at hwraps hlt
      omega
    · have hlt := (second &&& wsPayloadLenMsk).toNat_lt
      simp only [h16, h64, if_false, or_self, wsMinHeaderSize, sizeRange] at hwraps
      omega

/-- A parsed frame lies in the data, as its header says, if and only if it does not wrap around. -/
theorem parsed_withinData_iff {data : Bytes} {frame : WsFrame} {frameLength : Nat}
    (h : wsParseFrame data = .frame frame frameLength) :
    (frame.payloadOffset + frame.payloadLength = frameLength ∧ 2 ≤ frameLength ∧ frameLength ≤ data.length ∧
      (frame.maskFlag = true → 2 ≤ frame.maskOffset ∧ frame.maskOffset + wsMaskSize ≤ frame.payloadOffset ∧
        frame.payloadOffset ≤ data.length)) ↔ ¬ AnnouncesTooMuch data := by
  have hr := wsParseFrame_spec h
  have hwraps : frame.Wraps ↔ AnnouncesTooMuch data := by
    match data with
    | [] => cases h
    | [_] => cases h
    | first :: second :: behind =>
      rw [← wraps_headerOf_iff, wsParseFrame_cons] at *
      simp only at h
      split at h
      · cases h
      · split at h
        · cases h
        · cases h
          rfl
  rw [← hwraps]
  have hpos := hr.maskOffset_pos
  have hoffset := hr.payloadOffset_eq
  constructor
  · rintro ⟨hsum, -, hle, -⟩ hw
    have hlt : frameLength < sizeRange := by
      rw [hr.frameLength_eq]
      exact Nat.mod_lt _ (by decide)
    rw [WsFrame.Wraps, hsum] at hw
    omega
  · intro hw
    have hsum := hr.frameLength_of_not_wraps hw
    refine ⟨hsum.symm, by omega, hr.frameLength_le, fun hmask => ⟨hpos, ?_, hr.payloadOffset_le⟩⟩
    rw [hoffset, if_pos hmask]

/-- A text frame with one byte. -/
theorem parsed_withinData_text : wsParseFrame [0x81, 1, 0x61] = .frame ⟨true, wsOpcodeText, false, 1, 2, 2⟩ 3 ∧
    ((2 + 1 = 3 ∧ 2 ≤ 3 ∧ 3 ≤ [0x81, 1, 0x61].length ∧
      (false = true → 2 ≤ 2 ∧ 2 + wsMaskSize ≤ 2 ∧ 2 ≤ [0x81, 1, 0x61].length)) ↔ ¬ AnnouncesTooMuch [0x81, 1, 0x61]) :=
  ⟨by decide, @parsed_withinData_iff [0x81, 1, 0x61] ⟨true, wsOpcodeText, false, 1, 2, 2⟩ 3 (by decide)⟩

/-- Ten bytes that announce a payload of 2^64 - 1: the frame length wraps around to 9. -/
def hugeLength : Bytes := [0x82, 0x7F, 0xFF, 0xFF, 0xFF, 0xFF, 0xFF, 0xFF, 0xFF, 0xFF]

theorem parsed_beyondData : ¬ ∀ (data : Bytes) (frame : WsFrame) (frameLength : Nat), data.length < 2 ^ 63 →
    wsParseFrame data = .frame frame frameLength →
      frame.payloadOffset + frame.payloadLength = frameLength ∧ 2 ≤ frameLength ∧ frameLength ≤ data.length ∧
      (frame.maskFlag = true → 2 ≤ frame.maskOffset ∧ frame.maskOffset + wsMaskSize ≤ frame.payloadOffset ∧
        frame.payloadOffset ≤ data.length) := by
  intro h
  have hparse : wsParseFrame hugeLength = .frame ⟨true, wsOpcodeBinary, false, 2 ^ 64 - 1, 10, 10⟩ 9 := by decide
  obtain ⟨hsum, -⟩ := h hugeLength _ 9 (by decide) hparse
  norm_num at hsum

/-! ## The accept key is a word -/

theorem isgraph_base64Char (a : UInt8) (h : a < 64) : isgraph (base64Char a) = true := by
  have key : ∀ i : Fin 64, isgraph (base64Char (UInt8.ofNat i)) = true := by decide +kernel
  have := key ⟨a.toNat, by simpa [UInt8.lt_iff_toNat_lt] using h⟩
  simpa using this

theorem or_sextet {a b : UInt8} (ha : a < 64) (hb : b < 64) : a ||| b < 64 := by
  rw [UInt8.lt_iff_toNat_lt] at ha hb ⊢
  rw [UInt8.toNat_or]
  exact Nat.or_lt_two_pow (n := 6) ha hb

/-- The parts that a byte has in the groups of six bits. -/
theorem sextets (a : UInt8) : a >>> 2 < 64 ∧ (a &&& 0x03) <<< 4 < 64 ∧ a >>> 4 < 64 ∧ (a &&& 0x0F) <<< 2 < 64 ∧
    a >>> 6 < 64 ∧ a &&& 0x3F < 64 := by
  have key : ∀ b : BitVec 8, (⟨b⟩ : UInt8) >>> 2 < 64 ∧ ((⟨b⟩ : UInt8) &&& 0x03) <<< 4 < 64 ∧ (⟨b⟩ : UInt8) >>> 4 < 64 ∧
      ((⟨b⟩ : UInt8) &&& 0x0F) <<< 2 < 64 ∧ (⟨b⟩ : UInt8) >>> 6 < 64 ∧ (⟨b⟩ : UInt8) &&& 0x3F < 64 := by decide +kernel
  exact key a.toBitVec

theorem base64EncodeLoop_graph : ∀ (src : Bytes), ∀ c ∈ base64EncodeLoop src, isgraph c = true
  | a :: b :: c :: rest => by
    obtain ⟨a2, a4, -⟩ := sextets a
    obtain ⟨-, -, b4, b2, -⟩ := sextets b
    obtain ⟨-, -, -, -, c6, c0⟩ := sextets c
    simp only [base64EncodeLoop, List.forall_mem_cons]
    exact ⟨isgraph_base64Char _ a2, isgraph_base64Char _ (or_sextet a4 b4), isgraph_base64Char _ (or_sextet b2 c6),
      isgraph_base64Char _ c0, base64EncodeLoop_graph rest⟩
  | [a, b] => by
    obtain ⟨a2, a4, -⟩ := sextets a
    obtain ⟨-, -, b4, b2, -⟩ := sextets b
    simp only [base64EncodeLoop, List.forall_mem_cons]
    exact ⟨isgraph_base64Char _ a2, isgraph_base64Char _ (or_sextet a4 b4), isgraph_base64Char _ b2, by decide, by simp⟩
  | [a] => by
    obtain ⟨a2, a4, -⟩ := sextets a
    simp only [base64EncodeLoop, List.forall_mem_cons]
    exact ⟨isgraph_base64Char _ a2, isgraph_base64Char _ a4, by decide, by decide, by simp⟩
  | [] => by simp [base64EncodeLoop]

theorem length_base64EncodeLoop : ∀ (src : Bytes), (base64EncodeLoop src).length = (src.length + 2) / 3 * 4
  | a :: b :: c :: rest => by
    simp only [base64EncodeLoop, List.length_cons, length_base64EncodeLoop rest]
    omega
  | [a, b] => by simp [base64EncodeLoop]
  | [a] => by simp [base64EncodeLoop]
  | [] => by simp [base64EncodeLoop]

/-- What `ws_calculate_accept_key` computes. -/
def acceptKey (sha1 : Sha1) (reqkey : Bytes) : Bytes := base64EncodeLoop (sha1 (reqkey ++ wsGuid)).toList

section AcceptKey

variable (sha1 : Sha1) (reqkey : Bytes)

theorem length_acceptKey : (acceptKey sha1 reqkey).length = 28 := by
  have hlen : (sha1 (reqkey ++ wsGuid)).toList.length = 20 := Vector.length_toList
  rw [acceptKey, length_base64EncodeLoop, hlen]

theorem acceptKey_graph : ∀ c ∈ acceptKey sha1 reqkey, isgraph c = true := base64EncodeLoop_graph _

/-- There is always an accept key. -/
theorem wsCalculateAcceptKey_eq {length : Nat} (h : 31 ≤ length) :
    wsCalculateAcceptKey sha1 reqkey length = some (acceptKey sha1 reqkey) := by
  have hlen : (sha1 (reqkey ++ wsGuid)).toList.length = 20 := Vector.length_toList
  have hencode : base64Encode (sha1 (reqkey ++ wsGuid)).toList length = acceptKey sha1 reqkey := by
    simp only [base64Encode, hlen]
    rw [if_neg (by omega)]
    rfl
  have hne : acceptKey sha1 reqkey ≠ [] := by
    intro hnil
    have hsize := length_acceptKey sha1 reqkey
    rw [hnil] at hsize
    cases hsize
  simp only [wsCalculateAcceptKey, hencode, if_neg hne]

end AcceptKey

end CMx.Ws
