/-
`base64.c` on the memory of the caller: what the encoder and the decoder write and return, for every input and
every buffer, and that decoding gives back what was encoded, whatever other characters there are in between.
-/
import CMx.Websocket
import CMx.RawBuffer

namespace CMx.Base64

open Mqtt (Bytes)
open Ws (base64Table base64Char)

/-! ## The functions -/

/-- The buffer of the caller, with the index of `pos` in it. -/
structure Out where
  memory : Bytes
  pos : Nat
  deriving DecidableEq, Repr

/-- `*pos++ = c`, which has no result behind the buffer. -/
def Out.put (out : Out) (c : UInt8) : Option Out := do
  let memory ← store out.memory out.pos [c]
  return ⟨memory, out.pos + 1⟩

def Out.puts (out : Out) (cs : Bytes) : Option Out := cs.foldlM Out.put out

/-- The loop and the bytes behind the last three, with what they leave in `line_len`. -/
def base64EncodeLoop (lineFeed : Bool) : (src : Bytes) → (lineLen : Nat) → Out → Option (Nat × Out)
  | a :: b :: c :: rest, lineLen, out => do
    let out ← out.puts [base64Char (a >>> 2), base64Char (((a &&& 0x03) <<< 4) ||| (b >>> 4)),
      base64Char (((b &&& 0x0F) <<< 2) ||| (c >>> 6)), base64Char (c &&& 0x3F)]
    if lineFeed ∧ lineLen + 4 ≥ 72 then
      let out ← out.put 0x0A
      base64EncodeLoop lineFeed rest 0 out
    else base64EncodeLoop lineFeed rest (lineLen + 4) out
  | [a, b], lineLen, out => do
    let out ← out.puts [base64Char (a >>> 2), base64Char (((a &&& 0x03) <<< 4) ||| (b >>> 4)),
      base64Char ((b &&& 0x0F) <<< 2), 0x3D]
    return (lineLen + 4, out)
  | [a], lineLen, out => do
    let out ← out.puts [base64Char (a >>> 2), base64Char ((a &&& 0x03) <<< 4), 0x3D, 0x3D]
    return (lineLen + 4, out)
  | [], lineLen, out => return (lineLen, out)

/-- The last line feed. -/
def base64EncodeEnd (lineFeed : Bool) (lineLen : Nat) (out : Out) : Option Out :=
  if lineFeed ∧ lineLen ≠ 0 then out.put 0x0A else some out

/-- With the memory of the buffer, and what the function returns. -/
def base64Encode (src out : Bytes) (lineFeed : Bool) : Option (Bytes × Nat) :=
  let olen := sizeT (src.length * 4) / 3 + 4
  let olen := sizeT (olen + olen / 72)
  let olen := sizeT (olen + 1)
  if olen < src.length then some (out, 0)
  else if olen > out.length then some (out, 0)
  else do
    let (lineLen, out) ← base64EncodeLoop lineFeed src 0 ⟨out, 0⟩
    let out ← base64EncodeEnd lineFeed lineLen out
    let ended ← out.put 0
    return (ended.memory, out.pos)

def dtable : Vector UInt8 256 :=
  let entries : Vector UInt8 256 := Vector.replicate 256 0x80
  let entries := (List.range 64).foldl (fun t i => t.set! (base64Table.getD i 0).toNat (UInt8.ofNat i)) entries
  entries.set 0x3D 0

/-- The decoder behind its checks: the first `count` bytes of `block`, and the padding characters so far. -/
def base64DecodeLoop : (src block : Bytes) → (pad : Nat) → Out → Option (Bytes × Nat)
  | [], _, _, out => some (out.memory, out.pos)
  | c :: src, block, pad, out =>
    let tmp := dtable.get c.toFin
    if tmp = 0x80 then base64DecodeLoop src block pad out
    else
      let pad := if c = 0x3D then pad + 1 else pad
      match block with
      | [b0, b1, b2] => do
        let out ← out.puts [(b0 <<< 2) ||| (b1 >>> 4), (b1 <<< 4) ||| (b2 >>> 2), (b2 <<< 6) ||| tmp]
        if pad = 0 then base64DecodeLoop src [] pad out
        else if pad = 1 then some (out.memory, out.pos - 1)
        else if pad = 2 then some (out.memory, out.pos - 2)
        else some (out.memory, 0)
      | _ => base64DecodeLoop src (block ++ [tmp]) pad out

def base64Decode (src out : Bytes) : Option (Bytes × Nat) :=
  let count := src.countP fun c => dtable.get c.toFin ≠ 0x80
  if count = 0 ∨ count % 4 ≠ 0 then some (out, 0)
  else if count / 4 * 3 > out.length then some (out, 0)
  else base64DecodeLoop src [] 0 ⟨out, 0⟩

/-! ## What is written -/

/-- The buffer with these bytes at its front. -/
def written (memory cs : Bytes) : Out := ⟨cs ++ memory.drop cs.length, cs.length⟩

section Written

variable {memory cs : Bytes}

theorem put_written {c : UInt8} (h : cs.length < memory.length) :
    (written memory cs).put c = some (written memory (cs ++ [c])) := by
  have hfits : cs.length + [c].length ≤ (cs ++ memory.drop cs.length).length := by
    simp only [List.length_append, List.length_drop, List.length_singleton]
    omega
  have hdrop : (cs ++ memory.drop cs.length).drop (cs.length + 1) = memory.drop (cs.length + 1) := by
    rw [List.drop_append, List.drop_eq_nil_of_le (by omega), List.nil_append, List.drop_drop]
    congr 1
    omega
  simp only [Out.put, written, store_eq hfits, overwrite_eq hfits, List.take_left, List.length_singleton, hdrop,
    Option.bind_eq_bind, Option.bind_some, List.length_append]
  rfl

theorem puts_written (memory : Bytes) : ∀ (ds : Bytes) {cs : Bytes}, cs.length + ds.length ≤ memory.length →
    (written memory cs).puts ds = some (written memory (cs ++ ds))
  | [], cs, _ => by
    rw [List.append_nil]
    rfl
  | d :: ds, cs, h => by
    rw [List.length_cons] at h
    have hrest := puts_written memory ds (show (cs ++ [d]).length + ds.length ≤ memory.length by
      simp only [List.length_append, List.length_singleton]
      omega)
    rw [List.append_assoc] at hrest
    rw [Out.puts, List.foldlM_cons, put_written (by omega)]
    exact hrest

end Written

/-! ## The encoder -/

/-- The text in lines of seventy-two characters, each of them ended. -/
def lines (text : Bytes) : Bytes :=
  if text = [] then []
  else if h : 72 < text.length then text.take 72 ++ 0x0A :: lines (text.drop 72)
  else text ++ [0x0A]
termination_by text.length
decreasing_by
  rw [List.length_drop]
  omega

theorem lines_nil : lines [] = [] := by
  rw [lines, if_pos rfl]

/-- A full line. -/
theorem lines_full {line : Bytes} (h : line.length = 72) (text : Bytes) :
    lines (line ++ text) = line ++ 0x0A :: lines text := by
  have hne : line ++ text ≠ [] := by
    intro hnil
    have := congrArg List.length hnil
    rw [List.length_append, List.length_nil] at this
    omega
  rw [lines, if_neg hne]
  by_cases hlong : 72 < (line ++ text).length
  · rw [dif_pos hlong, List.take_append_of_le_length (by omega), List.take_of_length_le (by omega),
      List.drop_append_of_le_length (by omega), List.drop_eq_nil_of_le (by omega), List.nil_append]
  · have htext : text = [] := by
      rw [List.length_append] at hlong
      exact List.length_eq_zero_iff.1 (by omega)
    rw [dif_neg hlong, htext, lines_nil, List.append_nil]

/-- The last line. -/
theorem lines_last {line : Bytes} (hne : line ≠ []) (h : line.length ≤ 72) : lines line = line ++ [0x0A] := by
  rw [lines, if_neg hne, dif_neg (by omega)]

theorem length_lines (text : Bytes) : (lines text).length = text.length + (text.length + 71) / 72 := by
  rw [lines]
  by_cases hnil : text = []
  · rw [if_pos hnil, hnil]
    rfl
  · have hpos : 0 < text.length := List.length_pos_iff.2 hnil
    rw [if_neg hnil]
    by_cases hlong : 72 < text.length
    · rw [dif_pos hlong, List.length_append, List.length_cons, length_lines (text.drop 72), List.length_take,
        List.length_drop]
      omega
    · rw [dif_neg hlong, List.length_append, List.length_singleton]
      omega
termination_by text.length
decreasing_by
  rw [List.length_drop]
  omega

/-- What the encoder writes in front of the terminating null. -/
def layout (lineFeed : Bool) (text : Bytes) : Bytes := if lineFeed then lines text else text

/-- The characters of three bytes. -/
def quantum (a b c : UInt8) : Bytes :=
  [base64Char (a >>> 2), base64Char (((a &&& 0x03) <<< 4) ||| (b >>> 4)),
    base64Char (((b &&& 0x0F) <<< 2) ||| (c >>> 6)), base64Char (c &&& 0x3F)]

theorem encoded_cons (a b c : UInt8) (rest : Bytes) :
    Ws.base64EncodeLoop (a :: b :: c :: rest) = quantum a b c ++ Ws.base64EncodeLoop rest := rfl

section Encode

variable {memory : Bytes}

/-- A pass of the loop. -/
theorem base64EncodeLoop_cons (lineFeed : Bool) (a b c : UInt8) (rest : Bytes) (lineLen : Nat) {done : Bytes}
    (h : done.length + 4 ≤ memory.length) :
    base64EncodeLoop lineFeed (a :: b :: c :: rest) lineLen (written memory done) =
      if lineFeed ∧ lineLen + 4 ≥ 72 then
        ((written memory (done ++ quantum a b c)).put 0x0A).bind (base64EncodeLoop lineFeed rest 0)
      else base64EncodeLoop lineFeed rest (lineLen + 4) (written memory (done ++ quantum a b c)) := by
  have hputs : (written memory done).puts (quantum a b c) = some (written memory (done ++ quantum a b c)) :=
    puts_written memory _ h
  rw [base64EncodeLoop]
  show ((written memory done).puts (quantum a b c)).bind _ = _
  rw [hputs]
  rfl

theorem base64EncodeLoop_plain : ∀ (src : Bytes) (lineLen : Nat) {done : Bytes},
    (done ++ Ws.base64EncodeLoop src).length ≤ memory.length →
    ∃ n, base64EncodeLoop false src lineLen (written memory done) =
      some (n, written memory (done ++ Ws.base64EncodeLoop src))
  | a :: b :: c :: rest, lineLen, done, h => by
    rw [encoded_cons, ← List.append_assoc] at h ⊢
    obtain ⟨n, hrest⟩ := base64EncodeLoop_plain rest (lineLen + 4) h
    have hroom : done.length + 4 ≤ memory.length := by
      simp only [List.length_append] at h
      have : (quantum a b c).length = 4 := rfl
      omega
    refine ⟨n, ?_⟩
    rw [base64EncodeLoop_cons false a b c rest lineLen hroom, if_neg (by simp)]
    exact hrest
  | [a, b], lineLen, done, h => by
    refine ⟨lineLen + 4, ?_⟩
    rw [base64EncodeLoop, puts_written memory _ (by rw [List.length_append] at h; exact h)]
    rfl
  | [a], lineLen, done, h => by
    refine ⟨lineLen + 4, ?_⟩
    rw [base64EncodeLoop, puts_written memory _ (by rw [List.length_append] at h; exact h)]
    rfl
  | [], lineLen, done, _ => by
    refine ⟨lineLen, ?_⟩
    rw [base64EncodeLoop, Ws.base64EncodeLoop, List.append_nil]
    rfl

/-- The end of a line that is not full. -/
theorem base64EncodeEnd_line {done line : Bytes} {n : Nat} (hn : n ≠ 0) (hne : line ≠ [])
    (hline : line.length ≤ 72) (h : (done ++ lines line).length ≤ memory.length) :
    base64EncodeEnd true n (written memory (done ++ line)) = some (written memory (done ++ lines line)) := by
  rw [lines_last hne hline] at h ⊢
  simp only [List.length_append, List.length_singleton] at h
  rw [base64EncodeEnd, if_pos ⟨rfl, hn⟩, put_written (by rw [List.length_append]; omega), List.append_assoc]

/-- The characters behind a line that was begun go on with it. -/
theorem base64EncodeLoop_lines : ∀ (src line : Bytes) {done : Bytes}, line.length < 72 → line.length % 4 = 0 →
    (done ++ lines (line ++ Ws.base64EncodeLoop src)).length ≤ memory.length →
    ((base64EncodeLoop true src line.length (written memory (done ++ line))).bind fun r =>
        base64EncodeEnd true r.1 r.2) =
      some (written memory (done ++ lines (line ++ Ws.base64EncodeLoop src)))
  | a :: b :: c :: rest, line, done, hlt, hmod, h => by
    have hlen : (line ++ quantum a b c).length = line.length + 4 := List.length_append
    rw [encoded_cons, ← List.append_assoc] at h ⊢
    have hroom : (done ++ line).length + 4 < memory.length := by
      rw [List.length_append, length_lines, List.length_append, hlen] at h
      rw [List.length_append]
      omega
    rw [base64EncodeLoop_cons true a b c rest line.length (by omega), List.append_assoc]
    by_cases hfull : line.length + 4 ≥ 72
    · -- the line is full, and the next one is begun
      have hexact : (line ++ quantum a b c).length = 72 := by omega
      rw [lines_full hexact] at h ⊢
      have hassoc : ∀ behind : Bytes, done ++ (line ++ quantum a b c ++ 0x0A :: behind) =
          done ++ (line ++ quantum a b c) ++ [0x0A] ++ behind := by
        intro behind
        simp
      rw [hassoc] at h
      have hrest := base64EncodeLoop_lines rest [] (by simp) rfl h
      have hput : (done ++ (line ++ quantum a b c)).length < memory.length := by
        rw [List.length_append] at hroom
        rw [List.length_append, hlen]
        omega
      rw [if_pos ⟨rfl, hfull⟩, put_written hput, Option.bind_some, hassoc]
      rw [List.append_nil] at hrest
      exact hrest
    · rw [if_neg (by simp only [true_and]; exact hfull), ← hlen]
      exact base64EncodeLoop_lines rest (line ++ quantum a b c) (by omega) (by omega) h
  -- a group that is cut short is padded, and nothing comes behind it
  | [a, b], line, done, hlt, hmod, h => by
    have hlen : (line ++ Ws.base64EncodeLoop [a, b]).length = line.length + 4 := List.length_append
    have hroom : (done ++ line).length + 4 ≤ memory.length := by
      rw [List.length_append, length_lines, hlen] at h
      rw [List.length_append]
      omega
    have hputs := puts_written memory (Ws.base64EncodeLoop [a, b]) hroom
    have hend := base64EncodeEnd_line (n := line.length + 4) (by omega)
      (List.ne_nil_of_length_pos (by omega)) (by omega) h
    rw [base64EncodeLoop]
    show (((written memory (done ++ line)).puts (Ws.base64EncodeLoop [a, b])).bind _).bind _ = _
    rw [hputs, List.append_assoc]
    exact hend
  | [a], line, done, hlt, hmod, h => by
    have hlen : (line ++ Ws.base64EncodeLoop [a]).length = line.length + 4 := List.length_append
    have hroom : (done ++ line).length + 4 ≤ memory.length := by
      rw [List.length_append, length_lines, hlen] at h
      rw [List.length_append]
      omega
    have hputs := puts_written memory (Ws.base64EncodeLoop [a]) hroom
    have hend := base64EncodeEnd_line (n := line.length + 4) (by omega)
      (List.ne_nil_of_length_pos (by omega)) (by omega) h
    rw [base64EncodeLoop]
    show (((written memory (done ++ line)).puts (Ws.base64EncodeLoop [a])).bind _).bind _ = _
    rw [hputs, List.append_assoc]
    exact hend
  | [], line, done, hlt, hmod, h => by
    rw [Ws.base64EncodeLoop, List.append_nil] at h ⊢
    rw [base64EncodeLoop]
    by_cases hnil : line = []
    · rw [hnil, lines_nil]
      rfl
    · have hpos : 0 < line.length := List.length_pos_iff.2 hnil
      exact base64EncodeEnd_line (n := line.length) (by omega) hnil (by omega) h

/-- The encoder's estimate of the bytes that it writes. -/
def room (len : Nat) : Nat := (len * 4 / 3 + 4) + (len * 4 / 3 + 4) / 72 + 1

/-- The estimate is enough for the text and the null. -/
theorem length_layout_lt_room (lineFeed : Bool) (src : Bytes) :
    (layout lineFeed (Ws.base64EncodeLoop src)).length < room src.length := by
  have hlen := Ws.length_base64EncodeLoop src
  unfold room layout
  cases lineFeed with
  | false =>
    rw [if_neg (by simp)]
    omega
  | true =>
    rw [if_pos rfl, length_lines]
    omega

/-- The checks of the encoder: an estimate that wrapped around is smaller than the length. -/
theorem olen_iff {len outLen : Nat} (hlen : len < 2 ^ 64) (hout : outLen < 2 ^ 64) :
    let olen := sizeT (len * 4) / 3 + 4
    let olen := sizeT (olen + olen / 72)
    let olen := sizeT (olen + 1)
    (¬ olen < len ∧ ¬ olen > outLen) ↔ len < 2 ^ 62 ∧ room len ≤ outLen := by
  intro olen1 olen2 olen3
  have h1 : olen1 = len * 4 % 2 ^ 64 / 3 + 4 := by
    simp only [olen1, sizeT]
    omega
  have h2 : olen2 = (olen1 + olen1 / 72) % 2 ^ 64 := by
    simp only [olen2, sizeT]
    omega
  have h3 : olen3 = (olen2 + 1) % 2 ^ 64 := by
    simp only [olen3, sizeT]
    omega
  clear_value olen1 olen2 olen3
  -- neither of the two sums wraps around, only the product
  have h4 : olen3 = olen1 + olen1 / 72 + 1 := by omega
  have hquotient : len * 4 = 2 ^ 64 * (len * 4 / 2 ^ 64) + len * 4 % 2 ^ 64 := (Nat.div_add_mod _ _).symm
  clear h2 h3
  unfold room
  constructor
  · rintro ⟨hge, hle⟩
    have hzero : len < 2 ^ 62 := by
      by_contra hlarge
      have : 1 ≤ len * 4 / 2 ^ 64 := by omega
      omega
    have hmod : len * 4 % 2 ^ 64 = len * 4 := Nat.mod_eq_of_lt (by omega)
    rw [hmod] at h1
    exact ⟨hzero, by omega⟩
  · rintro ⟨hsmall, hroom⟩
    have hmod : len * 4 % 2 ^ 64 = len * 4 := Nat.mod_eq_of_lt (by omega)
    rw [hmod] at h1
    constructor
    · omega
    · omega

variable {src out : Bytes} {lineFeed : Bool}

theorem base64Encode_run (hsrc : src.length < 2 ^ 62) (hout : out.length < 2 ^ 64)
    (hroom : room src.length ≤ out.length) :
    base64Encode src out lineFeed =
      some (layout lineFeed (Ws.base64EncodeLoop src) ++
          0 :: out.drop ((layout lineFeed (Ws.base64EncodeLoop src)).length + 1),
        (layout lineFeed (Ws.base64EncodeLoop src)).length) := by
  obtain ⟨hlong, hsmall⟩ := (olen_iff (by omega) hout).2 ⟨hsrc, hroom⟩
  have htext : (layout lineFeed (Ws.base64EncodeLoop src)).length < out.length :=
    lt_of_lt_of_le (length_layout_lt_room lineFeed src) hroom
  have hloop : ((base64EncodeLoop lineFeed src 0 ⟨out, 0⟩).bind fun r => base64EncodeEnd lineFeed r.1 r.2) =
      some (written out (layout lineFeed (Ws.base64EncodeLoop src))) := by
    cases lineFeed with
    | false =>
      have hfits : ([] ++ Ws.base64EncodeLoop src).length ≤ out.length := htext.le
      obtain ⟨n, hn⟩ := base64EncodeLoop_plain src 0 hfits
      show (base64EncodeLoop false src 0 (written out [])).bind _ = _
      rw [hn]
      rfl
    | true =>
      have hfits : ([] ++ lines ([] ++ Ws.base64EncodeLoop src)).length ≤ out.length := htext.le
      exact base64EncodeLoop_lines src [] (by simp) rfl hfits
  have hrun : base64Encode src out lineFeed =
      ((base64EncodeLoop lineFeed src 0 ⟨out, 0⟩).bind fun r => base64EncodeEnd lineFeed r.1 r.2).bind fun r =>
        (r.put 0).bind fun ended => some (ended.memory, r.pos) := by
    rw [base64Encode, if_neg hlong, if_neg hsmall, Option.bind_assoc]
    rfl
  rw [hrun, hloop, Option.bind_some, put_written htext]
  simp [written]

theorem base64Encode_refused (hsrc : src.length < 2 ^ 64) (hout : out.length < 2 ^ 64)
    (h : ¬ (src.length < 2 ^ 62 ∧ room src.length ≤ out.length)) :
    base64Encode src out lineFeed = some (out, 0) := by
  have hnot := mt (olen_iff hsrc hout).1 h
  unfold base64Encode
  by_contra hrun
  refine hnot ⟨fun hlong => hrun (if_pos hlong), fun hroom => hrun ?_⟩
  show (if _ then _ else if _ then _ else _) = _
  rw [if_pos hroom, ite_self]

end Encode

/-- The encoder never writes behind the buffer. It writes the text, in lines or not, and a null behind it, when
the estimate says that they fit, and nothing otherwise; a length for which the estimate wraps around is found. -/
theorem base64Encode_eq (src out : Bytes) (lineFeed : Bool) (hsrc : src.length < 2 ^ 64) (hout : out.length < 2 ^ 64) :
    base64Encode src out lineFeed = some (
      if src.length < 2 ^ 62 ∧ room src.length ≤ out.length then
        let text := layout lineFeed (Ws.base64EncodeLoop src)
        (text ++ 0 :: out.drop (text.length + 1), text.length)
      else (out, 0)) := by
  by_cases hfits : src.length < 2 ^ 62 ∧ room src.length ≤ out.length
  · rw [if_pos hfits]
    exact base64Encode_run hfits.1 hout hfits.2
  · rw [if_neg hfits]
    exact base64Encode_refused hsrc hout hfits

theorem base64Encode_eq_hello :
    base64Encode (text "hello") (List.replicate 16 1) true =
      some (text "aGVsbG8=\n" ++ 0 :: List.replicate 6 1, 9) := by
  have heq := base64Encode_eq (text "hello") (List.replicate 16 1) true (by decide) (by decide)
  have hlayout : layout true (Ws.base64EncodeLoop (text "hello")) = text "aGVsbG8=\n" :=
    lines_last (by decide) (by decide)
  rw [if_pos (by decide), hlayout] at heq
  exact heq

/-- The encoder as the handshake uses it. -/
theorem base64Encode_plain {src out : Bytes} (hsrc : src.length < 2 ^ 62) (hout : out.length < 2 ^ 64) :
    ∃ memory, base64Encode src out false = some (memory, (Ws.base64Encode src out.length).length) ∧
      memory.take (Ws.base64Encode src out.length).length = Ws.base64Encode src out.length := by
  by_cases hroom : room src.length ≤ out.length
  · have hws : Ws.base64Encode src out.length = Ws.base64EncodeLoop src := if_neg (not_lt.2 hroom)
    rw [hws]
    exact ⟨_, base64Encode_run hsrc hout hroom, List.take_left⟩
  · have hws : Ws.base64Encode src out.length = [] := if_pos (not_le.1 hroom)
    rw [hws]
    exact ⟨out, base64Encode_refused (by omega) hout fun h => hroom h.2, rfl⟩

/-! ## The decoder -/

/-- A character that the decoder does not skip. -/
def known (c : UInt8) : Bool := dtable.get c.toFin ≠ 0x80

/-- The bytes of four characters. -/
def decodeQuad (c0 c1 c2 c3 : UInt8) : Bytes :=
  let b0 := dtable.get c0.toFin
  let b1 := dtable.get c1.toFin
  let b2 := dtable.get c2.toFin
  let b3 := dtable.get c3.toFin
  [(b0 <<< 2) ||| (b1 >>> 4), (b1 <<< 4) ||| (b2 >>> 2), (b2 <<< 6) ||| b3]

/-- The text up to the first four characters with a padding character: each of those, of which there are at most
two, takes away a byte. What is behind them does not matter. -/
def decoded : (text : Bytes) → Option Bytes
  | c0 :: c1 :: c2 :: c3 :: rest =>
    let pad := [c0, c1, c2, c3].count 0x3D
    if pad = 0 then (decoded rest).map (decodeQuad c0 c1 c2 c3 ++ ·)
    else if pad ≤ 2 then some ((decodeQuad c0 c1 c2 c3).take (3 - pad))
    else none
  | _ => some []

section Decode

variable {c : UInt8} {src block : Bytes} {pad : Nat} {out : Out}

theorem base64DecodeLoop_skip (h : known c = false) :
    base64DecodeLoop (c :: src) block pad out = base64DecodeLoop src block pad out := by
  have hc : dtable.get c.toFin = 0x80 := by
    unfold known at h
    exact not_not.1 (of_decide_eq_false h)
  rw [base64DecodeLoop, if_pos hc]

/-- The padding characters with one more character. -/
def padWith (pad : Nat) (c : UInt8) : Nat := if c = 0x3D then pad + 1 else pad

theorem base64DecodeLoop_push (h : known c = true) (hblock : block.length ≠ 3) :
    base64DecodeLoop (c :: src) block pad out =
      base64DecodeLoop src (block ++ [dtable.get c.toFin]) (padWith pad c) out := by
  have hc : dtable.get c.toFin ≠ 0x80 := by
    unfold known at h
    exact of_decide_eq_true h
  rw [base64DecodeLoop, if_neg hc]
  match block, hblock with
  | [], _ => rfl
  | [_], _ => rfl
  | [_, _], _ => rfl
  | _ :: _ :: _ :: _ :: _, _ => rfl

theorem base64DecodeLoop_full (h : known c = true) (b0 b1 b2 : UInt8) :
    base64DecodeLoop (c :: src) [b0, b1, b2] pad out =
      (out.puts [(b0 <<< 2) ||| (b1 >>> 4), (b1 <<< 4) ||| (b2 >>> 2), (b2 <<< 6) ||| dtable.get c.toFin]).bind
        fun out =>
          if padWith pad c = 0 then base64DecodeLoop src [] (padWith pad c) out
          else if padWith pad c = 1 then some (out.memory, out.pos - 1)
          else if padWith pad c = 2 then some (out.memory, out.pos - 2)
          else some (out.memory, 0) := by
  have hc : dtable.get c.toFin ≠ 0x80 := by
    unfold known at h
    exact of_decide_eq_true h
  rw [base64DecodeLoop, if_neg hc]
  rfl

/-- Other characters are skipped, wherever they are. -/
theorem base64DecodeLoop_known : ∀ (src block : Bytes) (pad : Nat) (out : Out),
    base64DecodeLoop src block pad out = base64DecodeLoop (src.filter known) block pad out
  | [], _, _, _ => rfl
  | c :: src, block, pad, out => by
    cases hc : known c with
    | false =>
      rw [List.filter_cons_of_neg (by rw [hc]; simp), base64DecodeLoop_skip hc]
      exact base64DecodeLoop_known src block pad out
    | true =>
      rw [List.filter_cons_of_pos hc]
      by_cases hblock : block.length = 3
      · obtain ⟨b0, b1, b2, rfl⟩ := List.length_eq_three.1 hblock
        rw [base64DecodeLoop_full hc, base64DecodeLoop_full hc]
        refine congrArg (Option.bind _) (funext fun out => ?_)
        rw [base64DecodeLoop_known src]
      · rw [base64DecodeLoop_push hc hblock, base64DecodeLoop_push hc hblock]
        exact base64DecodeLoop_known src _ _ out

/-- Four characters. -/
theorem base64DecodeLoop_quad {c0 c1 c2 c3 : UInt8} (h0 : known c0 = true) (h1 : known c1 = true)
    (h2 : known c2 = true) (h3 : known c3 = true) :
    base64DecodeLoop (c0 :: c1 :: c2 :: c3 :: src) [] 0 out =
      (out.puts (decodeQuad c0 c1 c2 c3)).bind fun out =>
        if [c0, c1, c2, c3].count 0x3D = 0 then base64DecodeLoop src [] 0 out
        else if [c0, c1, c2, c3].count 0x3D = 1 then some (out.memory, out.pos - 1)
        else if [c0, c1, c2, c3].count 0x3D = 2 then some (out.memory, out.pos - 2)
        else some (out.memory, 0) := by
  have hpad : padWith (padWith (padWith (padWith 0 c0) c1) c2) c3 = [c0, c1, c2, c3].count 0x3D := by
    simp only [padWith, List.count_cons, List.count_nil, beq_iff_eq]
    split_ifs <;> rfl
  rw [base64DecodeLoop_push h0 (by simp), base64DecodeLoop_push h1 (by simp), base64DecodeLoop_push h2 (by simp)]
  simp only [List.nil_append, List.cons_append]
  rw [base64DecodeLoop_full h3, hpad]
  refine congrArg (Option.bind _) (funext fun out => ?_)
  by_cases hzero : [c0, c1, c2, c3].count 0x3D = 0
  · rw [if_pos hzero, if_pos hzero, hzero]
  · rw [if_neg hzero, if_neg hzero]

/-- The loop on a text of groups of four: at most three bytes are written for a group, and the value that is
returned says how many of them there are. -/
theorem base64DecodeLoop_spec (memory : Bytes) : ∀ (text done : Bytes), (∀ c ∈ text, known c = true) →
    text.length % 4 = 0 → done.length + text.length / 4 * 3 ≤ memory.length →
    ∃ all, all.length ≤ text.length / 4 * 3 ∧ (∀ bytes, decoded text = some bytes → bytes <+: all) ∧
      base64DecodeLoop text [] 0 (written memory done) =
        some ((written memory (done ++ all)).memory,
          (decoded text).elim 0 fun bytes => done.length + bytes.length)
  | [], done, _, _, _ => by
    refine ⟨[], by simp, by simp [decoded], ?_⟩
    simp [base64DecodeLoop, written, decoded]
  | [_], _, _, hmod, _ => by simp at hmod
  | [_, _], _, _, hmod, _ => by simp at hmod
  | [_, _, _], _, _, hmod, _ => by simp at hmod
  | c0 :: c1 :: c2 :: c3 :: rest, done, hknown, hmod, hroom => by
    simp only [List.forall_mem_cons] at hknown
    obtain ⟨h0, h1, h2, h3, hrest⟩ := hknown
    simp only [List.length_cons] at hmod hroom
    have hthree : (decodeQuad c0 c1 c2 c3).length = 3 := rfl
    have hcount : ([c0, c1, c2, c3].count 0x3D) ≤ 4 := List.count_le_length
    rw [base64DecodeLoop_quad h0 h1 h2 h3, puts_written memory _ (by rw [hthree]; omega), Option.bind_some]
    -- a padded quad is the last one
    by_cases hzero : [c0, c1, c2, c3].count 0x3D = 0
    · have hdecoded : decoded (c0 :: c1 :: c2 :: c3 :: rest) = (decoded rest).map (decodeQuad c0 c1 c2 c3 ++ ·) := by
        rw [decoded, if_pos hzero]
      obtain ⟨all, hall, hbytes, hrun⟩ := base64DecodeLoop_spec memory rest (done ++ decodeQuad c0 c1 c2 c3) hrest
        (by omega) (by rw [List.length_append, hthree]; omega)
      refine ⟨decodeQuad c0 c1 c2 c3 ++ all, ?_, ?_, ?_⟩
      · rw [List.length_append, hthree]
        simp only [List.length_cons]
        omega
      · intro bytes h
        rw [hdecoded] at h
        obtain ⟨behind, hbehind, rfl⟩ := Option.map_eq_some_iff.1 h
        exact (List.prefix_append_right_inj _).2 (hbytes behind hbehind)
      · rw [if_pos hzero, hrun, hdecoded, List.append_assoc]
        cases decoded rest with
        | none => rfl
        | some bytes => simp [Nat.add_assoc]
    · refine ⟨decodeQuad c0 c1 c2 c3, ?_, ?_, ?_⟩
      · simp only [List.length_cons, hthree]
        omega
      · intro bytes h
        rw [decoded, if_neg hzero] at h
        by_cases htwo : [c0, c1, c2, c3].count 0x3D ≤ 2
        · rw [if_pos htwo] at h
          cases h
          exact List.take_prefix _ _
        · rw [if_neg htwo] at h
          cases h
      · rw [if_neg hzero, decoded, if_neg hzero]
        have hpos : (written memory (done ++ decodeQuad c0 c1 c2 c3)).pos = done.length + 3 := by
          simp [written, hthree]
        rw [hpos]
        interval_cases hpad : [c0, c1, c2, c3].count 0x3D
        · exact absurd rfl hzero
        · simp [hthree]
        · simp [hthree]
        · simp
        · simp

end Decode

section Whole

variable (src out : Bytes)

theorem countP_known : (src.countP fun c => dtable.get c.toFin ≠ 0x80) = (src.filter known).length :=
  List.countP_eq_length_filter

theorem base64Decode_refused
    (h : (src.filter known).length = 0 ∨ (src.filter known).length % 4 ≠ 0 ∨
      out.length < (src.filter known).length / 4 * 3) : base64Decode src out = some (out, 0) := by
  unfold base64Decode
  simp only [countP_known]
  by_cases hcount : (src.filter known).length = 0 ∨ (src.filter known).length % 4 ≠ 0
  · rw [if_pos hcount]
  · rw [if_neg hcount]
    refine if_pos ?_
    rcases h with h | h | h
    · exact absurd (Or.inl h) hcount
    · exact absurd (Or.inr h) hcount
    · exact h

theorem base64Decode_run (hpos : (src.filter known).length ≠ 0) (hmod : (src.filter known).length % 4 = 0)
    (hroom : (src.filter known).length / 4 * 3 ≤ out.length) :
    ∃ all, all.length ≤ (src.filter known).length / 4 * 3 ∧
      (∀ bytes, decoded (src.filter known) = some bytes → bytes <+: all) ∧
      base64Decode src out =
        some (all ++ out.drop all.length, (decoded (src.filter known)).elim 0 List.length) := by
  obtain ⟨all, hall, hbytes, hrun⟩ := base64DecodeLoop_spec out (src.filter known) []
    (fun c hc => (List.mem_filter.1 hc).2) hmod (by simpa using hroom)
  refine ⟨all, hall, hbytes, ?_⟩
  unfold base64Decode
  simp only [countP_known]
  rw [if_neg (by omega), if_neg (by omega), base64DecodeLoop_known]
  refine hrun.trans ?_
  simp only [written, List.nil_append, List.length_nil, Nat.zero_add]

end Whole

/-- The decoder never writes behind the buffer, and not behind three bytes for four characters either. What it
returns is the number of bytes that the known characters are decoded to; where their number is not a positive
multiple of four, or the bytes for all of them would not fit, nothing is written. -/
theorem base64Decode_spec (src out : Bytes) :
    ∃ memory n, base64Decode src out = some (memory, n) ∧ memory.length = out.length ∧
      memory.drop ((src.filter known).length / 4 * 3) = out.drop ((src.filter known).length / 4 * 3) ∧
      if (src.filter known).length = 0 ∨ (src.filter known).length % 4 ≠ 0 ∨
          out.length < (src.filter known).length / 4 * 3 then memory = out ∧ n = 0
      else (decoded (src.filter known)).elim (n = 0) fun bytes => n = bytes.length ∧ memory.take n = bytes := by
  by_cases hrefused : (src.filter known).length = 0 ∨ (src.filter known).length % 4 ≠ 0 ∨
      out.length < (src.filter known).length / 4 * 3
  · refine ⟨out, 0, base64Decode_refused src out hrefused, rfl, rfl, ?_⟩
    rw [if_pos hrefused]
    exact ⟨rfl, rfl⟩
  · obtain ⟨all, hall, hbytes, hrun⟩ := base64Decode_run src out (by omega) (by omega) (by omega)
    refine ⟨_, _, hrun, ?_, ?_, ?_⟩
    · rw [List.length_append, List.length_drop]
      omega
    · rw [List.drop_append, List.drop_eq_nil_of_le hall, List.nil_append, List.drop_drop]
      congr 1
      omega
    · rw [if_neg hrefused]
      cases hdecoded : decoded (src.filter known) with
      | none => rfl
      | some bytes =>
        obtain ⟨behind, rfl⟩ := hbytes bytes hdecoded
        refine ⟨rfl, ?_⟩
        simp

/-! ## Round trip -/

/-- The characters of the encoder are those of the decoder's table. -/
theorem dtable_base64Char {i : UInt8} (h : i < 64) : dtable.get (base64Char i).toFin = i := by
  have key : ∀ j : Fin 64, dtable.get (base64Char (UInt8.ofNat j)).toFin = UInt8.ofNat j := by decide +kernel
  have := key ⟨i.toNat, by simpa [UInt8.lt_iff_toNat_lt] using h⟩
  simpa using this

theorem known_base64Char {i : UInt8} (h : i < 64) : known (base64Char i) = true := by
  have hne : i ≠ 0x80 := by
    rintro rfl
    exact absurd h (by decide)
  simpa [known, dtable_base64Char h] using hne

theorem base64Char_ne {i : UInt8} (h : i < 64) : base64Char i ≠ 0x3D := by
  have key : ∀ j : Fin 64, base64Char (UInt8.ofNat j) ≠ 0x3D := by decide +kernel
  have := key ⟨i.toNat, by simpa [UInt8.lt_iff_toNat_lt] using h⟩
  simpa using this

/-- The groups of six bits are the three bytes again. -/
theorem regroup (a b c : UInt8) :
    ((a >>> 2) <<< 2) ||| ((((a &&& 0x03) <<< 4) ||| (b >>> 4)) >>> 4) = a ∧
      ((((a &&& 0x03) <<< 4) ||| (b >>> 4)) <<< 4) ||| ((((b &&& 0x0F) <<< 2) ||| (c >>> 6)) >>> 2) = b ∧
      ((((b &&& 0x0F) <<< 2) ||| (c >>> 6)) <<< 6) ||| (c &&& 0x3F) = c := by
  refine ⟨?_, ?_, ?_⟩
  · apply UInt8.toBitVec_inj.1
    ext i hi
    simp
    interval_cases i <;> simp
  · apply UInt8.toBitVec_inj.1
    ext i hi
    simp
    interval_cases i <;> simp
  · apply UInt8.toBitVec_inj.1
    ext i hi
    simp
    interval_cases i <;> simp

/-- A group of characters from the table, of which none is a padding character. -/
theorem count_quantum {i0 i1 i2 i3 : UInt8} (h0 : i0 < 64) (h1 : i1 < 64) (h2 : i2 < 64) (h3 : i3 < 64) :
    [base64Char i0, base64Char i1, base64Char i2, base64Char i3].count 0x3D = 0 := by
  simp [base64Char_ne h0, base64Char_ne h1, base64Char_ne h2, base64Char_ne h3]

theorem decoded_encoded : ∀ (src : Bytes), decoded (Ws.base64EncodeLoop src) = some src
  | a :: b :: c :: rest => by
    obtain ⟨a2, a4, -⟩ := Ws.sextets a
    obtain ⟨-, -, b4, b2, -⟩ := Ws.sextets b
    obtain ⟨-, -, -, -, c6, c0⟩ := Ws.sextets c
    obtain ⟨ha, hb, hc⟩ := regroup a b c
    have hcount := count_quantum a2 (Ws.or_sextet a4 b4) (Ws.or_sextet b2 c6) c0
    rw [Ws.base64EncodeLoop, decoded, if_pos hcount, decoded_encoded rest]
    simp only [decodeQuad, dtable_base64Char a2, dtable_base64Char (Ws.or_sextet a4 b4),
      dtable_base64Char (Ws.or_sextet b2 c6), dtable_base64Char c0, ha, hb, hc, Option.map_some, List.cons_append,
      List.nil_append]
  | [a, b] => by
    obtain ⟨a2, a4, -⟩ := Ws.sextets a
    obtain ⟨-, -, b4, b2, -⟩ := Ws.sextets b
    obtain ⟨ha, hb, -⟩ := regroup a b 0
    have hone : [base64Char (a >>> 2), base64Char (((a &&& 0x03) <<< 4) ||| (b >>> 4)),
        base64Char ((b &&& 0x0F) <<< 2), 0x3D].count 0x3D = 1 := by
      simp [base64Char_ne a2, base64Char_ne (Ws.or_sextet a4 b4), base64Char_ne b2]
    have hb' : ((((a &&& 0x03) <<< 4) ||| (b >>> 4)) <<< 4) ||| (((b &&& 0x0F) <<< 2) >>> 2) = b := by
      simpa using hb
    rw [Ws.base64EncodeLoop, decoded, hone]
    simp [decodeQuad, dtable_base64Char a2, dtable_base64Char (Ws.or_sextet a4 b4), dtable_base64Char b2, ha, hb']
  | [a] => by
    obtain ⟨a2, a4, -⟩ := Ws.sextets a
    obtain ⟨ha, -, -⟩ := regroup a 0 0
    have htwo : [base64Char (a >>> 2), base64Char ((a &&& 0x03) <<< 4), 0x3D, 0x3D].count 0x3D = 2 := by
      simp [base64Char_ne a2, base64Char_ne a4]
    have ha' : ((a >>> 2) <<< 2) ||| (((a &&& 0x03) <<< 4) >>> 4) = a := by
      simpa using ha
    rw [Ws.base64EncodeLoop, decoded, htwo]
    simp [decodeQuad, dtable_base64Char a2, dtable_base64Char a4, ha']
  | [] => rfl

theorem known_encoded : ∀ (src : Bytes), ∀ c ∈ Ws.base64EncodeLoop src, known c = true
  | a :: b :: c :: rest => by
    obtain ⟨a2, a4, -⟩ := Ws.sextets a
    obtain ⟨-, -, b4, b2, -⟩ := Ws.sextets b
    obtain ⟨-, -, -, -, c6, c0⟩ := Ws.sextets c
    simp only [Ws.base64EncodeLoop, List.forall_mem_cons]
    exact ⟨known_base64Char a2, known_base64Char (Ws.or_sextet a4 b4), known_base64Char (Ws.or_sextet b2 c6),
      known_base64Char c0, known_encoded rest⟩
  | [a, b] => by
    obtain ⟨a2, a4, -⟩ := Ws.sextets a
    obtain ⟨-, -, b4, b2, -⟩ := Ws.sextets b
    simp only [Ws.base64EncodeLoop, List.forall_mem_cons]
    exact ⟨known_base64Char a2, known_base64Char (Ws.or_sextet a4 b4), known_base64Char b2, by decide +kernel,
      by simp⟩
  | [a] => by
    obtain ⟨a2, a4, -⟩ := Ws.sextets a
    simp only [Ws.base64EncodeLoop, List.forall_mem_cons]
    exact ⟨known_base64Char a2, known_base64Char a4, by decide +kernel, by decide +kernel, by simp⟩
  | [] => by simp [Ws.base64EncodeLoop]

theorem known_lineFeed : known 0x0A = false := by decide +kernel

/-- Of the lines the decoder knows the text. -/
theorem filter_lines (text : Bytes) : (lines text).filter known = text.filter known := by
  rw [lines]
  by_cases hnil : text = []
  · rw [if_pos hnil, hnil]
  · rw [if_neg hnil]
    by_cases hlong : 72 < text.length
    · rw [dif_pos hlong, List.filter_append, List.filter_cons_of_neg (by rw [known_lineFeed]; simp),
        filter_lines (text.drop 72), ← List.filter_append, List.take_append_drop]
    · rw [dif_neg hlong, List.filter_append, List.filter_cons_of_neg (by rw [known_lineFeed]; simp), List.filter_nil,
        List.append_nil]
termination_by text.length
decreasing_by
  rw [List.length_drop]
  omega

theorem filter_layout (lineFeed : Bool) (src : Bytes) :
    (layout lineFeed (Ws.base64EncodeLoop src)).filter known = Ws.base64EncodeLoop src := by
  have hall : (Ws.base64EncodeLoop src).filter known = Ws.base64EncodeLoop src :=
    List.filter_eq_self.2 (known_encoded src)
  cases lineFeed with
  | false => exact hall
  | true => exact (filter_lines _).trans hall

/-- Decoding what was encoded, in lines or not, and with any other characters put in or taken out, gives the
bytes back, in a buffer with room for three bytes for four characters; a smaller one is left alone. -/
theorem base64Decode_base64Encode (src buffer memory text out : Bytes) (lineFeed : Bool) (n : Nat)
    (hsrc : 0 < src.length ∧ src.length < 2 ^ 64) (hbuffer : buffer.length < 2 ^ 64)
    (hencode : base64Encode src buffer lineFeed = some (memory, n)) (hn : n ≠ 0)
    (htext : text.filter known = (memory.take n).filter known) :
    ((src.length + 2) / 3 * 3 ≤ out.length →
        ∃ decodedOut, base64Decode text out = some (decodedOut, src.length) ∧ decodedOut.take src.length = src) ∧
      (out.length < (src.length + 2) / 3 * 3 → base64Decode text out = some (out, 0)) := by
  have hlen := Ws.length_base64EncodeLoop src
  by_cases hfits : src.length < 2 ^ 62 ∧ room src.length ≤ buffer.length
  · rw [base64Encode_run hfits.1 hbuffer hfits.2] at hencode
    cases hencode
    rw [List.take_left, filter_layout] at htext
    constructor
    · intro hroom
      obtain ⟨all, hall, hbytes, hrun⟩ := base64Decode_run text out (by rw [htext]; omega)
        (by rw [htext]; omega) (by rw [htext]; omega)
      rw [htext, decoded_encoded] at hbytes hrun
      obtain ⟨behind, rfl⟩ := hbytes src rfl
      exact ⟨_, hrun, by simp⟩
    · intro hsmall
      exact base64Decode_refused text out (by rw [htext]; omega)
  · rw [base64Encode_refused hsrc.2 hbuffer hfits] at hencode
    cases hencode
    exact absurd rfl hn

/-- With line breaks of another width, and blanks. -/
theorem base64Decode_base64Encode_folded :
    ∃ decodedOut, base64Decode (text "aGVs\r\n bG8=") (List.replicate 6 0) = some (decodedOut, 5) ∧
      decodedOut.take 5 = text "hello" := by
  have hencode : base64Encode (text "hello") (List.replicate 16 0) true =
      some (text "aGVsbG8=\n" ++ List.replicate 7 0, 9) := by decide +kernel
  exact (base64Decode_base64Encode (text "hello") (List.replicate 16 0) _ (text "aGVs\r\n bG8=")
    (List.replicate 6 0) true 9 (by decide) (by decide) hencode (by decide) (by decide +kernel)).1 (by decide)

end CMx.Base64
