/-
What `http_msg_serialize` leaves in the buffer of its caller. The lengths of the parts of a message are
of the type `int`, and so is the result: as long as the whole text has such a length, the test in front
of each part keeps the text inside of the buffer.
-/
import CMx.HttpMsg.Parse

namespace CMx

open Mqtt (Bytes CString)

/-! ## The output -/

/-- A text is at the front of the memory, and the two counts are what is in front of the rest and the
room that is there. -/
structure Output.Holds (size : Nat) (text : Bytes) (out : Output) : Prop where
  memory : out.memory.length = size
  offset : out.offset = text.length
  left : out.offset + out.left = size
  front : out.memory.take text.length = text

/-- There is no room for another byte. -/
structure Output.Full (size : Nat) (out : Output) : Prop where
  memory : out.memory.length = size
  offset : size ≤ out.offset

theorem cInt_le (n : Nat) : cInt n ≤ n := by
  unfold cInt
  rw [Int.bmod_eq_emod]
  split <;> omega

theorem ok_bind {ε α β : Type} (a : α) (f : α → Except ε β) : (Except.ok a >>= f) = f a := rfl

theorem exists_of_bind_eq_ok {ε α β : Type} {x : Except ε α} {f : α → Except ε β} {b : β} (h : x >>= f = .ok b) :
    ∃ a, x = .ok a ∧ f a = .ok b := by
  cases x with
  | error e => cases h
  | ok a => exact ⟨a, rfl, h⟩

/-- Some bytes that are written behind a test, with the counts moved by a length. -/
def putBytes (size : Nat) (bytes : Bytes) (len : Int) (out : Output) : Except Stop Output := do
  if cInt size ≥ cInt out.left then throw (.noRoom out.memory)
  let memory ← out.write bytes
  return out.advance memory len

theorem putText_eq (size : Nat) (str : Bytes) (out : Output) :
    putText size str out = putBytes size (snprintf out.left str) (snprintfLen str) out := rfl

theorem putHeadersEnd_eq (out : Output) :
    putHeadersEnd out = putBytes httpLineEnd.length httpLineEnd httpLineEnd.length out := rfl

theorem putBytes_cases (size : Nat) (bytes : Bytes) (len : Int) (out : Output) :
    (cInt out.left ≤ cInt size ∧ putBytes size bytes len out = .error (.noRoom out.memory)) ∨
    (cInt size < cInt out.left ∧ out.memory.length < out.offset + bytes.length ∧
      putBytes size bytes len out = .error .crash) ∨
    (cInt size < cInt out.left ∧ out.offset + bytes.length ≤ out.memory.length ∧
      putBytes size bytes len out = .ok (out.advance (overwrite out.memory out.offset bytes) len)) := by
  unfold putBytes Output.write
  by_cases hroom : cInt size ≥ cInt out.left
  · rw [if_pos hroom]
    exact Or.inl ⟨hroom, rfl⟩
  · rw [if_neg hroom]
    by_cases hwrite : out.offset + bytes.length ≤ out.memory.length
    · rw [if_pos hwrite]
      exact Or.inr (Or.inr ⟨not_le.1 hroom, hwrite, rfl⟩)
    · rw [if_neg hwrite]
      exact Or.inr (Or.inl ⟨not_le.1 hroom, not_le.1 hwrite, rfl⟩)

theorem putBytes_ok {size : Nat} {bytes : Bytes} {len : Int} {out out' : Output}
    (h : putBytes size bytes len out = .ok out') :
    cInt size < cInt out.left ∧ out.offset + bytes.length ≤ out.memory.length ∧
      out' = out.advance (overwrite out.memory out.offset bytes) len := by
  rcases putBytes_cases size bytes len out with ⟨-, hput⟩ | ⟨-, -, hput⟩ | ⟨hroom, hwrite, hput⟩
  · cases h.symm.trans hput
  · cases h.symm.trans hput
  · exact ⟨hroom, hwrite, Except.ok.inj (h.symm.trans hput)⟩

theorem putText_ok {size : Nat} {str : Bytes} {out out' : Output} (h : putText size str out = .ok out') :
    cInt size < cInt out.left ∧ out.offset + (snprintf out.left str).length ≤ out.memory.length ∧
      out' = out.advance (overwrite out.memory out.offset (snprintf out.left str)) (snprintfLen str) :=
  putBytes_ok h

theorem putHeadersEnd_ok {out out' : Output} (h : putHeadersEnd out = .ok out') :
    out.offset + 2 ≤ out.memory.length ∧ out' = out.advance (overwrite out.memory out.offset httpLineEnd) 2 := by
  obtain ⟨-, hwrite, hout⟩ := putBytes_ok h
  exact ⟨hwrite, hout⟩

section Steps

variable {size : Nat} {text str : Bytes} {out out' : Output}

/-- Bytes that are written behind the text, with the counts moved by some of them. -/
theorem Output.Holds.advance (hsize : size < 2 ^ 63) (h : out.Holds size text) {more : Bytes}
    (hmore : out.offset + (str ++ more).length ≤ out.memory.length) :
    (out.advance (overwrite out.memory out.offset (str ++ more)) str.length).Holds size (text ++ str) := by
  obtain ⟨hmemory, hoffset, hleft, hfront⟩ := h
  rw [List.length_append] at hmore
  refine ⟨?_, ?_, ?_, ?_⟩
  · rw [Output.advance, length_overwrite, hmemory]
  · simp only [Output.advance, List.length_append]
    omega
  · simp only [Output.advance]
    omega
  · have hlen : text.length = min text.length out.memory.length := by omega
    rw [Output.advance]
    simp only
    rw [overwrite_eq (by rw [List.length_append]; omega), hoffset, hfront, ← List.append_assoc, List.append_assoc]
    exact List.take_left' rfl

/-- A text that fits is behind the others. -/
theorem Output.Holds.putText {estimate : Nat} (hsize : size < 2 ^ 63) (h : out.Holds size text)
    (hput : putText estimate str out = .ok out') (hint : str.length ≤ intMax) (hfits : str.length < out.left) :
    out'.Holds size (text ++ str) := by
  obtain ⟨-, hwrite, rfl⟩ := putText_ok hput
  have hprint : snprintf out.left str = str ++ [0] := by
    rw [snprintf, if_neg (by omega), List.take_of_length_le (by omega)]
  rw [hprint] at hwrite ⊢
  rw [snprintfLen, if_pos hint]
  exact h.advance hsize hwrite

/-- One that does not fit leaves no room. -/
theorem Output.Holds.putText_full {estimate : Nat} (hsize : size < 2 ^ 63) (h : out.Holds size text)
    (hput : CMx.putText estimate str out = .ok out') (hint : str.length ≤ intMax) (hfits : out.left ≤ str.length) :
    out'.Full size ∧ out'.offset = (text ++ str).length ∧ out'.memory.take text.length = text := by
  obtain ⟨-, hwrite, rfl⟩ := putText_ok hput
  obtain ⟨hmemory, hoffset, hleft, hfront⟩ := h
  have hint' : str.length < 2 ^ 31 := by
    unfold intMax at hint
    omega
  have hoffset' : (out.advance (overwrite out.memory out.offset (snprintf out.left str)) (snprintfLen str)).offset =
      (text ++ str).length := by
    rw [snprintfLen, if_pos hint, List.length_append]
    simp only [Output.advance]
    omega
  refine ⟨⟨?_, ?_⟩, hoffset', ?_⟩
  · rw [Output.advance, length_overwrite, hmemory]
  · rw [hoffset', List.length_append]
    omega
  · rw [Output.advance]
    simp only
    rw [overwrite_eq hwrite, hoffset, hfront, List.append_assoc]
    exact List.take_left' rfl

/-- Without room nothing is written, and the counts go on. -/
theorem Output.Full.putText {estimate : Nat} (hsize : size < 2 ^ 63) (h : out.Full size)
    (hput : CMx.putText estimate str out = .ok out') (hint : str.length ≤ intMax) : out'.Full size := by
  obtain ⟨-, hwrite, rfl⟩ := putText_ok hput
  obtain ⟨hmemory, hoffset⟩ := h
  have hint' : str.length < 2 ^ 31 := by
    unfold intMax at hint
    omega
  constructor
  · rw [Output.advance, length_overwrite, hmemory]
  · rw [snprintfLen, if_pos hint]
    simp only [Output.advance]
    omega

/-- An offset that has wrapped around is outside of the memory. -/
theorem Output.Holds.putText_long {estimate : Nat} (hsize : size < 2 ^ 63) (h : out.Holds size [])
    (hput : CMx.putText estimate str out = .ok out') (hlong : intMax < str.length) :
        out'.memory.length < out'.offset := by
  obtain ⟨-, -, rfl⟩ := putText_ok hput
  obtain ⟨hmemory, hoffset, -, -⟩ := h
  have hback : (((out.offset : Int) + -1) % 2 ^ 64).toNat = 2 ^ 64 - 1 := by
    have hmod : ((0 : Int) + -1) % 2 ^ 64 = 2 ^ 64 - 1 := by norm_num
    rw [hoffset, List.length_nil, Nat.cast_zero, hmod]
    omega
  rw [snprintfLen, if_neg (not_le.2 hlong)]
  simp only [Output.advance, length_overwrite, hback, hmemory]
  omega

theorem Output.Holds.putHeadersEnd (hsize : size < 2 ^ 63) (h : out.Holds size text)
    (hput : putHeadersEnd out = .ok out') :
    out'.Holds size (text ++ httpLineEnd) := by
  obtain ⟨hwrite, rfl⟩ := putHeadersEnd_ok hput
  have hend : (out.advance (overwrite out.memory out.offset (httpLineEnd ++ [])) httpLineEnd.length).Holds size
      (text ++ httpLineEnd) := h.advance hsize (by rw [List.append_nil]; exact hwrite)
  rwa [List.append_nil] at hend

theorem putHeaders_cons_ok {h : HttpHeader} {headers : List HttpHeader}
    (hput : putHeaders (h :: headers) out = .ok out') :
    ∃ estimate next, CMx.putText estimate h.line out = .ok next ∧ putHeaders headers next = .ok out' := by
  obtain ⟨next, hnext, hrest⟩ := exists_of_bind_eq_ok hput
  exact ⟨_, next, hnext, hrest⟩

/-- The lines of the headers are behind each other, as long as there is room. -/
theorem putHeaders_ok (hsize : size < 2 ^ 63) {headers : List HttpHeader} (hint : ∀ h ∈ headers, h.line.length ≤ intMax)
    (h : out.Holds size text ∨ out.Full size) (hput : putHeaders headers out = .ok out') :
    out'.Holds size (text ++ headers.flatMap HttpHeader.line) ∨ out'.Full size := by
  induction headers generalizing text out with
  | nil =>
    cases hput
    rwa [List.flatMap_nil, List.append_nil]
  | cons hd headers ih =>
    rw [List.forall_mem_cons] at hint
    obtain ⟨estimate, next, hnext, hrest⟩ := putHeaders_cons_ok hput
    have hstep : next.Holds size (text ++ hd.line) ∨ next.Full size := by
      rcases h with h | h
      · rcases Nat.lt_or_ge hd.line.length out.left with hfits | hfits
        · exact Or.inl (h.putText hsize hnext hint.1 hfits)
        · exact Or.inr (h.putText_full hsize hnext hint.1 hfits).1
      · exact Or.inr (h.putText hsize hnext hint.1)
    rw [List.flatMap_cons, ← List.append_assoc]
    exact ih hint.2 hstep hrest

theorem putHeaders_outside {headers : List HttpHeader} (hput : putHeaders headers out = .ok out')
    (h : out.memory.length < out.offset) : out' = out := by
  cases headers with
  | nil => cases hput; rfl
  | cons hd headers =>
    obtain ⟨estimate, next, hnext, -⟩ := putHeaders_cons_ok hput
    obtain ⟨-, hwrite, -⟩ := putText_ok hnext
    omega

end Steps

/-! ## Messages -/

/-- What a caller has got who ends the output with a NUL, if the serialization has succeeded. -/
def output : Option (Int × HttpMsg × Bytes) → Option Bytes
  | some (ret, _, memory) => if 0 ≤ ret then some (xstrdup (memory.take ret.toNat)).bytes else none
  | none => none

def httpMsgOutput (msg : HttpMsg) (buffer : CharBuffer) : Option Bytes := output (httpMsgSerialize msg buffer)

theorem output_error {msg : HttpMsg} {stop : Stop} : output (serialized msg (.error stop)) = none := by
  cases stop with
  | noRoom memory =>
    rw [serialized, output, if_neg (by decide)]
  | crash => rfl

theorem output_ok {msg : HttpMsg} {out : Output} {str : Bytes} (h : output (serialized msg (.ok out)) = some str) :
    0 ≤ cInt out.offset ∧ str = (xstrdup (out.memory.take (cInt out.offset).toNat)).bytes := by
  rw [serialized, output] at h
  split at h
  · rename_i hret
    exact ⟨hret, (Option.some.inj h).symm⟩
  · cases h

/-- The first line that is printed of a message, without its end. -/
structure FirstLine (msg : HttpMsg) (line : Bytes) : Prop where
  put : ∃ estimate, ∀ out, putFirstLine msg out = putText estimate (line ++ httpLineEnd) out
  noReturn : 0x0D ∉ line

section Message

variable {msg : HttpMsg} {line : Bytes}

/-- The message up to its body. -/
theorem putHead_ok {estimate : Nat} (hline : ∀ out, putFirstLine msg out = putText estimate (line ++ httpLineEnd) out)
    {buffer : CharBuffer} {out : Output} (hput : putHead msg ⟨buffer.bytes, 0, buffer.bytes.length⟩ = .ok out)
    (hint : ∀ h ∈ msg.headers, h.line.length ≤ intMax) :
    out.Holds buffer.bytes.length (messageText line msg.headers []) := by
  obtain ⟨first, hput, hrest⟩ := exists_of_bind_eq_ok hput
  obtain ⟨last, hlast, hend⟩ := exists_of_bind_eq_ok hrest
  rw [hline] at hput
  have hstart : Output.Holds buffer.bytes.length [] ⟨buffer.bytes, 0, buffer.bytes.length⟩ :=
    ⟨rfl, rfl, Nat.zero_add _, rfl⟩
  obtain ⟨hwrite, hout⟩ := putHeadersEnd_ok hend
  -- behind a line that is too long for an `int` the offset lies outside, and stays there
  have hshort : (line ++ httpLineEnd).length ≤ intMax := by
    by_contra hlong
    have houtside := hstart.putText_long buffer.small hput (not_le.1 hlong)
    rw [putHeaders_outside hlast houtside] at hwrite
    omega
  have hstep : first.Holds buffer.bytes.length (line ++ httpLineEnd) ∨ first.Full buffer.bytes.length := by
    rcases Nat.lt_or_ge (line ++ httpLineEnd).length buffer.bytes.length with hfits | hfits
    · have hholds := hstart.putText buffer.small hput hshort hfits
      rw [List.nil_append] at hholds
      exact Or.inl hholds
    · exact Or.inr (hstart.putText_full buffer.small hput hshort hfits).1
  rcases putHeaders_ok buffer.small hint hstep hlast with h | h
  · have hholds := h.putHeadersEnd buffer.small hend
    rw [messageText]
    simpa only [List.append_assoc, List.append_nil] using hholds
  · have hfull := h.offset
    rw [h.memory] at hwrite
    omega

/-- A serialization that succeeds has come through the parts. -/
theorem httpMsgOutput_ok {buffer : CharBuffer} {str : Bytes} (h : httpMsgOutput msg buffer = some str) :
    ∃ head out, putHead msg ⟨buffer.bytes, 0, buffer.bytes.length⟩ = .ok head ∧
      (msg.body = none ∧ out = head ∨ ∃ body, msg.body = some body ∧ putBody (body ++ [0]) head = .ok out) ∧
      0 ≤ cInt out.offset ∧ str = (xstrdup (out.memory.take (cInt out.offset).toNat)).bytes := by
  unfold httpMsgOutput httpMsgSerialize at h
  cases hhead : putHead msg ⟨buffer.bytes, 0, buffer.bytes.length⟩ with
  | error stop =>
    simp only [hhead, output_error] at h
    cases h
  | ok head =>
    simp only [hhead] at h
    cases hbody : msg.body with
    | none =>
      simp only [hbody] at h
      obtain ⟨hret, hstr⟩ := output_ok h
      exact ⟨head, head, rfl, Or.inl ⟨rfl, rfl⟩, hret, hstr⟩
    | some body =>
      simp only [hbody] at h
      cases hput : putBody (body ++ [0]) head with
      | error stop =>
        rw [hput, output_error] at h
        cases h
      | ok out =>
        rw [hput] at h
        obtain ⟨hret, hstr⟩ := output_ok h
        exact ⟨head, out, rfl, Or.inr ⟨body, rfl, hput⟩, hret, hstr⟩

end Message

/-! ## The text in the output -/

theorem cInt_wraps {n : Nat} (hn : intMax < n) (h : 0 ≤ cInt n) : (cInt n).toNat + 2 ^ 32 ≤ n := by
  unfold cInt intMax at *
  rw [Int.bmod_eq_emod] at h ⊢
  split at h <;> split <;> omega

theorem cInt_toNat_le (n : Nat) : (cInt n).toNat ≤ intMax := by
  have hlt := (cInt_bounds n).2
  unfold intMax
  omega

theorem cInt_of_le {n : Nat} (h : n ≤ intMax) : cInt n = n := by
  unfold intMax at h
  exact cInt_eq (by omega) (by omega)

theorem output_of_offset (msg : HttpMsg) {out : Output} {n : Nat} (hoffset : out.offset = n) (h : n ≤ intMax) :
    output (serialized msg (.ok out)) = some (xstrdup (out.memory.take n)).bytes := by
  rw [serialized, output, hoffset, cInt_of_le h, if_pos (Int.natCast_nonneg n), Int.toNat_natCast]

/-- The front of the memory is the front of the text. -/
theorem take_of_front {memory text : Bytes} {k n : Nat} (hnul : 0 ∉ text) (hfront : memory.take k = text.take k)
    (hn : n ≤ k) :
    (xstrdup (memory.take n)).bytes = text.take n := by
  have htake : memory.take n = text.take n := by
    calc memory.take n = (memory.take k).take n := by rw [List.take_take, Nat.min_eq_left hn]
      _ = text.take n := by rw [hfront, List.take_take, Nat.min_eq_left hn]
  have hdup := bytes_xstrdup (fun hm => hnul (List.mem_of_mem_take hm) : 0 ∉ text.take n) 0
  rw [List.replicate_zero, List.append_nil] at hdup
  rw [htake, hdup]

section Text

variable {msg : HttpMsg} {line str : Bytes} {buffer : CharBuffer}

/-- The text of a message that has this first line. -/
def HttpMsg.textWith (msg : HttpMsg) (line : Bytes) : Bytes := messageText line msg.headers (msg.body.getD [])

theorem textWith_eq (msg : HttpMsg) (line : Bytes) :
    msg.textWith line = messageText line msg.headers [] ++ msg.body.getD [] := messageText_eq ..

variable (h : httpMsgOutput msg buffer = some str)
include h

theorem length_output : str.length ≤ intMax := by
  obtain ⟨head, out, -, -, -, hstr⟩ := httpMsgOutput_ok h
  rw [hstr]
  exact ((length_xstrdup _).trans (List.length_take_le ..)).trans (cInt_toNat_le _)

variable (hfirst : FirstLine msg line) (hnul : 0 ∉ msg.textWith line)
include hfirst hnul

/-- The parts have lengths that are of the type `int`: the output is as much of the text as the result says. -/
theorem output_take (hint : ∀ hd ∈ msg.headers, hd.line.length ≤ intMax) (hbody : (msg.body.getD []).length ≤ intMax) :
    0 ≤ cInt (msg.textWith line).length ∧ str = (msg.textWith line).take (cInt (msg.textWith line).length).toNat := by
  obtain ⟨head, out, hhead, hparts, hret, hstr⟩ := httpMsgOutput_ok h
  obtain ⟨estimate, hline⟩ := hfirst.put
  have hholds := putHead_ok hline hhead hint
  have hle : (cInt out.offset).toNat ≤ out.offset := by
    have := cInt_le out.offset
    omega
  -- what is in the memory of the text
  suffices hout : out.offset = (msg.textWith line).length ∧
      ∃ k, out.memory.take k = (msg.textWith line).take k ∧ (cInt out.offset).toNat ≤ k by
    obtain ⟨hoffset, k, hfront, hk⟩ := hout
    rw [← hoffset]
    rw [hstr]
    exact ⟨hret, take_of_front hnul hfront hk⟩
  rcases hparts with ⟨hnone, rfl⟩ | ⟨body, hsome, hput⟩
  · have htext : msg.textWith line = messageText line msg.headers [] := by
      rw [textWith_eq, hnone]
      exact List.append_nil _
    refine ⟨by rw [hholds.offset, htext], out.offset, ?_, hle⟩
    rw [htext, hholds.offset, List.take_length]
    exact hholds.front
  · have htext : msg.textWith line = messageText line msg.headers [] ++ body := by rw [textWith_eq, hsome]; rfl
    rw [hsome, Option.getD_some] at hbody
    have hbody' : 0 ∉ body := fun hm => hnul (by rw [htext]; exact List.mem_append_right _ hm)
    rw [putBody, show (xstrdup (body ++ [0])).bytes = body from bytes_xstrdup hbody' 1] at hput
    rcases Nat.lt_or_ge body.length head.left with hfits | hfull
    · have hall := hholds.putText buffer.small hput hbody hfits
      refine ⟨by rw [hall.offset, htext], out.offset, ?_, hle⟩
      rw [htext, hall.offset, List.take_length]
      exact hall.front
    · obtain ⟨-, hoffset, hfront⟩ := hholds.putText_full buffer.small hput hbody hfull
      refine ⟨by rw [hoffset, htext], (messageText line msg.headers []).length, ?_, ?_⟩
      · rw [htext, List.take_left' rfl]
        exact hfront
      · have hroom := (putText_ok hput).1
        have hlen := hholds.left
        rw [List.length_append] at hoffset
        by_cases hshort : out.offset ≤ intMax
        · -- a text of this length would fit
          have hfmt : httpBodyFmt.length + (body ++ [0]).length = body.length + 3 := by
            rw [List.length_append]
            exact Nat.add_comm ..
          have hhead : 3 ≤ (messageText line msg.headers []).length := by
            simp [messageText, httpLineEnd]
            omega
          rw [hfmt, cInt_of_le (by omega)] at hroom
          have hleft := cInt_le head.left
          omega
        · have hwraps := cInt_wraps (not_le.1 hshort) hret
          unfold intMax at hbody
          omega

end Text

end CMx
