/-
Where `http_msg_serialize` writes, and what it returns, for all strings and all buffers with lengths of the type
`int`. What is taken for the length of a part is a little more than that, so it may wrap around, and then the test
in front of the part finds room for it.
-/
import Mathlib.Data.Nat.Digits.Lemmas
import CMx.HttpMsg.Parts

namespace CMx

open Mqtt (Bytes CString strlen)

/-! ## The two counts -/

theorem cInt_sizeT (x : Int) : cInt (sizeT x) = cInt x := by
  unfold cInt sizeT
  rw [Int.toNat_of_nonneg (Int.emod_nonneg x (by norm_num)), Int.bmod_eq_emod, Int.bmod_eq_emod]
  have hmod : x % 2 ^ 64 % (2 ^ 32 : Nat) = x % (2 ^ 32 : Nat) := Int.emod_emod_of_dvd x (by norm_num)
  rw [hmod]

theorem sizeT_add (x y : Int) : ((sizeT x + y) % 2 ^ 64).toNat = sizeT (x + y) := by
  unfold sizeT
  rw [Int.toNat_of_nonneg (Int.emod_nonneg x (by norm_num)), Int.emod_add_emod]

/-- The two counts, where they have come to; the offset may have gone below the start of the buffer or behind
its end. -/
structure Output.At (size : Nat) (k : Int) (out : Output) : Prop where
  memory : out.memory.length = size
  offset : out.offset = sizeT k
  left : out.left = sizeT (size - k)

theorem snprintfLen_of_le {str : Bytes} (h : str.length ≤ intMax) : snprintfLen str = str.length := if_pos h

theorem snprintfLen_of_lt {str : Bytes} (h : intMax < str.length) : snprintfLen str = -1 := if_neg (not_le.2 h)

theorem snprintfLen_bounds (str : Bytes) : -1 ≤ snprintfLen str ∧ snprintfLen str ≤ intMax := by
  unfold snprintfLen
  split <;> omega

theorem length_snprintf_le (left : Nat) (str : Bytes) : (snprintf left str).length ≤ left := by
  unfold snprintf
  split
  · exact Nat.zero_le _
  · rw [List.length_append, List.length_take, List.length_singleton]
    omega

/-- How far some parts have come: with the offset between two places of the buffer if there has been room, and
without a crash. -/
structure Stays (size : Nat) (lo hi : Int) (x : Except Stop Output) : Prop where
  ok : ∀ out, x = .ok out → ∃ k, lo ≤ k ∧ k ≤ hi ∧ out.At size k
  noRoom : ∀ memory, x = .error (.noRoom memory) → memory.length = size
  noCrash : x ≠ .error .crash

section Stays

variable {size : Nat} {lo hi : Int}

theorem stays_ok {k : Int} {out : Output} (h : out.At size k) (hlo : lo ≤ k) (hhi : k ≤ hi) :
    Stays size lo hi (.ok out) := by
  constructor
  · rintro out' ⟨⟩
    exact ⟨k, hlo, hhi, h⟩
  · rintro memory ⟨⟩
  · rintro ⟨⟩

theorem stays_noRoom {memory : Bytes} (h : memory.length = size) : Stays size lo hi (.error (.noRoom memory)) := by
  constructor
  · rintro out ⟨⟩
  · rintro memory' ⟨⟩
    exact h
  · rintro ⟨⟩

theorem Stays.bind {lo' hi' : Int} {x : Except Stop Output} {f : Output → Except Stop Output}
    (h : Stays size lo hi x) (hf : ∀ out k, lo ≤ k → k ≤ hi → out.At size k → Stays size lo' hi' (f out)) :
    Stays size lo' hi' (x >>= f) := by
  cases x with
  | error stop =>
    constructor
    · rintro out ⟨⟩
    · rintro memory ⟨⟩
      exact h.noRoom memory rfl
    · rintro ⟨⟩
      exact h.noCrash rfl
  | ok out =>
    obtain ⟨k, hlo, hhi, hat⟩ := h.ok out rfl
    exact hf out k hlo hhi hat

theorem Stays.mono {lo' hi' : Int} {x : Except Stop Output} (h : Stays size lo hi x) (hlo : lo' ≤ lo)
    (hhi : hi ≤ hi') : Stays size lo' hi' x := by
  refine ⟨fun out hout => ?_, h.noRoom, h.noCrash⟩
  obtain ⟨k, hk, hk', hat⟩ := h.ok out hout
  exact ⟨k, hlo.trans hk, hk'.trans hhi, hat⟩

end Stays

section Counts

variable {size : Nat} {k : Int} {out : Output}

theorem Output.At.advance (h : out.At size k) {memory : Bytes} (hmemory : memory.length = size) (len : Int) :
    (out.advance memory len).At size (k + len) := by
  obtain ⟨-, hoffset, hleft⟩ := h
  refine ⟨hmemory, ?_, ?_⟩
  · rw [Output.advance, hoffset]
    exact sizeT_add k len
  · rw [Output.advance, hleft]
    calc ((sizeT (size - k) - len : Int) % 2 ^ 64).toNat = sizeT (size - k + -len) := sizeT_add _ _
      _ = sizeT (size - (k + len)) := congrArg sizeT (by omega)

theorem Output.At.cInt_left (h : out.At size k) : cInt out.left = cInt (size - k) := by
  rw [h.left, cInt_sizeT]

theorem Output.At.left_eq (h : out.At size k) (hsize : size < 2 ^ 63) (hlo : -1 ≤ k) (hhi : k ≤ size) :
    (out.left : Int) = size - k := by
  have hleft := h.left
  unfold sizeT at hleft
  omega

theorem Output.At.offset_eq (h : out.At size k) (hsize : size < 2 ^ 63) (hlo : 0 ≤ k) (hhi : k ≤ size) :
    (out.offset : Int) = k := by
  have hoffset := h.offset
  unfold sizeT at hoffset
  omega

/-- Between the two ends of the buffer what fits into the room is written. -/
theorem Output.At.putBytes (h : out.At size k) (hsize : size < 2 ^ 63) (hlo : 0 ≤ k) (hhi : k ≤ size) (estimate : Nat)
    {bytes : Bytes} (hbytes : bytes.length ≤ out.left) (len : Int) :
    Stays size (k + len) (k + len) (putBytes estimate bytes len out) := by
  have hleft := h.left_eq hsize (by omega) hhi
  have hoffset := h.offset_eq hsize hlo hhi
  rcases putBytes_cases estimate bytes len out with ⟨-, hput⟩ | ⟨-, hwrite, -⟩ | ⟨-, -, hput⟩
  · rw [hput]
    exact stays_noRoom h.memory
  · rw [h.memory] at hwrite
    omega
  · rw [hput]
    apply stays_ok (h.advance _ len) (le_refl _) (le_refl _)
    rw [length_overwrite, h.memory]

/-- What is taken for a length is of the type `int`: only if it is below the room the part is written. -/
theorem Output.At.putBytes_small (h : out.At size k) (hsize : size ≤ intMax) (hlo : 0 ≤ k) (hhi : k ≤ size + intMax)
    {estimate : Nat} (hsmall : estimate ≤ intMax) {bytes : Bytes}
    (hbytes : estimate < out.left → bytes.length ≤ out.left) (len : Int) :
    Stays size (k + len) (size - 1 + (len - estimate)) (CMx.putBytes estimate bytes len out) := by
  unfold intMax at hsize hhi
  have hroom : cInt out.left = size - k := by
    rw [h.cInt_left]
    exact cInt_eq (by omega) (by omega)
  rcases Int.lt_or_le estimate (size - k) with hfits | hfull
  · have hleft := h.left_eq (by omega) (by omega) (by omega)
    exact (h.putBytes (by omega) hlo (by omega) estimate (hbytes (by omega)) len).mono (le_refl _) (by omega)
  · rcases putBytes_cases estimate bytes len out with ⟨-, hput⟩ | ⟨htest, -⟩ | ⟨htest, -⟩
    · rw [hput]
      exact stays_noRoom h.memory
    · rw [hroom, cInt_of_le hsmall] at htest
      omega
    · rw [hroom, cInt_of_le hsmall] at htest
      omega

/-- In front of the buffer nothing can be written. -/
theorem Output.At.putBytes_before (h : out.At size (-1)) (hsize : size < 2 ^ 63) (p : Part) {bytes : Bytes}
    (hbytes : bytes ≠ []) (len : Int) :
    CMx.putBytes p.estimate bytes len out = .error .crash ∧ Passes out.left [p] ∨
      ∃ memory, CMx.putBytes p.estimate bytes len out = .error (.noRoom memory) ∧ memory.length = size ∧
        ¬ Passes out.left [p] := by
  have hoffset := h.offset
  have hpos := List.length_pos_of_ne_nil hbytes
  rcases putBytes_cases p.estimate bytes len out with ⟨hfull, hput⟩ | ⟨hroom, -, hput⟩ | ⟨-, hwrite, -⟩
  · exact Or.inr ⟨out.memory, hput, h.memory, fun hpasses => absurd hpasses.1 (not_lt.2 hfull)⟩
  · exact Or.inl ⟨hput, hroom, trivial⟩
  · rw [h.memory] at hwrite
    unfold sizeT at hoffset
    omega

end Counts

/-! ## The parts -/

/-- What is taken for the length of the part is not of the type `int`. -/
def Part.Huge (p : Part) : Prop := intMax < p.estimate

theorem HttpHeader.length_part_pos (h : HttpHeader) : 0 < h.part.str.length :=
  List.length_pos_of_mem (List.mem_append_right _ (List.mem_cons_self ..) : 0x3A ∈ h.part.str)

theorem HttpHeader.estimate_part (h : HttpHeader) : h.part.estimate = h.part.str.length + 4 := by
  have hfmt : httpHeaderLineFmt.length = 8 := rfl
  have hend : httpLineEnd.length = 2 := rfl
  simp only [HttpHeader.part, HttpHeader.line, strlen, hfmt, List.length_append, List.length_cons, hend]
  omega

/-- A first line may be one byte longer than what is taken for its length: a status is taken for three digits. -/
structure Part.IsFirst (first : Part) : Prop where
  pos : 0 < first.str.length
  length_le : first.str.length ≤ first.estimate + 1

section Head

variable {size : Nat} {k : Int} {out : Output} {headers : List HttpHeader}

theorem Output.At.putHeader (h : out.At size k) (hsize : size ≤ intMax) (hlo : 0 ≤ k) (hhi : k ≤ size)
    (hd : HttpHeader) : Stays size (k + snprintfLen hd.part.str) (k + snprintfLen hd.part.str)
      (putText hd.part.estimate hd.part.str out) := by
  unfold intMax at hsize
  exact h.putBytes (by omega) hlo hhi hd.part.estimate (length_snprintf_le _ _) _

theorem Output.At.putHeader_small (h : out.At size k) (hsize : size ≤ intMax) (hlo : 0 ≤ k) (hhi : k ≤ size + intMax)
    {hd : HttpHeader} (hsmall : ¬ hd.part.Huge) :
    Stays size (k + 1) size (putText hd.part.estimate hd.part.str out) := by
  have hestimate := hd.estimate_part
  have hpos := hd.length_part_pos
  have hsmall' := not_lt.1 hsmall
  have hlen : snprintfLen hd.part.str = hd.part.str.length := snprintfLen_of_le (by omega)
  rw [putText_eq]
  have hstep := h.putBytes_small hsize hlo hhi hsmall' (fun _ => length_snprintf_le _ hd.part.str)
    (snprintfLen hd.part.str)
  exact hstep.mono (by omega) (by omega)

theorem putHeaders_small (hsize : size ≤ intMax) (hsmall : ∀ hd ∈ headers, ¬ hd.part.Huge) (h : out.At size k)
    (hlo : 0 ≤ k) (hhi : k ≤ size + intMax) : Stays size 0 (size + intMax) (putHeaders headers out) := by
  induction headers generalizing k out with
  | nil => exact stays_ok h hlo hhi
  | cons hd headers ih =>
    rw [List.forall_mem_cons] at hsmall
    rw [putHeaders_cons]
    -- wherever the offset has been, it is inside of the buffer again behind a header that gets through
    refine (h.putHeader_small hsize hlo hhi hsmall.1).bind fun next k' hlo' hhi' hnext => ?_
    exact ih hsmall.2 hnext (by omega) (by omega)

/-- At most one of the headers is too long: behind it all of them are tested with what is taken for their length. -/
theorem putHeaders_stays (hsize : size ≤ intMax)
    (hone : headers.Pairwise fun hd hd' => ¬ (hd.part.Huge ∧ hd'.part.Huge)) (h : out.At size k)
    (hlo : 1 ≤ k) (hhi : k ≤ size) : Stays size 0 (size + intMax) (putHeaders headers out) := by
  induction headers generalizing k out with
  | nil => exact stays_ok h (by omega) (by omega)
  | cons hd headers ih =>
    rw [List.pairwise_cons] at hone
    rw [putHeaders_cons]
    by_cases hhuge : hd.part.Huge
    · -- it may end behind the buffer or be taken back by the error of `snprintf`, but the rest is tested properly
      refine (h.putHeader hsize (by omega) hhi hd).bind fun next k' hlo' hhi' hnext => ?_
      have hlen := snprintfLen_bounds hd.part.str
      exact putHeaders_small hsize (fun hd' hmem hhuge' => hone.1 hd' hmem ⟨hhuge, hhuge'⟩) hnext (by omega) (by omega)
    · refine (h.putHeader_small hsize (by omega) (by omega) hhuge).bind fun next k' hlo' hhi' hnext => ?_
      exact ih hone.2 hnext (by omega) hhi'

theorem Output.At.putHeadersEnd (h : out.At size k) (hsize : size ≤ intMax) (hlo : 0 ≤ k) (hhi : k ≤ size + intMax) :
    Stays size 2 (size - 1) (putHeadersEnd out) := by
  have hlen : httpLineEnd.length = 2 := rfl
  rw [putHeadersEnd_eq]
  have hstep := h.putBytes_small hsize hlo hhi (hlen.trans_le (by decide) : httpLineEnd.length ≤ intMax)
    le_of_lt (httpLineEnd.length : Int)
  exact hstep.mono (by omega) (by omega)

/-- Nor are the headers and their end put in front of the buffer. -/
theorem Output.At.rest_before (h : out.At size (-1)) (hsize : size < 2 ^ 63) :
    (putHeaders headers out >>= CMx.putHeadersEnd) = .error .crash ∧
        Passes out.left ((headers.map HttpHeader.part ++ [endPart]).take 1) ∨
      ∃ memory, (putHeaders headers out >>= CMx.putHeadersEnd) = .error (.noRoom memory) ∧ memory.length = size ∧
        ¬ Passes out.left ((headers.map HttpHeader.part ++ [endPart]).take 1) := by
  cases headers with
  | nil =>
    rw [putHeaders, ok_bind, putHeadersEnd_eq]
    exact h.putBytes_before hsize endPart (List.cons_ne_nil _ _ : httpLineEnd ≠ []) httpLineEnd.length
  | cons hd headers =>
    have hleft := h.left_eq hsize (le_refl _) (by omega)
    have hprint : snprintf out.left hd.part.str ≠ [] := by
      rw [snprintf, if_neg (by omega)]
      simp
    have hstep := h.putBytes_before hsize hd.part hprint (snprintfLen hd.part.str)
    rw [← putText_eq] at hstep
    rw [putHeaders_cons, List.map_cons, List.cons_append, List.take_succ_cons, List.take_zero]
    rcases hstep with ⟨hput, hpasses⟩ | ⟨memory, hput, hmemory, hstops⟩
    · rw [hput]
      exact Or.inl ⟨rfl, hpasses⟩
    · rw [hput]
      exact Or.inr ⟨memory, rfl, hmemory, hstops⟩

theorem at_start {memory : Bytes} (hsize : memory.length ≤ intMax) :
    Output.At memory.length 0 ⟨memory, 0, memory.length⟩ := by
  unfold intMax at hsize
  refine ⟨rfl, rfl, ?_⟩
  rw [sub_zero, sizeT_natCast (by omega)]

variable {msg : HttpMsg} {first : Part} {memory : Bytes} (hfirst : msg.firstPart = some first)
include hfirst

/-- The parts in front of the body, if the first line has a length of the type `int`. -/
theorem putHead_stays (hline : first.IsFirst) (hsize : memory.length ≤ intMax) (hshort : first.str.length ≤ intMax)
    (hone : (first :: msg.headers.map HttpHeader.part).Pairwise fun p q => ¬ (p.Huge ∧ q.Huge)) :
    Stays memory.length 2 (memory.length - 1) (putHead msg ⟨memory, 0, memory.length⟩) := by
  obtain ⟨hfirsts, hrest⟩ := List.pairwise_cons.1 hone
  have hone' := List.pairwise_map.1 hrest
  have hsize' : memory.length < 2 ^ 63 := by
    unfold intMax at hsize
    omega
  have hpos := hline.pos
  have hlen := snprintfLen_of_le hshort
  rw [putHead_eq hfirst]
  by_cases hhuge : first.Huge
  · have hstep := (at_start hsize).putBytes hsize' (le_refl _) (by omega) first.estimate
      (length_snprintf_le memory.length first.str) (snprintfLen first.str)
    refine hstep.bind fun next k hlo hhi hnext => ?_
    have hsmall : ∀ hd ∈ msg.headers, ¬ hd.part.Huge :=
      fun hd hmem hhuge' => hfirsts hd.part (List.mem_map_of_mem hmem) ⟨hhuge, hhuge'⟩
    have hrest := putHeaders_small hsize hsmall hnext (by omega) (by omega)
    exact hrest.bind fun last k' hlo' hhi' hlast => hlast.putHeadersEnd hsize hlo' hhi'
  · have hstep := (at_start hsize).putBytes_small hsize (le_refl _) (by omega) (not_lt.1 hhuge)
      (fun _ => length_snprintf_le memory.length first.str) (snprintfLen first.str)
    have hle := hline.length_le
    refine hstep.bind fun next k hlo hhi hnext => ?_
    have hrest := putHeaders_stays hsize hone' hnext (by omega) (by omega)
    exact hrest.bind fun last k' hlo' hhi' hlast => hlast.putHeadersEnd hsize hlo' hhi'

/-- Behind a first line that is too long the next part is put in front of the buffer. -/
theorem putHead_long (hsize : memory.length ≤ intMax) (hlong : intMax < first.str.length) {parts : List Part}
    (hparts : msg.headParts = some parts) :
    putHead msg ⟨memory, 0, memory.length⟩ = .error .crash ∧ Passes memory.length (parts.take 2) ∨
      ∃ memory', putHead msg ⟨memory, 0, memory.length⟩ = .error (.noRoom memory') ∧
        memory'.length = memory.length ∧ ¬ Passes memory.length (parts.take 2) := by
  have hsize' : memory.length < 2 ^ 63 := by
    unfold intMax at hsize
    omega
  rw [HttpMsg.headParts, hfirst, Option.map_some, Option.some_inj] at hparts
  rw [putHead_eq hfirst, putText_eq, ← hparts, List.take_succ_cons, snprintfLen_of_lt hlong]
  have hstep := (at_start hsize).putBytes hsize' (le_refl _) (by omega) first.estimate
    (length_snprintf_le memory.length first.str) (-1)
  have hputs := puts_putBytes first ⟨memory, 0, memory.length⟩
  rw [print_first hfirst, snprintfLen_of_lt hlong] at hputs
  cases hput : putBytes first.estimate (snprintf memory.length first.str) (-1) ⟨memory, 0, memory.length⟩ with
  | error stop =>
    cases stop with
    | crash => exact absurd hput hstep.noCrash
    | noRoom memory' =>
      have hstops := hputs.noRoom memory' hput
      rw [passes_cons] at hstops
      refine Or.inr ⟨memory', rfl, hstep.noRoom memory' hput, fun hpasses => ?_⟩
      exact hstops ⟨(passes_cons.1 hpasses).1, trivial⟩
  | ok next =>
    obtain ⟨k, hlo, hhi, hnext⟩ := hstep.ok next hput
    have hk : k = -1 := by omega
    rw [hk] at hnext
    obtain ⟨htest, -, -, hleft⟩ := hputs.ok next hput
    rw [passes_cons] at htest
    rw [List.foldl_cons, List.foldl_nil] at hleft
    -- the offset is the largest `size_t` now
    rw [passes_cons, and_iff_right htest.1, ← hleft, ok_bind]
    exact hnext.rest_before hsize'

end Head

/-! ## Messages -/

/-- The messages that are made for a request or a response. -/
inductive HttpMsg.Made : HttpMsg → Prop where
  | request (method uri version : CString) : Made (httpMsgNewRequest method uri version)
  | response (version : CString) (status : UInt32) (reason : CString) : Made (httpMsgNewResponse version status reason)
  | addHeader {msg : HttpMsg} (h : Made msg) (header : HttpHeader) : Made (httpMsgAddHeader msg header)
  | appendBody {msg : HttpMsg} (h : Made msg) (chunk : Bytes) : Made (httpMsgAppendBody msg chunk)

/-- The body up to its first NUL. -/
def HttpMsg.bodyStr (msg : HttpMsg) : Bytes := (msg.body.map fun body => (xstrdup body).bytes).getD []

/-- The text that is printed of a message. -/
def HttpMsg.printed (msg : HttpMsg) : Bytes := messageText msg.firstLine msg.headers msg.bodyStr

/-- The lengths of all strings of the message. -/
def HttpMsg.strlens (msg : HttpMsg) : Nat :=
  let len (s : Option CString) := (s.map strlen).getD 0
  len msg.method + len msg.uri + len msg.version + len msg.reason +
    (msg.headers.map fun h => strlen h.name + len h.value).sum + msg.bodyStr.length

theorem HttpMsg.Made.firstPart {msg : HttpMsg} (h : msg.Made) : ∃ first, msg.firstPart = some first := by
  induction h with
  | request method uri version => exact ⟨_, rfl⟩
  | response version status reason => exact ⟨_, rfl⟩
  | addHeader _ _ ih => exact ih
  | appendBody _ _ ih => exact ih

theorem length_formatUnsigned_le (status : UInt32) : (formatUnsigned status.toNat).length ≤ 10 := by
  unfold formatUnsigned
  split
  · decide
  · rw [List.length_map, List.length_reverse, Nat.digits_length_le_iff (by norm_num)]
    have hlt := status.toNat_lt
    omega

theorem isFirst_requestPart (method uri version : CString) : (requestPart method uri version).IsFirst := by
  constructor
  · exact List.length_pos_of_mem
      (List.mem_append_right _ (List.mem_cons_self ..) : 0x20 ∈ requestLine method uri version)
  · have hfmt : httpReqLineFmt.length = 10 := rfl
    have hend : httpLineEnd.length = 2 := rfl
    simp only [requestPart, requestLine, strlen, List.length_append, List.length_cons, hfmt, hend]
    omega

theorem isFirst_responsePart (version : CString) (status : UInt32) (reason : CString) :
    (responsePart version status reason).IsFirst := by
  constructor
  · exact List.length_pos_of_mem
      (List.mem_append_right _ (List.mem_cons_self ..) : 0x20 ∈ responseLine version status reason)
  · have hfmt : httpRespLineFmt.length = 10 := rfl
    have hend : httpLineEnd.length = 2 := rfl
    have hstatus := length_formatUnsigned_le status
    simp only [responsePart, responseLine, strlen, List.length_append, List.length_cons, hfmt, hend]
    omega

/-- The first line is what is printed first, and what is taken for its length counts its strings. -/
theorem firstPart_spec {msg : HttpMsg} {first : Part} (h : msg.firstPart = some first) :
    first.str = msg.firstLine ++ httpLineEnd ∧ first.IsFirst ∧
      first.estimate ≤ (msg.method.map strlen).getD 0 + (msg.uri.map strlen).getD 0 +
        (msg.version.map strlen).getD 0 + (msg.reason.map strlen).getD 0 + 13 := by
  unfold HttpMsg.firstPart at h
  split at h
  · rename_i method uri hmethod huri
    obtain ⟨version, hversion, rfl⟩ := Option.map_eq_some_iff.1 h
    refine ⟨?_, isFirst_requestPart method uri version, ?_⟩
    · simp [requestPart, requestLine, HttpMsg.firstLine, hmethod, huri, hversion]
    · have hfmt : httpReqLineFmt.length = 10 := rfl
      simp only [requestPart, hmethod, huri, hversion, hfmt, Option.map_some, Option.getD_some]
      omega
  · rename_i hnot
    split at h
    · rename_i version reason hversion hreason
      cases h
      have hrequest : (msg.method.isSome && msg.uri.isSome) = false := by
        cases hmethod : msg.method with
        | none => rfl
        | some method =>
          cases huri : msg.uri with
          | none => rfl
          | some uri => exact absurd huri (hnot method uri hmethod)
      refine ⟨?_, isFirst_responsePart version msg.status reason, ?_⟩
      · simp [responsePart, responseLine, HttpMsg.firstLine, hrequest, hversion, hreason]
      · have hfmt : httpRespLineFmt.length = 10 := rfl
        simp only [responsePart, hversion, hreason, hfmt, Option.map_some, Option.getD_some]
        omega
    · cases h

theorem bodyPart_str (body : Bytes) : (bodyPart (body ++ [0])).str = (xstrdup body).bytes := by
  by_cases hnul : 0 ∈ body
  · exact xstrdup_append hnul [0]
  · have hbody : (xstrdup (body ++ [])).bytes = body := bytes_xstrdup hnul 0
    rw [List.append_nil] at hbody
    rw [hbody]
    exact bytes_xstrdup hnul 1

/-- At most one of the parts in front of the body is too long. -/
theorem pairwise_not_huge {ps : List Part} (h : (ps.map fun p => p.estimate - 13).sum ≤ intMax) :
    ps.Pairwise fun p q => ¬ (p.Huge ∧ q.Huge) := by
  induction ps with
  | nil => exact List.Pairwise.nil
  | cons p ps ih =>
    rw [List.map_cons, List.sum_cons] at h
    refine List.pairwise_cons.2 ⟨?_, ih (by omega)⟩
    rintro q hmem ⟨hp, hq⟩
    have hle : q.estimate - 13 ≤ (ps.map fun p => p.estimate - 13).sum :=
      List.single_le_sum (fun _ _ => Nat.zero_le _) _ (List.mem_map_of_mem hmem)
    unfold Part.Huge intMax at *
    omega

theorem headParts_pairwise {msg : HttpMsg} {first : Part} (hfirst : msg.firstPart = some first)
    (hsum : msg.strlens ≤ intMax) :
    (first :: msg.headers.map HttpHeader.part).Pairwise fun p q => ¬ (p.Huge ∧ q.Huge) := by
  have hestimate := (firstPart_spec hfirst).2.2
  have hheaders : ((msg.headers.map HttpHeader.part).map fun p => p.estimate - 13).sum ≤
      (msg.headers.map fun h => strlen h.name + (h.value.map strlen).getD 0).sum := by
    rw [List.map_map]
    refine List.sum_le_sum fun h hmem => ?_
    have hlen : h.valueText.length = (h.value.map strlen).getD 0 := by
      rw [HttpHeader.valueText]
      cases h.value <;> rfl
    have hfmt : httpHeaderLineFmt.length = 8 := rfl
    simp only [Function.comp_apply, HttpHeader.part, hlen, hfmt]
    omega
  unfold HttpMsg.strlens at hsum
  apply pairwise_not_huge
  rw [List.map_cons, List.sum_cons]
  simp only at hsum
  omega

/-! ## The result -/

/-- The serialization writes only inside of the buffer, and its result is -1 or the length of the text, which is
then at the front of the buffer with room behind it. -/
def HttpMsg.Serializes (msg : HttpMsg) (buffer : CharBuffer) : Prop :=
  ∃ ret msg' memory, httpMsgSerialize msg buffer = some (ret, msg', memory) ∧ memory.length = buffer.bytes.length ∧
    (ret = -1 ∨ ∃ r : Nat, ret = r ∧ r < buffer.bytes.length ∧ memory.take r = msg.printed)

/-- The first line has no length of the type `int`, and the part behind it gets through. -/
def HttpMsg.StartsLong (msg : HttpMsg) (size : Nat) : Prop :=
  intMax < (msg.firstLine ++ httpLineEnd).length ∧ ∃ parts, msg.headParts = some parts ∧ Passes size (parts.take 2)

/-- The text is too long for the buffer, but all parts get through, one of them with a length that has wrapped
around. -/
def HttpMsg.RunsOver (msg : HttpMsg) (size : Nat) : Prop :=
  size ≤ msg.printed.length ∧ ∃ parts, msg.headParts = some parts ∧ Passes size (parts ++ msg.bodyParts) ∧
    ∃ p ∈ parts ++ msg.bodyParts, p.Huge

theorem cInt_ne_neg_one {x : Int} (hlo : 0 ≤ x) (hhi : x ≤ 2 ^ 32 - 2) : cInt x ≠ -1 := by
  unfold cInt
  rw [Int.bmod_eq_emod]
  split <;> omega

theorem serializes_of_noRoom {msg m : HttpMsg} {buffer : CharBuffer} {memory : Bytes}
    (h : httpMsgSerialize msg buffer = serialized m (.error (.noRoom memory)))
    (hmemory : memory.length = buffer.bytes.length) : msg.Serializes buffer :=
  ⟨-1, m, memory, h, hmemory, Or.inl rfl⟩

theorem serializes_iff_of_ok {msg m : HttpMsg} {buffer : CharBuffer} {out : Output} {k : Int}
    (h : httpMsgSerialize msg buffer = serialized m (.ok out)) (hat : out.At buffer.bytes.length k)
    (hsize : buffer.bytes.length ≤ intMax) (hlo : 0 ≤ k) (hhi : k ≤ buffer.bytes.length + intMax)
    (hholds : msg.printed.length < buffer.bytes.length → out.Holds buffer.bytes.length msg.printed) :
    msg.Serializes buffer ↔ msg.printed.length < buffer.bytes.length := by
  constructor
  · rintro ⟨ret, msg', memory, hret, hmemory, hresult⟩
    rw [h, serialized] at hret
    obtain ⟨hoffset, -⟩ := Prod.mk.inj (Option.some.inj hret)
    rw [hat.offset, cInt_sizeT] at hoffset
    unfold intMax at hsize hhi
    rcases hresult with hfailed | ⟨r, hr⟩
    · -- no offset up to here is the -1 of an `int`
      exact absurd (hoffset.trans hfailed) (cInt_ne_neg_one hlo (by omega))
    · have hlen := congrArg List.length hr.2.2
      rw [List.length_take] at hlen
      omega
  · intro hlt
    obtain ⟨hmemory, hoffset, -, hfront⟩ := hholds hlt
    have hret : cInt out.offset = msg.printed.length := by
      rw [hoffset]
      exact cInt_of_le (by omega)
    exact ⟨cInt out.offset, m, out.memory, h, hmemory, Or.inr ⟨msg.printed.length, hret, hlt, hfront⟩⟩

theorem passes_take {left n : Nat} {ps : List Part} (h : Passes left ps) : Passes left (ps.take n) := by
  rw [← List.take_append_drop n ps] at h
  exact (passes_append.1 h).1

section Short

variable {msg : HttpMsg} {first : Part} {buffer : CharBuffer} (hfirst : msg.firstPart = some first)
  (hsize : buffer.bytes.length ≤ intMax) (hsum : msg.strlens ≤ intMax) (hshort : first.str.length ≤ intMax)
include hfirst hsize hsum hshort

theorem putHead_between : Stays buffer.bytes.length 2 (buffer.bytes.length - 1)
    (putHead msg ⟨buffer.bytes, 0, buffer.bytes.length⟩) :=
  putHead_stays hfirst (firstPart_spec hfirst).2.1 hsize hshort (headParts_pairwise hfirst hsum)

theorem putMsg_between : Stays buffer.bytes.length 2 (buffer.bytes.length + intMax)
    (putMsg msg ⟨buffer.bytes, 0, buffer.bytes.length⟩) := by
  have hsize' : buffer.bytes.length < 2 ^ 63 := buffer.small
  refine (putHead_between hfirst hsize hsum hshort).bind fun next k hlo hhi hnext => ?_
  cases hbody : msg.body with
  | none => exact stays_ok hnext hlo (by omega)
  | some body =>
    have hstr : (bodyPart (body ++ [0])).str.length ≤ intMax := by
      rw [bodyPart_str]
      simp only [HttpMsg.strlens, HttpMsg.bodyStr, hbody, Option.map_some, Option.getD_some] at hsum
      omega
    have hstep := hnext.putBytes hsize' (by omega) (by omega) (bodyPart (body ++ [0])).estimate
      (length_snprintf_le next.left (bodyPart (body ++ [0])).str) (snprintfLen (bodyPart (body ++ [0])).str)
    rw [← putText_eq, ← putBody_eq, snprintfLen_of_le hstr] at hstep
    exact hstep.mono (by omega) (by omega)

/-- What has been put if all parts have got through. -/
theorem putMsg_ok {out : Output} (hput : putMsg msg ⟨buffer.bytes, 0, buffer.bytes.length⟩ = .ok out)
    (hint : ∀ h ∈ msg.headers, h.line.length ≤ intMax) :
    ∃ head, head.Holds buffer.bytes.length (messageText msg.firstLine msg.headers []) ∧
      (messageText msg.firstLine msg.headers []).length < buffer.bytes.length ∧
      (msg.body = none ∧ out = head ∨ ∃ body, msg.body = some body ∧ putBody (body ++ [0]) head = .ok out) := by
  obtain ⟨head, hhead, hrest⟩ := exists_of_bind_eq_ok hput
  have hline : ∀ out, putFirstLine msg out = putText first.estimate (msg.firstLine ++ httpLineEnd) out := by
    intro out
    rw [putFirstLine_eq hfirst, (firstPart_spec hfirst).1]
  have hholds := putHead_ok hline hhead hint
  obtain ⟨k, hlo, hhi, hat⟩ := (putHead_between hfirst hsize hsum hshort).ok head hhead
  have hoffset := hat.offset_eq buffer.small (by omega) (by omega)
  rw [hholds.offset] at hoffset
  refine ⟨head, hholds, by omega, ?_⟩
  cases hbody : msg.body with
  | none =>
    rw [hbody] at hrest
    exact Or.inl ⟨rfl, (Except.ok.inj hrest).symm⟩
  | some body =>
    rw [hbody] at hrest
    exact Or.inr ⟨body, rfl, hrest⟩

theorem putMsg_holds {out : Output} (hput : putMsg msg ⟨buffer.bytes, 0, buffer.bytes.length⟩ = .ok out)
    (hlt : msg.printed.length < buffer.bytes.length) : out.Holds buffer.bytes.length msg.printed := by
  have hint : ∀ h ∈ msg.headers, h.line.length ≤ intMax := fun h hmem => by
    have hle := length_line_le hmem msg.firstLine msg.bodyStr
    exact (hle.trans (le_of_lt hlt)).trans hsize
  obtain ⟨head, hholds, hfits, hbody⟩ := putMsg_ok hfirst hsize hsum hshort hput hint
  have hprinted := messageText_eq msg.firstLine msg.headers msg.bodyStr
  rw [HttpMsg.printed] at hlt ⊢
  rw [hprinted] at hlt ⊢
  rcases hbody with ⟨hnone, rfl⟩ | ⟨body, hsome, hput⟩
  · rw [HttpMsg.bodyStr, hnone, Option.map_none, Option.getD_none, List.append_nil]
    exact hholds
  · have hstr : msg.bodyStr = (bodyPart (body ++ [0])).str := by
      rw [bodyPart_str, HttpMsg.bodyStr, hsome, Option.map_some, Option.getD_some]
    rw [hstr, List.length_append] at hlt
    rw [hstr]
    have hleft := hholds.left
    rw [hholds.offset] at hleft
    exact hholds.putText buffer.small hput (by omega) (by omega)

/-- Without a length that wraps around the text fits as soon as all parts get through. -/
theorem length_printed_lt {out : Output} (hput : putMsg msg ⟨buffer.bytes, 0, buffer.bytes.length⟩ = .ok out)
    (hsmall : ∀ p ∈ first :: (msg.headers.map HttpHeader.part ++ [endPart]) ++ msg.bodyParts, ¬ p.Huge) :
    msg.printed.length < buffer.bytes.length := by
  have hint : ∀ h ∈ msg.headers, h.line.length ≤ intMax := by
    intro h hmem
    have hhead : h.part ∈ first :: (msg.headers.map HttpHeader.part ++ [endPart]) :=
      List.mem_cons_of_mem _ (List.mem_append_left _ (List.mem_map_of_mem hmem))
    have hpart := not_lt.1 (hsmall h.part (List.mem_append_left _ hhead))
    rw [h.estimate_part] at hpart
    have hle : h.part.str.length ≤ intMax := by omega
    exact hle
  obtain ⟨head, hholds, hfits, hbody⟩ := putMsg_ok hfirst hsize hsum hshort hput hint
  rw [HttpMsg.printed, messageText_eq, List.length_append]
  rcases hbody with ⟨hnone, -⟩ | ⟨body, hsome, hput⟩
  · rw [HttpMsg.bodyStr, hnone, Option.map_none, Option.getD_none, List.length_nil]
    omega
  · have hpart : bodyPart (body ++ [0]) ∈ msg.bodyParts := by
      rw [HttpMsg.bodyParts, hsome]
      exact List.mem_singleton_self _
    have hestimate := not_lt.1 (hsmall _ (List.mem_append_right _ hpart))
    have hlen : (bodyPart (body ++ [0])).estimate = body.length + 3 := by
      have hfmt : httpBodyFmt.length = 2 := rfl
      simp only [bodyPart, List.length_append, List.length_singleton, hfmt]
      omega
    have hstr : msg.bodyStr.length ≤ body.length := by
      rw [HttpMsg.bodyStr, hsome]
      exact length_xstrdup body
    have hleft := hholds.left
    rw [hholds.offset] at hleft
    -- the test in front of the body
    rw [putBody_eq] at hput
    have htest := (putText_ok hput).1
    rw [cInt_of_le hestimate, cInt_of_le (by omega), hlen] at htest
    omega

end Short

theorem not_serializes_of_crash {msg m : HttpMsg} {buffer : CharBuffer}
    (h : httpMsgSerialize msg buffer = serialized m (.error .crash)) : ¬ msg.Serializes buffer := by
  rintro ⟨ret, msg', memory, hret, -⟩
  rw [h, serialized] at hret
  cases hret

/-- Behind a first line that is too long the next part must not get through. -/
theorem serializes_iff_of_long {msg : HttpMsg} {first : Part} {parts : List Part} {buffer : CharBuffer}
    (hfirst : msg.firstPart = some first) (hparts : msg.headParts = some parts)
    (hsize : buffer.bytes.length ≤ intMax) (hlong : intMax < first.str.length) :
    msg.Serializes buffer ↔ ¬ Passes buffer.bytes.length (parts.take 2) := by
  obtain ⟨m, hserialize⟩ := httpMsgSerialize_eq msg buffer
  rw [putMsg] at hserialize
  rcases putHead_long hfirst hsize hlong hparts with ⟨hhead, hpasses⟩ | ⟨memory, hhead, hmemory, hstops⟩
  · rw [hhead] at hserialize
    exact iff_of_false (not_serializes_of_crash hserialize) (not_not.2 hpasses)
  · rw [hhead] at hserialize
    exact iff_of_true (serializes_of_noRoom hserialize hmemory) hstops

/-- For all messages that are made for a request or a response, and all buffers below 2^31 bytes, with lengths of
all strings that sum up to less than 2^31: the serialization writes inside of the buffer, and returns -1 or has put
the whole text there, if and only if the first line does not start too long and the text does not run over. -/
theorem serializes_iff {msg : HttpMsg} (hmade : msg.Made) {buffer : CharBuffer} (hsize : buffer.bytes.length < 2 ^ 31)
    (hsum : msg.strlens < 2 ^ 31) :
    msg.Serializes buffer ↔ ¬ msg.StartsLong buffer.bytes.length ∧ ¬ msg.RunsOver buffer.bytes.length := by
  obtain ⟨first, hfirst⟩ := hmade.firstPart
  have hsize' : buffer.bytes.length ≤ intMax := Nat.le_sub_one_of_lt hsize
  have hsum' : msg.strlens ≤ intMax := Nat.le_sub_one_of_lt hsum
  have hparts : msg.headParts = some (first :: (msg.headers.map HttpHeader.part ++ [endPart])) := by
    rw [HttpMsg.headParts, hfirst, Option.map_some]
  generalize hall : first :: (msg.headers.map HttpHeader.part ++ [endPart]) = parts at hparts
  have hline := (firstPart_spec hfirst).1
  have hstarts : msg.StartsLong buffer.bytes.length ↔
      intMax < first.str.length ∧ Passes buffer.bytes.length (parts.take 2) := by
    rw [HttpMsg.StartsLong, hline, hparts]
    simp
  have hruns : msg.RunsOver buffer.bytes.length ↔ buffer.bytes.length ≤ msg.printed.length ∧
      Passes buffer.bytes.length (parts ++ msg.bodyParts) ∧ ∃ p ∈ parts ++ msg.bodyParts, p.Huge := by
    rw [HttpMsg.RunsOver, hparts]
    simp
  -- `snprintf` fails for a first line that is too long
  rcases Nat.lt_or_ge intMax first.str.length with hlong | hshort
  · rw [hstarts, hruns, serializes_iff_of_long hfirst hparts hsize' hlong]
    constructor
    · intro hstops
      exact ⟨fun h => hstops h.2, fun h => hstops (passes_take (passes_append.1 h.2.1).1)⟩
    · rintro ⟨hnot, -⟩ hpasses
      exact hnot ⟨hlong, hpasses⟩
  · obtain ⟨m, hserialize⟩ := httpMsgSerialize_eq msg buffer
    have hputs := puts_putMsg hparts ⟨buffer.bytes, 0, buffer.bytes.length⟩
    have hbetween := putMsg_between hfirst hsize' hsum' hshort
    rw [hstarts, and_iff_right (fun h => absurd h.1 (not_lt.2 hshort)), hruns]
    cases hput : putMsg msg ⟨buffer.bytes, 0, buffer.bytes.length⟩ with
    | error stop =>
      rw [hput] at hserialize
      cases stop with
      | crash => exact absurd hput hbetween.noCrash
      | noRoom memory =>
        have hstops := hputs.noRoom memory hput
        exact iff_of_true (serializes_of_noRoom hserialize (hbetween.noRoom memory hput)) fun h => hstops h.2.1
    | ok out =>
      rw [hput] at hserialize
      obtain ⟨k, hlo, hhi, hat⟩ := hbetween.ok out hput
      have hholds := putMsg_holds hfirst hsize' hsum' hshort hput
      rw [serializes_iff_of_ok hserialize hat hsize' (by omega) hhi hholds]
      have hpasses := (hputs.ok out hput).1
      constructor
      · rintro hfits ⟨hover, -⟩
        exact absurd hfits (not_lt.2 hover)
      · intro hnot
        by_contra hover
        refine hover (length_printed_lt hfirst hsize' hsum' hshort hput fun p hmem hhuge => ?_)
        rw [hall] at hmem
        exact hnot ⟨not_lt.1 hover, hpasses, p, hmem, hhuge⟩

theorem made_getRequest : (getRequest [hostHeader] (some (text "a: b"))).Made :=
  .appendBody (.addHeader (.request ⟨text "GET", by decide⟩ ⟨text "/", by decide⟩ httpVersion) hostHeader) (text "a: b")

/-- A short request. -/
theorem serializes_short : (getRequest [hostHeader] (some (text "a: b"))).Serializes zeroBuffer := by
  refine (serializes_iff made_getRequest (by decide +kernel) (by decide +kernel)).2 ⟨fun hstarts => ?_, fun hruns => ?_⟩
  · exact absurd hstarts.1 (by decide +kernel)
  · exact absurd hruns.1 (by decide +kernel)

/-- Behind a request line of 2^31 bytes the end of the headers is copied in front of the buffer. -/
theorem serializes_longUri : ¬ ∀ msg : HttpMsg, msg.Made → ∀ buffer : CharBuffer, buffer.bytes.length < 2 ^ 31 →
    msg.strlens < 2 ^ 31 → msg.Serializes buffer := by
  intro h
  obtain ⟨uri, huri⟩ : ∃ uri : CString, uri.bytes.length = 2 ^ 31 - 15 :=
    ⟨⟨List.replicate (2 ^ 31 - 15) 0x61, fun hm => absurd (List.eq_of_mem_replicate hm) (by decide)⟩,
      List.length_replicate⟩
  obtain ⟨get, hget⟩ : ∃ method : CString, method.bytes.length = 3 := ⟨⟨text "GET", by decide⟩, rfl⟩
  have hversion : httpVersion.bytes.length = 8 := rfl
  have hend : httpLineEnd.length = 2 := rfl
  have hfmt : httpReqLineFmt.length = 10 := rfl
  have hlen : (requestPart get uri httpVersion).str.length = uri.bytes.length + 15 := by
    simp only [requestPart, requestLine, List.length_append, List.length_cons, hget, hversion, hend]
    omega
  have hestimate : (requestPart get uri httpVersion).estimate = uri.bytes.length + 21 := by
    simp only [requestPart, strlen, hget, hversion, hfmt]
    omega
  have hsum : (httpMsgNewRequest get uri httpVersion).strlens = uri.bytes.length + 11 := by
    simp only [httpMsgNewRequest, httpMsgInit, HttpMsg.strlens, HttpMsg.bodyStr, strlen, Option.map_some,
      Option.map_none, Option.getD_some, Option.getD_none, List.map_nil, List.sum_nil, List.length_nil, hget, hversion]
    omega
  have hlong : intMax < (requestPart get uri httpVersion).str.length := by
    rw [hlen, huri]
    decide +kernel
  have hfirst : (httpMsgNewRequest get uri httpVersion).firstPart = some (requestPart get uri httpVersion) := rfl
  have hparts : (httpMsgNewRequest get uri httpVersion).headParts =
      some [requestPart get uri httpVersion, endPart] := rfl
  have hsize : zeroBuffer.bytes.length = 64 := rfl
  have hsmall : zeroBuffer.bytes.length ≤ intMax := by decide +kernel
  refine (serializes_iff_of_long hfirst hparts hsmall hlong).1 (h _ (.request get uri httpVersion) zeroBuffer ?_ ?_) ?_
  · decide +kernel
  · rw [hsum, huri]
    decide +kernel
  · -- what is taken for the length of the line wraps around, and the error of `snprintf` is taken off the offset
    rw [List.take_succ_cons, List.take_succ_cons, List.take_zero, passes_cons, passes_cons, hestimate, huri,
      Part.behind,
      snprintfLen_of_lt hlong, hsize]
    exact ⟨by decide +kernel, by decide +kernel, trivial⟩

end CMx
