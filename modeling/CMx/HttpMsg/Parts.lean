/-
The parts of a message that `http_msg_serialize` puts into the buffer, each behind a test of what is taken for
its length, and where they are written. What a serialization leaves of a message: one that comes as far as the
body has put a NUL behind it, and what is appended later is behind that NUL.
-/
import CMx.HttpMsg.RoundTrip

namespace CMx

open Mqtt (Bytes CString strlen)

/-! ## Parts -/

/-- A text, what is taken for its length first, and what is written of it into so much room. -/
structure Part where
  estimate : Nat
  str : Bytes
  print : Nat → Bytes := fun left => snprintf left str

def HttpHeader.part (h : HttpHeader) : Part where
  estimate := httpHeaderLineFmt.length + strlen h.name + h.valueText.length
  str := h.line

/-- The end of the headers is copied, without a NUL behind it. -/
def endPart : Part where
  estimate := httpLineEnd.length
  str := httpLineEnd
  print _ := httpLineEnd

def bodyPart (body : Bytes) : Part where
  estimate := httpBodyFmt.length + body.length
  str := (xstrdup body).bytes

def requestPart (method uri version : CString) : Part where
  estimate := httpReqLineFmt.length + strlen method + strlen uri + strlen version
  str := requestLine method uri version

def responsePart (version : CString) (status : UInt32) (reason : CString) : Part where
  estimate := httpRespLineFmt.length + strlen version + 3 + strlen reason
  str := responseLine version status reason

/-- The first line, if no string of it is missing. -/
def HttpMsg.firstPart (msg : HttpMsg) : Option Part :=
  match msg.method, msg.uri with
  | some method, some uri => msg.version.map (requestPart method uri)
  | _, _ =>
    match msg.version, msg.reason with
    | some version, some reason => some (responsePart version msg.status reason)
    | _, _ => none

/-- What is put in front of the body. -/
def HttpMsg.headParts (msg : HttpMsg) : Option (List Part) :=
  msg.firstPart.map fun first => first :: (msg.headers.map HttpHeader.part ++ [endPart])

/-- The body with a NUL behind it, if there is one. -/
def HttpMsg.bodyParts (msg : HttpMsg) : List Part := (msg.body.map fun body => bodyPart (body ++ [0])).toList

/-- What is left of the room behind a part. -/
def Part.behind (left : Nat) (p : Part) : Nat := ((left - snprintfLen p.str) % 2 ^ 64).toNat

/-- Where the next part is written. -/
def Part.next (offset : Nat) (p : Part) : Nat := ((offset + snprintfLen p.str) % 2 ^ 64).toNat

/-- The test in front of each part lets it through. -/
def Passes (left : Nat) : List Part → Prop
  | [] => True
  | p :: ps => cInt p.estimate < cInt left ∧ Passes (p.behind left) ps

/-- The parts in front of the body get through into a buffer of this size. -/
def HttpMsg.HeadPasses (msg : HttpMsg) (size : Nat) : Prop := ∃ parts, msg.headParts = some parts ∧ Passes size parts

/-- Each part that gets through is written inside of a memory of this size. -/
def WritesInside (size : Nat) : (offset left : Nat) → List Part → Prop
  | _, _, [] => True
  | offset, left, p :: ps =>
    cInt p.estimate < cInt left →
      offset + (p.print left).length ≤ size ∧ WritesInside size (p.next offset) (p.behind left) ps

/-- No string of the first line is missing, and what gets through is written inside of a buffer of this size. -/
def HttpMsg.WritesInside (msg : HttpMsg) (size : Nat) : Prop :=
  ∃ parts, msg.headParts = some parts ∧ CMx.WritesInside size 0 size (parts ++ msg.bodyParts)

theorem passes_cons {left : Nat} {p : Part} {ps : List Part} :
    Passes left (p :: ps) ↔ cInt p.estimate < cInt left ∧ Passes (p.behind left) ps := Iff.rfl

theorem passes_append : ∀ {left : Nat} {ps qs : List Part},
    Passes left (ps ++ qs) ↔ Passes left ps ∧ Passes (ps.foldl Part.behind left) qs
  | _, [], _ => by simp [Passes]
  | _, p :: ps, qs => by
    rw [List.cons_append, Passes, Passes, passes_append, and_assoc]
    rfl

theorem writesInside_append {size : Nat} {qs : List Part} : ∀ {offset left : Nat} {ps : List Part},
    WritesInside size offset left (ps ++ qs) ↔ WritesInside size offset left ps ∧
      (Passes left ps → WritesInside size (ps.foldl Part.next offset) (ps.foldl Part.behind left) qs)
  | _, _, [] => by simp [WritesInside, Passes]
  | offset, left, p :: ps => by
    rw [List.cons_append, WritesInside, WritesInside, Passes, writesInside_append, List.foldl_cons, List.foldl_cons]
    constructor
    · intro h
      exact ⟨fun hroom => ⟨(h hroom).1, (h hroom).2.1⟩, fun hpasses => (h hpasses.1).2.2 hpasses.2⟩
    · rintro ⟨hps, hqs⟩ hroom
      exact ⟨(hps hroom).1, (hps hroom).2, fun hpasses => hqs ⟨hroom, hpasses⟩⟩

/-! ## Putting the parts -/

/-- Some parts have been put behind `out`: all have got through, or one has not, without a crash if they are written
inside of the memory. -/
structure Puts (out : Output) (ps : List Part) (x : Except Stop Output) : Prop where
  ok : ∀ out', x = .ok out' → Passes out.left ps ∧ out'.memory.length = out.memory.length ∧
    out'.offset = ps.foldl Part.next out.offset ∧ out'.left = ps.foldl Part.behind out.left
  noRoom : ∀ memory, x = .error (.noRoom memory) → ¬ Passes out.left ps
  crash : x = .error .crash ↔ ¬ WritesInside out.memory.length out.offset out.left ps

theorem puts_nil (out : Output) : Puts out [] (.ok out) := by
  constructor
  · rintro out' ⟨⟩
    exact ⟨trivial, rfl, rfl, rfl⟩
  · rintro memory ⟨⟩
  · exact iff_of_false (by rintro ⟨⟩) (not_not.2 trivial)

theorem Puts.bind {out : Output} {ps qs : List Part} {x : Except Stop Output} {f : Output → Except Stop Output}
    (h : Puts out ps x) (hf : ∀ out, Puts out qs (f out)) : Puts out (ps ++ qs) (x >>= f) := by
  cases x with
  | error stop =>
    constructor
    · rintro out' ⟨⟩
    · rintro memory ⟨⟩ hpasses
      exact h.noRoom memory rfl (passes_append.1 hpasses).1
    · change Except.error stop = .error .crash ↔ _
      rw [h.crash, not_iff_not, writesInside_append]
      refine ⟨fun hinside => ⟨hinside, fun hpasses => ?_⟩, And.left⟩
      cases stop with
      | crash => exact absurd hinside (h.crash.1 rfl)
      | noRoom memory => exact absurd hpasses (h.noRoom memory rfl)
  | ok next =>
    obtain ⟨hpasses, hmemory, hoffset, hleft⟩ := h.ok next rfl
    obtain ⟨hok, hnoRoom, hcrash⟩ := hf next
    rw [hmemory, hoffset, hleft] at hok hcrash
    rw [hleft] at hnoRoom
    -- the first parts have got through, so the others go on from where these end
    have hinside : WritesInside out.memory.length out.offset out.left ps := by
      by_contra hnot
      cases h.crash.2 hnot
    constructor
    · intro out' hout'
      obtain ⟨hpasses', hmemory', hoffset', hleft'⟩ := hok out' hout'
      rw [List.foldl_append, List.foldl_append]
      exact ⟨passes_append.2 ⟨hpasses, hpasses'⟩, hmemory', hoffset', hleft'⟩
    · intro memory hnone hall
      exact hnoRoom memory hnone (passes_append.1 hall).2
    · rw [ok_bind, hcrash, not_iff_not, writesInside_append]
      exact ⟨fun hqs => ⟨hinside, fun _ => hqs⟩, fun hall => hall.2 hpasses⟩

theorem puts_putBytes (p : Part) (out : Output) :
    Puts out [p] (putBytes p.estimate (p.print out.left) (snprintfLen p.str) out) := by
  rcases putBytes_cases p.estimate (p.print out.left) (snprintfLen p.str) out with
    ⟨hfull, hput⟩ | ⟨hroom, houtside, hput⟩ | ⟨hroom, hwrite, hput⟩
  · rw [hput]
    constructor
    · rintro out' ⟨⟩
    · rintro memory - hpasses
      exact absurd hpasses.1 (not_lt.2 hfull)
    · exact iff_of_false (by rintro ⟨⟩) (not_not.2 fun hroom => absurd hroom (not_lt.2 hfull))
  · rw [hput]
    constructor
    · rintro out' ⟨⟩
    · rintro memory ⟨⟩
    · exact iff_of_true rfl fun hinside => absurd (hinside hroom).1 (not_le.2 houtside)
  · rw [hput]
    constructor
    · rintro out' ⟨⟩
      exact ⟨⟨hroom, trivial⟩, length_overwrite .., rfl, rfl⟩
    · rintro memory ⟨⟩
    · exact iff_of_false (by rintro ⟨⟩) (not_not.2 fun _ => ⟨hwrite, trivial⟩)

theorem putHeaders_cons (h : HttpHeader) (headers : List HttpHeader) (out : Output) :
    putHeaders (h :: headers) out = putText h.part.estimate h.part.str out >>= putHeaders headers := by
  rw [putHeaders]
  unfold HttpHeader.part
  rfl

theorem puts_putHeaders (headers : List HttpHeader) (out : Output) :
    Puts out (headers.map HttpHeader.part) (putHeaders headers out) := by
  induction headers generalizing out with
  | nil => exact puts_nil out
  | cons h headers ih =>
    rw [putHeaders_cons, List.map_cons, ← List.singleton_append]
    exact (puts_putBytes h.part out).bind ih

theorem putFirstLine_eq {msg : HttpMsg} {first : Part} (h : msg.firstPart = some first) (out : Output) :
    putFirstLine msg out = putText first.estimate first.str out := by
  obtain ⟨method, uri, version, status, reason, headers, body⟩ := msg
  rcases method with _ | method <;> rcases uri with _ | uri <;> rcases version with _ | version <;>
    rcases reason with _ | reason <;> cases h <;> rfl

theorem putFirstLine_crash {msg : HttpMsg} (h : msg.firstPart = none) (out : Output) :
    putFirstLine msg out = .error .crash := by
  obtain ⟨method, uri, version, status, reason, headers, body⟩ := msg
  rcases method with _ | method <;> rcases uri with _ | uri <;> rcases version with _ | version <;>
    rcases reason with _ | reason <;> cases h <;> rfl

theorem print_first {msg : HttpMsg} {first : Part} (h : msg.firstPart = some first) (left : Nat) :
    first.print left = snprintf left first.str := by
  obtain ⟨method, uri, version, status, reason, headers, body⟩ := msg
  rcases method with _ | method <;> rcases uri with _ | uri <;> rcases version with _ | version <;>
    rcases reason with _ | reason <;> cases h <;> rfl

theorem putHead_eq {msg : HttpMsg} {first : Part} (h : msg.firstPart = some first) (out : Output) :
    putHead msg out =
      putText first.estimate first.str out >>= fun out => putHeaders msg.headers out >>= putHeadersEnd := by
  rw [← putFirstLine_eq h]
  rfl

theorem puts_putHead {msg : HttpMsg} {parts : List Part} (h : msg.headParts = some parts) (out : Output) :
    Puts out parts (putHead msg out) := by
  obtain ⟨first, hfirst, rfl⟩ := Option.map_eq_some_iff.1 h
  rw [putHead_eq hfirst, ← List.singleton_append, putText_eq, ← print_first hfirst]
  refine (puts_putBytes first out).bind fun next => ?_
  refine (puts_putHeaders msg.headers next).bind fun last => ?_
  exact puts_putBytes endPart last

/-- The parts in front of the body have been put, so they have got through. -/
theorem headPasses_of_ok {msg : HttpMsg} {size : Nat} {memory : Bytes} {out : Output}
    (h : putHead msg ⟨memory, 0, size⟩ = .ok out) : msg.HeadPasses size := by
  cases hparts : msg.headParts with
  | none =>
    obtain ⟨first, hfirst, -⟩ := exists_of_bind_eq_ok h
    rw [putFirstLine_crash (Option.map_eq_none_iff.1 hparts)] at hfirst
    cases hfirst
  | some parts => exact ⟨parts, hparts, ((puts_putHead hparts _).ok out h).1⟩

theorem not_headPasses_of_noRoom {msg : HttpMsg} {size : Nat} {memory memory' : Bytes}
    (h : putHead msg ⟨memory, 0, size⟩ = .error (.noRoom memory')) : ¬ msg.HeadPasses size := by
  rintro ⟨parts, hparts, hpasses⟩
  exact (puts_putHead hparts _).noRoom memory' h hpasses

/-- All that is put. -/
def putMsg (msg : HttpMsg) (out : Output) : Except Stop Output := do
  let out ← putHead msg out
  match msg.body with
  | none => return out
  | some body => putBody (body ++ [0]) out

theorem httpMsgSerialize_eq (msg : HttpMsg) (buffer : CharBuffer) :
    ∃ m, httpMsgSerialize msg buffer = serialized m (putMsg msg ⟨buffer.bytes, 0, buffer.bytes.length⟩) := by
  unfold httpMsgSerialize putMsg
  cases hhead : putHead msg ⟨buffer.bytes, 0, buffer.bytes.length⟩ with
  | error stop => exact ⟨msg, rfl⟩
  | ok out =>
    rw [ok_bind]
    cases hbody : msg.body with
    | none => exact ⟨msg, rfl⟩
    | some body => exact ⟨httpMsgAppendBody msg [0], rfl⟩

theorem putBody_eq (body : Bytes) (out : Output) :
    putBody body out = putText (bodyPart body).estimate (bodyPart body).str out := rfl

theorem puts_putMsg {msg : HttpMsg} {parts : List Part} (h : msg.headParts = some parts) (out : Output) :
    Puts out (parts ++ msg.bodyParts) (putMsg msg out) := by
  refine (puts_putHead h out).bind fun next => ?_
  unfold HttpMsg.bodyParts
  cases msg.body with
  | none => exact puts_nil next
  | some body =>
    simp only [Option.map_some, Option.toList_some]
    exact puts_putBytes (bodyPart (body ++ [0])) next

/-! ## When a serialization returns -/

theorem serialized_isSome_iff {msg : HttpMsg} {x : Except Stop Output} :
    (serialized msg x).isSome ↔ x ≠ .error .crash := by
  cases x with
  | ok out => exact iff_of_true rfl (by rintro ⟨⟩)
  | error stop =>
    cases stop with
    | noRoom memory => exact iff_of_true rfl (by rintro ⟨⟩)
    | crash => exact iff_of_false Bool.false_ne_true (not_not.2 rfl)

/-- It does if no string is missing, and what gets through is written inside of the buffer. -/
theorem httpMsgSerialize_isSome_iff {msg : HttpMsg} {buffer : CharBuffer} :
    (httpMsgSerialize msg buffer).isSome ↔ msg.WritesInside buffer.bytes.length := by
  obtain ⟨m, hserialize⟩ := httpMsgSerialize_eq msg buffer
  rw [hserialize, serialized_isSome_iff]
  cases hparts : msg.headParts with
  | none =>
    have hcrash : putMsg msg ⟨buffer.bytes, 0, buffer.bytes.length⟩ = .error .crash := by
      rw [putMsg, putHead, putFirstLine_crash (Option.map_eq_none_iff.1 hparts)]
      rfl
    refine iff_of_false (not_not.2 hcrash) ?_
    rintro ⟨parts, hsome, -⟩
    cases hparts.symm.trans hsome
  | some parts =>
    rw [ne_eq, (puts_putMsg hparts ⟨buffer.bytes, 0, buffer.bytes.length⟩).crash, not_not]
    constructor
    · exact fun hinside => ⟨parts, hparts, hinside⟩
    · rintro ⟨parts', hsome, hinside⟩
      cases hparts.symm.trans hsome
      exact hinside

/-! ## What a serialization leaves of the message -/

/-- The calls on a message. -/
inductive HttpMsgOp where
  | appendBody (chunk : Bytes)
  | serialize (buffer : CharBuffer)

/-- The output is what is put in front of the body, and behind it these bytes. -/
def HttpMsg.OutputsBody (msg : HttpMsg) (buffer : CharBuffer) (body : Bytes) (ret : Int) (memory : Bytes) : Prop :=
  ∃ head msg' front, httpMsgSerialize { msg with body := none } buffer = some (head, msg', front) ∧ 0 ≤ head ∧
    memory.take ret.toNat = front.take head.toNat ++ body

/-- Along the calls every serialization leaves the message as it is, and has the chunks up to then as the body
of its output if it succeeds. -/
def HttpMsg.Unchanged (msg : HttpMsg) (chunks : Bytes) : List HttpMsgOp → Prop
  | [] => True
  | .appendBody chunk :: ops => (httpMsgAppendBody msg chunk).Unchanged (chunks ++ chunk) ops
  | .serialize buffer :: ops =>
    match httpMsgSerialize msg buffer with
    | none => True
    | some (ret, msg', memory) =>
      (msg' = msg ∧ (0 ≤ ret → msg.OutputsBody buffer chunks ret memory)) ∧ msg'.Unchanged chunks ops

/-- Along the calls every serialization that writes inside of its buffer finds no body in the message, or does not
come as far as the body. -/
def HttpMsg.BodyUntouched (msg : HttpMsg) : List HttpMsgOp → Prop
  | [] => True
  | .appendBody chunk :: ops => (httpMsgAppendBody msg chunk).BodyUntouched ops
  | .serialize buffer :: ops =>
    msg.WritesInside buffer.bytes.length →
      (msg.body = none ∨ ¬ msg.HeadPasses buffer.bytes.length) ∧ msg.BodyUntouched ops

theorem httpMsgAppendBody_ne {msg : HttpMsg} {body chunk : Bytes} (hbody : msg.body = some body) (h : chunk ≠ []) :
    httpMsgAppendBody msg chunk ≠ msg := by
  intro heq
  have hlonger : some (msg.body.getD [] ++ chunk) = msg.body := congrArg HttpMsg.body heq
  rw [hbody, Option.getD_some, Option.some_inj] at hlonger
  exact h (List.append_right_eq_self.1 hlonger)

theorem serialized_msg {msg msg' : HttpMsg} {x : Except Stop Output} {ret : Int} {memory : Bytes}
    (h : serialized msg x = some (ret, msg', memory)) : msg' = msg := by
  cases x with
  | ok out =>
    obtain ⟨-, hrest⟩ := Prod.mk.inj (Option.some.inj h)
    exact (Prod.mk.inj hrest).1.symm
  | error stop =>
    cases stop with
    | crash => cases h
    | noRoom memory' =>
      obtain ⟨-, hrest⟩ := Prod.mk.inj (Option.some.inj h)
      exact (Prod.mk.inj hrest).1.symm

/-- What a serialization leaves: it changes a message with a body as soon as the parts in front get through. -/
theorem serialize_unchanged_iff {msg msg' : HttpMsg} {buffer : CharBuffer} {ret : Int} {memory : Bytes}
    (h : httpMsgSerialize msg buffer = some (ret, msg', memory)) :
    (msg' = msg ∧ (0 ≤ ret → msg.OutputsBody buffer (msg.body.getD []) ret memory)) ↔
      msg.body = none ∨ ¬ msg.HeadPasses buffer.bytes.length := by
  have hret := h
  unfold httpMsgSerialize at h
  cases hhead : putHead msg ⟨buffer.bytes, 0, buffer.bytes.length⟩ with
  | error stop =>
    simp only [hhead] at h
    cases stop with
    | crash => cases h
    | noRoom memory' =>
      have hfailed : ret = -1 := (congrArg Prod.fst (Option.some.inj h)).symm
      exact iff_of_true ⟨serialized_msg h, fun hnonneg => absurd (hfailed ▸ hnonneg) (by decide)⟩
        (Or.inr (not_headPasses_of_noRoom hhead))
  | ok out =>
    simp only [hhead] at h
    cases hbody : msg.body with
    | none =>
      simp only [hbody] at h
      have hsame : { msg with body := none } = msg := by
        rw [← hbody]
      refine iff_of_true ⟨serialized_msg h, fun hnonneg => ⟨ret, msg', memory, ?_, hnonneg, ?_⟩⟩ (Or.inl rfl)
      · rw [hsame]
        exact hret
      · rw [Option.getD_none, List.append_nil]
    | some body =>
      simp only [hbody] at h
      -- the NUL stays, whether or not the body has found room
      have hmsg : msg' = httpMsgAppendBody msg [0] := serialized_msg h
      constructor
      · rintro ⟨hsame, -⟩
        exact absurd (hmsg.symm.trans hsame) (httpMsgAppendBody_ne hbody (by simp))
      · rintro (hnone | hstops)
        · cases hnone
        · exact absurd (headPasses_of_ok hhead) hstops

/-- For every message and every sequence of calls on it: the serializations leave the message as it is, and
output what has been appended up to then, if and only if none that writes inside of its buffer finds a body behind
parts that get through. -/
theorem unchanged_iff (msg : HttpMsg) (ops : List HttpMsgOp) :
    msg.Unchanged (msg.body.getD []) ops ↔ msg.BodyUntouched ops := by
  induction ops generalizing msg with
  | nil => exact Iff.rfl
  | cons op ops ih =>
    cases op with
    | appendBody chunk => exact ih (httpMsgAppendBody msg chunk)
    | serialize buffer =>
      rw [HttpMsg.Unchanged, HttpMsg.BodyUntouched]
      have hinside : (httpMsgSerialize msg buffer).isSome ↔ msg.WritesInside buffer.bytes.length :=
        httpMsgSerialize_isSome_iff
      cases hret : httpMsgSerialize msg buffer with
      | none =>
        rw [hret] at hinside
        exact iff_of_true trivial fun h => absurd (hinside.2 h) Bool.false_ne_true
      | some result =>
        obtain ⟨ret, msg', memory⟩ := result
        have hstep := serialize_unchanged_iff hret
        rw [hret] at hinside
        constructor
        · rintro ⟨hunchanged, hrest⟩ -
          have hstops := hstep.1 hunchanged
          obtain ⟨rfl, -⟩ := hunchanged
          exact ⟨hstops, (ih msg').1 hrest⟩
        · intro huntouched
          obtain ⟨hstops, hrest⟩ := huntouched (hinside.1 rfl)
          have hunchanged := hstep.2 hstops
          refine ⟨hunchanged, ?_⟩
          obtain ⟨rfl, -⟩ := hunchanged
          exact (ih msg').2 hrest

/-- A request with a body that is serialized: a NUL has been put behind the body. -/
theorem unchanged_hello : ¬ ∀ (msg : HttpMsg) (ops : List HttpMsgOp),
    (∀ chunk, HttpMsgOp.appendBody chunk ∈ ops → 0 ∉ chunk) → msg.Unchanged (msg.body.getD []) ops := by
  intro h
  have hops : ∀ chunk, HttpMsgOp.appendBody chunk ∈ [.appendBody (text "hello"), .serialize zeroBuffer] →
      0 ∉ chunk := by
    intro chunk hmem
    rcases List.mem_cons.1 hmem with heq | hmem
    · cases heq
      decide
    · cases List.mem_singleton.1 hmem
  have hrun := h (getRequest [] none) _ hops
  have hserialize : (httpMsgSerialize (getRequest [] (some (text "hello"))) zeroBuffer).map (·.2.1) =
      some (getRequest [] (some (text "hello" ++ [0]))) := by
    decide +kernel
  obtain ⟨⟨ret, msg', memory⟩, hret, rfl⟩ := Option.map_eq_some_iff.1 hserialize
  have hrun' : (getRequest [] (some (text "hello"))).Unchanged (text "hello") [.serialize zeroBuffer] := hrun
  rw [HttpMsg.Unchanged, hret] at hrun'
  have hbody := congrArg HttpMsg.body hrun'.1.1
  exact absurd hbody (by decide)

theorem xstrdup_append {str : Bytes} (h : 0 ∈ str) (more : Bytes) :
    (xstrdup (str ++ more)).bytes = (xstrdup str).bytes := by
  have hstops : (str.takeWhile (· ≠ 0)).length ≠ str.length := by
    intro hlen
    have hall : str.takeWhile (· ≠ 0) = str := (List.takeWhile_prefix _).eq_of_length hlen
    rw [← hall] at h
    exact absurd (List.mem_takeWhile_imp h) (by decide)
  calc (str ++ more).takeWhile (· ≠ 0) = str.takeWhile (· ≠ 0) := by rw [List.takeWhile_append, if_neg hstops]

/-- What is appended behind a NUL is in no output. -/
theorem output_append {msg : HttpMsg} {body str str' : Bytes} {buffer : CharBuffer} (hbody : msg.body = some body)
    (hnul : 0 ∈ body) (chunk : Bytes) (h : httpMsgOutput msg buffer = some str)
    (h' : httpMsgOutput (httpMsgAppendBody msg chunk) buffer = some str') : str' = str := by
  have hbody' : (httpMsgAppendBody msg chunk).body = some (body ++ chunk) := by
    rw [httpMsgAppendBody, hbody, Option.getD_some]
  obtain ⟨head, out, hhead, hput, hret⟩ := httpMsgOutput_ok h
  obtain ⟨head', out', hhead', hput', hret'⟩ := httpMsgOutput_ok h'
  have hsame : head' = head := Except.ok.inj (hhead'.symm.trans hhead)
  -- both print the same string, whatever is taken for its length
  have hout : out' = out := by
    rcases hput with ⟨hnone, -⟩ | ⟨_, hsome, hput⟩
    · cases hbody.symm.trans hnone
    rcases hput' with ⟨hnone, -⟩ | ⟨_, hsome', hput'⟩
    · cases hbody'.symm.trans hnone
    cases hbody.symm.trans hsome
    cases hbody'.symm.trans hsome'
    obtain ⟨-, -, hout⟩ := putText_ok hput
    obtain ⟨-, -, hout'⟩ := putText_ok hput'
    have hstr : (xstrdup (body ++ chunk ++ [0])).bytes = (xstrdup (body ++ [0])).bytes := by
      rw [List.append_assoc, xstrdup_append hnul, xstrdup_append hnul]
    rw [hout, hout', hsame, hstr]
  rw [hret.2, hret'.2, hout]

end CMx
