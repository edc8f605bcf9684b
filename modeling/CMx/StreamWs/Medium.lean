/-
A `stream_ws` at each end of a connection, over what they decorate: a medium whose bytes are the
payloads. Over a reliable medium they are one as well, between opposite roles and for an end that is
ready: frames, masks, keep-alive and the reassembly of messages are not seen from above.
-/
import CMx.Stream.Medium
import CMx.StreamWs.Conversation

namespace CMx.Ws

open Mqtt (Bytes ReadEnd Errno)

/-! ## The medium -/

/-- The streams at the two ends, over what they decorate, and how many calls there were. -/
structure Framed (τ : Type) where
  stream : Bool → StreamWs
  below : τ
  calls : Nat

namespace Framed

section Calls

variable {τ : Type} (m : Medium τ) (e : Bool)

/-- The stream at one end has become `s`: its writes are made below. -/
def become (t : Framed τ) (s : StreamWs) : Int × Framed τ :=
  let (ret, below) := m.writeAll e (writes (t.stream e) s) 0 t.below
  (ret, ⟨Function.update t.stream e s, below, t.calls + 1⟩)

/-- The loop of `stream_ws_peek_frame`, of which at most `rounds` reads find something: the chunk that it leaves to
the handshake, how the reads have ended, and the states behind it. -/
def peekLoop (sha1 : Sha1) (env : Env) : (rounds : Nat) → StreamWs → τ → Option (List Chunk × ReadEnd × StreamWs × τ)
  | rounds, s, below =>
    if s.waiting then some ([], .again, s, below)
    else
      match m.read e wsMessageBufferSize below with
      | none => none
      | some (.error last, below) => some ([], last, s, below)
      | some (.ok chunk, below) =>
        match rounds with
        | 0 => none
        | rounds + 1 =>
          if s.status ≠ .ready then some ([⟨chunk.data, chunk.nonempty, chunk.fits⟩], .again, s, below)
          else
            match streamWsReceiveChunk sha1 env s chunk.data with
            | some (none, s') => peekLoop sha1 env rounds s' (m.writeAll e (writes s s') 0 below).2
            | _ => none

/-- What `stream_ws_do_read` returns, as it is seen from above. -/
def answer (length : Nat) : Except Errno Bytes → Except ReadEnd (ReadData length)
  | .ok data => if h : data ≠ [] ∧ data.length ≤ length then .ok ⟨data, h.1, h.2⟩ else .error .closed
  | .error .again => .error .again
  | .error _ => .error .error

/-- `stream_ws_read_impl`, where at most `rounds` reads below find something: behind the loop the call goes on
without another read, and with the `errno` that the writes of the loop have left. -/
def read (sha1 : Sha1) (env : Env) (rounds length : Nat) (t : Framed τ) :
    Option (Except ReadEnd (ReadData length) × Framed τ) :=
  match peekLoop m e sha1 env rounds (t.stream e) t.below with
  | none => none
  | some (reads, last, s, below) =>
    let env := env.continued (s.writeCount - (t.stream e).writeCount)
    (streamWsDoRead sha1 env s reads last length).map fun (taken, _, s') =>
      (answer length taken, ⟨Function.update t.stream e s', (m.writeAll e (writes s s') 0 below).2, t.calls + 1⟩)

end Calls

end Framed

/-- `env` is what the calls find outside, and `unread` how many reads of an end can find something at most. The queue
of a `stream_ws` is that of its `struct stream`, which is part of `m`. -/
def framed {τ : Type} (m : Medium τ) (unread : Bool → τ → Nat) (sha1 : Sha1) (env : Nat → Env) : Medium (Framed τ) where
  below e := {
    write := fun t buffer => t.become m e (streamWsDoWrite (env t.calls) (t.stream e) buffer).2
    handleOutgoingData := fun t =>
      let (ret, below) := (m.below e).handleOutgoingData t.below
      (ret, { t with below })
    flush := fun t =>
      let (ret, below) := (m.below e).flush t.below
      (ret, { t with below })
    tryAgain := fun t => (m.below e).tryAgain t.below }
  read e length t := t.read m e sha1 (env t.calls) (unread e t.below) length
  time e t :=
    let t := (t.become m e (streamWsDoTime (env t.calls) (t.stream e)).2).2
    { t with below := m.time e t.below }

/-! ## The conversation of the two streams -/

/-- The streams as end `e` sees them: on its way to an end is what has been written below at the other and not been
taken by it. -/
def conversation (stream : Bool → StreamWs) (below taken written got : Bool → Bytes) (e : Bool) : Conversation :=
  ⟨⟨stream e, (below (!e)).drop (taken e).length, written e, got e⟩,
    ⟨stream (!e), (below e).drop (taken (!e)).length, written (!e), got (!e)⟩⟩

section Conversation

variable {stream : Bool → StreamWs} {below taken written got : Bool → Bytes} {e : Bool}

theorem conversation_inv (h : (conversation stream below taken written got e).Inv) (e' : Bool) :
    (conversation stream below taken written got e').Inv := by
  have hswap : (conversation stream below taken written got (!e)).Inv := by
    have hinv := h.swap
    cases e <;> exact hinv
  exact forall_ends (P := fun e => (conversation stream below taken written got e).Inv) h hswap e'

/-- One end has gone on: it has taken bytes below, written some there, and has been called from above. -/
theorem conversation_moved (s : StreamWs) {piece rest : Bytes} (sent data read : Bytes) (hfront : taken (!e) <+: below e)
    (hincoming : (below (!e)).drop (taken e).length = piece ++ rest) :
    conversation (Function.update stream e s) (grow below e sent) (grow taken e piece) (grow written e data)
        (grow got e read) e =
      ⟨⟨s, rest, written e ++ data, got e ++ read⟩,
        ⟨stream (!e), (below e).drop (taken (!e)).length ++ sent, written (!e), got (!e)⟩⟩ := by
  unfold conversation
  simp only [grow_self, grow_not, Function.update_self, update_not, drop_taken hincoming]
  rw [List.drop_append_of_le_length hfront.length_le]

end Conversation

/-! ## What is written below -/

/-- The writes of control frames are short. -/
theorem EmitsControl.short {s s' : StreamWs} (h : EmitsControl s s') {data : Bytes} (hdata : data ∈ writes s s') :
    data.length ≤ wsMaxHeaderSize := by
  obtain ⟨fs, hemits, hcontrol⟩ := h
  obtain ⟨events, htrace, hwritten⟩ := hemits.trace
  rw [writes_eq events htrace, hwritten] at hdata
  obtain ⟨f, hf, rfl⟩ := List.mem_map.1 hdata
  have hpayload := (hemits.emitted f hf).control (hcontrol f hf)
  have hle := Frame.length_format_le f
  rw [hpayload] at hle
  simpa using hle

/-- Without a read of its own a peek leaves the stream as it is. -/
theorem peek_unread (sha1 : Sha1) (env : Env) (s : StreamWs) (last : ReadEnd) :
    ∃ result, streamWsPeekFrame sha1 env s [] last = some (result, [], s) := by
  unfold streamWsPeekFrame streamWsPeekLoop
  by_cases hwaiting : s.waiting = true
  · rw [if_pos hwaiting]
    exact ⟨_, rfl⟩
  · rw [if_neg hwaiting]
    exact ⟨_, rfl⟩

/-- A peek with one read, of a stream that is ready and has nothing waiting, is the handling of the chunk. -/
theorem receiveChunk_of_peek {sha1 : Sha1} {env : Env} {s s' : StreamWs} {chunk : Chunk} {result : Except Errno Nat}
    {left : List Chunk} {last : ReadEnd} (hs : s.waiting = false) (hready : s.status = .ready)
    (h : streamWsPeekFrame sha1 env s [chunk] last = some (result, left, s')) :
    streamWsReceiveChunk sha1 env s chunk.data = some (none, s') ∧ left = [] := by
  have hchunk : streamWsReceiveChunk sha1 env s chunk.data =
      (streamWsParseLoop env (bufferAppend s.buffer chunk.data).length
        { s with buffer := bufferAppend s.buffer chunk.data }).map (none, ·) := by
    unfold streamWsReceiveChunk
    exact if_neg fun hne => hne hready
  obtain ⟨⟨left', loopEnd, t⟩, hloop, ht⟩ := Option.map_eq_some_iff.1 h
  cases ht
  unfold streamWsPeekLoop at hloop
  rw [if_neg (by simp [hs])] at hloop
  simp only [hchunk] at hloop ⊢
  cases hparse : streamWsParseLoop env (bufferAppend s.buffer chunk.data).length
      { s with buffer := bufferAppend s.buffer chunk.data } with
  | none =>
    rw [hparse] at hloop
    cases hloop
  | some t =>
    rw [hparse] at hloop
    simp only [Option.map_some] at hloop ⊢
    unfold streamWsPeekLoop at hloop
    split at hloop <;> cases hloop <;> exact ⟨rfl, rfl⟩

/-- Behind its peek a read changes the cache only, and returns no more than it is asked for. -/
theorem ReadsFrom.cache {s s' : StreamWs} {length : Nat} {result : Except Errno Nat} {taken : Except Errno Bytes}
    (h : ReadsFrom s length result taken s') :
    (∃ cache, s' = { s with cache }) ∧ (taken.toOption.getD []).length ≤ length := by
  rcases h with ⟨rfl, hnothing, -, -⟩ | htake
  · exact ⟨⟨s'.cache, rfl⟩, by rw [hnothing]; exact Nat.zero_le _⟩
  · unfold streamWsTake at htake
    cases hcache : s.cache with
    | nil =>
      rw [hcache] at htake
      cases htake
      exact ⟨⟨s.cache, rfl⟩, Nat.zero_le _⟩
    | cons slice cache =>
      rw [hcache] at htake
      cases htake
      exact ⟨⟨_, rfl⟩, List.length_take_le ..⟩

theorem bytesRead_answer {length : Nat} {taken : Except Errno Bytes} (h : (taken.toOption.getD []).length ≤ length) :
    bytesRead (Framed.answer length taken) = taken.toOption.getD [] := by
  unfold Framed.answer
  rcases taken with errno | data
  · cases errno <;> rfl
  · simp only
    split
    · rfl
    · rename_i hnot
      by_contra hne
      exact hnot ⟨fun hnil => hne (by rw [hnil]; rfl), h⟩

/-! ## Reliability -/

/-- What has been written and read above is in order, whatever has been written and taken below. -/
def Framed.Holds {τ : Type} (HoldsBelow : (written taken : Bool → Bytes) → τ → Prop) (written got : Bool → Bytes)
    (t : Framed τ) : Prop :=
  ∃ below taken, HoldsBelow below taken t.below ∧ (conversation t.stream below taken written got false).Inv

section Reliable

variable {τ : Type} {m : Medium τ} {limit : Nat} {Ready : Bool → τ → Prop}
  {HoldsBelow : (written taken : Bool → Bytes) → τ → Prop} {unread : Bool → τ → Nat}

/-- The loop reads until a message is complete or nothing is left to be read; it always comes back. -/
theorem peekLoop_reliable (h : m.Reliable limit Ready HoldsBelow) (hbounded : m.Bounded unread)
    (hlimit : wsMaxHeaderSize < limit) (sha1 : Sha1) (env : Env) (e : Bool) (written got : Bool → Bytes) :
    ∀ (rounds : Nat) {stream : Bool → StreamWs} {s : StreamWs} {t : τ} {below taken : Bool → Bytes},
      unread e t ≤ rounds → s.status = .ready → Ready e t → HoldsBelow below taken t →
      (conversation (Function.update stream e s) below taken written got e).Inv →
      ∃ last s' t' below' taken', Framed.peekLoop m e sha1 env rounds s t = some ([], last, s', t') ∧
        s'.status = .ready ∧ Ready e t' ∧ HoldsBelow below' taken' t' ∧
        (conversation (Function.update stream e s') below' taken' written got e).Inv
  | rounds, stream, s, t, below, taken, hunread, hs, hready, hholds, hinv => by
    unfold Framed.peekLoop
    by_cases hwaiting : s.waiting = true
    · rw [if_pos hwaiting]
      exact ⟨_, _, _, _, _, rfl, hs, hready, hholds, hinv⟩
    rw [if_neg hwaiting]
    obtain ⟨answer, t', hread, hready', hholds'⟩ := h.read e wsMessageBufferSize hholds hready
    rw [hread]
    cases answer with
    | error last =>
      simp only [bytesRead, grow_nil] at hholds'
      exact ⟨_, _, _, _, _, rfl, hs, hready', hholds', hinv⟩
    | ok piece =>
      simp only [bytesRead] at hholds'
      have hless := hbounded.read hread
      cases rounds with
      | zero => exact absurd hunread (by omega)
      | succ rounds =>
        simp only
        rw [if_neg (fun hne => hne hs)]
        -- the chunk is the front of what is on its way to this end
        obtain ⟨hfront, rest, hincoming⟩ := h.incoming hholds'
        have hnear : (conversation (Function.update stream e s) below taken written got e).near =
            ⟨s, piece.data ++ rest, written e, got e⟩ := by
          unfold conversation
          rw [hincoming, Function.update_self]
        let chunk : Chunk := ⟨piece.data, piece.nonempty, piece.fits⟩
        have hbytes : (conversation (Function.update stream e s) below taken written got e).near.incoming =
            bytesOf [chunk] ++ rest := by
          rw [hnear]
          simp [bytesOf, chunk]
        have hpeeked := hinv.peeked sha1 env [chunk] hbytes .again (by rw [hnear]; exact hs)
        rw [hnear] at hpeeked
        obtain ⟨result, left, s', hpeek, hemits, htyped, hs', hflow, -⟩ := hpeeked
        obtain ⟨hchunk, rfl⟩ := receiveChunk_of_peek (by simpa using hwaiting) hs hpeek
        have hchunk : streamWsReceiveChunk sha1 env s piece.data = some (none, s') := hchunk
        rw [hchunk]
        -- what it has made the stream write goes below
        have hshort : ∀ data ∈ writes s s', data.length < limit := fun data hdata => (hemits.short hdata).trans_lt hlimit
        have hbelow := h.writeAll e 0 hholds' hshort
        have hready'' := h.ready_writeAll e e (writes s s') 0 hready'
        have hfewer := hbounded.writeAll e t' (writes s s') 0
        refine peekLoop_reliable h hbounded hlimit sha1 env e written got rounds (by omega) hs' hready'' hbelow ?_
        have hmoved := @conversation_moved (Function.update stream e s) below taken written got e s' piece.data rest
          (writes s s').flatten [] [] hfront hincoming
        rw [grow_nil, grow_nil, Function.update_idem] at hmoved
        rw [hmoved]
        have hstep := hinv.next_control (e := ⟨s', rest, written e ++ [], got e ++ []⟩) (by rw [hnear]; exact hemits)
          (by rw [hnear]; exact List.append_nil _) htyped (fun _ _ => by simpa [bytesOf] using hflow)
        rw [hnear] at hstep
        exact hstep

/-- A call of an end that takes nothing below. -/
theorem become_holds (h : m.Reliable limit Ready HoldsBelow) {e : Bool} {t : Framed τ} {s : StreamWs}
    {below taken written got : Bool → Bytes} {data : Bytes} (hholds : HoldsBelow below taken t.below)
    (hshort : ∀ bytes ∈ writes (t.stream e) s, bytes.length < limit)
    (hinv : Conversation.Inv ⟨⟨s, (below (!e)).drop (taken e).length, written e ++ data, got e⟩,
      ⟨t.stream (!e), (below e).drop (taken (!e)).length ++ (writes (t.stream e) s).flatten, written (!e), got (!e)⟩⟩) :
    Framed.Holds HoldsBelow (grow written e data) got (t.become m e s).2 := by
  have hfront := h.front_not hholds e
  refine ⟨_, _, h.writeAll e 0 hholds hshort, ?_⟩
  have hmoved := @conversation_moved t.stream below taken written got e s [] _ (writes (t.stream e) s).flatten data []
    hfront rfl
  rw [grow_nil, grow_nil, List.append_nil] at hmoved
  rw [← hmoved] at hinv
  exact conversation_inv hinv false

theorem stream_become (e e' : Bool) (t : Framed τ) {s : StreamWs} (hstatus : s.status = (t.stream e).status) :
    ((t.become m e s).2.stream e').status = (t.stream e').status := by
  show (Function.update t.stream e s e').status = _
  rcases eq_or_ne e' e with rfl | hne
  · rw [Function.update_self]
    exact hstatus
  · rw [Function.update_of_ne hne]

/-- A write makes one write below. -/
theorem writes_doWrite (env : Env) (s : StreamWs) (data : Bytes) :
    writes s (streamWsDoWrite env s data).2 = [(emitted env s s.dataType data).format] :=
  writes_eq [.write (emitted env s s.dataType data).format] rfl

theorem framed_write (h : m.Reliable limit Ready HoldsBelow) (hlimit : wsMaxHeaderSize < limit) (hfits : limit ≤ 2 ^ 31)
    (sha1 : Sha1) (env : Nat → Env) {written got : Bool → Bytes} {t : Framed τ} (e : Bool) {data : Bytes}
    (ht : Framed.Holds HoldsBelow written got t) (hdata : data.length < limit - wsMaxHeaderSize) :
    Framed.Holds HoldsBelow (grow written e data) got (((framed m unread sha1 env).below e).write t data).2 ∧
      data.length ≤ (((framed m unread sha1 env).below e).write t data).1 ∧
        (((framed m unread sha1 env).below e).write t data).1 < 2 ^ 31 := by
  obtain ⟨below, taken, hholds, hinv⟩ := ht
  have hroom : data.length + wsMaxHeaderSize < sizeRange := by
    simp only [sizeRange]
    omega
  obtain ⟨n, hn, hafter⟩ := (conversation_inv hinv e).write sha1 (env t.calls) ⟨data, hroom⟩
  cases hn
  have hwrites := writes_doWrite (env t.calls) (t.stream e) data
  have hframe : (emitted (env t.calls) (t.stream e) (t.stream e).dataType data).format.length < limit := by
    have hle := Frame.length_format_le (emitted (env t.calls) (t.stream e) (t.stream e).dataType data)
    have hpayload : (emitted (env t.calls) (t.stream e) (t.stream e).dataType data).payload = data := rfl
    rw [hpayload] at hle
    omega
  obtain ⟨-, hle, hlt⟩ := h.write e hholds hframe
  refine ⟨become_holds h hholds ?_ hafter, ?_⟩
  · rw [hwrites]
    intro bytes hbytes
    obtain rfl := List.mem_singleton.1 hbytes
    exact hframe
  · have hret : (((framed m unread sha1 env).below e).write t data).1 =
        ((m.below e).write t.below (emitted (env t.calls) (t.stream e) (t.stream e).dataType data).format).1 := by
      show (m.writeAll e (writes (t.stream e) _) 0 t.below).1 = _
      rw [hwrites]
      rfl
    have hlength := Frame.length_format (f := emitted (env t.calls) (t.stream e) (t.stream e).dataType data)
    have hpayload : (emitted (env t.calls) (t.stream e) (t.stream e).dataType data).header.payloadLength =
      data.length := rfl
    rw [hret]
    exact ⟨by omega, hlt⟩

/-- A read peeks, and answers with what the peek has brought. -/
theorem framed_read (h : m.Reliable limit Ready HoldsBelow) (hbounded : m.Bounded unread) (hlimit : wsMaxHeaderSize < limit)
    (sha1 : Sha1) (env : Nat → Env) {written got : Bool → Bytes} {t : Framed τ} (e : Bool) (length : Nat)
    (ht : Framed.Holds HoldsBelow written got t) (hready : (t.stream e).status = .ready ∧ Ready e t.below) :
    ∃ answer t', (framed m unread sha1 env).read e length t = some (answer, t') ∧
      ((t'.stream e).status = .ready ∧ Ready e t'.below) ∧
        Framed.Holds HoldsBelow written (grow got e (bytesRead answer)) t' := by
  obtain ⟨below, taken, hholds, hinv⟩ := ht
  obtain ⟨hstatus, hready⟩ := hready
  have hstart := conversation_inv hinv e
  rw [← Function.update_eq_self e t.stream] at hstart
  obtain ⟨last, s, t', below', taken', hloop, hs, hready', hholds', hinv'⟩ := peekLoop_reliable h hbounded hlimit sha1
    (env t.calls) e written got (unread e t.below) (le_refl _) hstatus hready hholds hstart
  let continued := (env t.calls).continued (s.writeCount - (t.stream e).writeCount)
  -- behind the loop the read makes no other read below
  obtain ⟨result, hpeek⟩ := peek_unread sha1 continued s last
  obtain ⟨read, s', hread, hfrom⟩ := doRead_cases hpeek length
  obtain ⟨⟨cache, rfl⟩, hlength⟩ := hfrom.cache
  have hself : Function.update t.stream e s e = s := Function.update_self ..
  have hnone : writes s { s with cache } = [] := writes_eq [] (List.append_nil _).symm
  refine ⟨Framed.answer length read, ⟨Function.update t.stream e { s with cache }, t', t.calls + 1⟩, ?_, ?_, ?_⟩
  · show Framed.read m e sha1 (env t.calls) (unread e t.below) length t = _
    unfold Framed.read
    rw [hloop]
    simp only [continued] at hread
    simp only [hread, Option.map_some, hnone]
    rfl
  · refine ⟨?_, hready'⟩
    show (Function.update t.stream e { s with cache } e).status = .ready
    rw [Function.update_self]
    exact hs
  · rw [bytesRead_answer hlength]
    obtain ⟨n, hn, hafter⟩ := hinv'.doRead sha1 continued [] last length
      (show (Function.update t.stream e s e).status = .ready by rw [hself]; exact hs)
    have hact : (conversation (Function.update t.stream e s) below' taken' written got e).near.act sha1
        (.doRead continued [] last length) =
          some ⟨{ s with cache }, (below' (!e)).drop (taken' e).length, written e, got e ++ read.toOption.getD []⟩ := by
      show (streamWsDoRead sha1 continued (Function.update t.stream e s e) [] last length).map _ = _
      rw [hself, hread]
      rfl
    rw [Conversation.act, hact] at hn
    cases hn
    refine ⟨below', taken', hholds', ?_⟩
    -- taking bytes of the cache writes nothing below
    have hfront := h.front_not hholds' e
    have hkept : grow below' e (writes (Function.update t.stream e s e) { s with cache }).flatten = below' := by
      rw [hself, hnone]
      exact grow_nil ..
    have hmoved := @conversation_moved (Function.update t.stream e s) below' taken' written got e { s with cache } [] _
      (writes (Function.update t.stream e s e) { s with cache }).flatten [] (read.toOption.getD []) hfront rfl
    rw [hkept, grow_nil, grow_nil, List.append_nil, Function.update_idem] at hmoved
    have hinv'' : (conversation (Function.update t.stream e { s with cache }) below' taken' written
        (grow got e (read.toOption.getD [])) e).Inv := by
      rw [hmoved]
      exact hafter
    exact conversation_inv hinv'' false

/-- Two streams over a reliable medium are one. A frame takes up to `WS_MAX_HEADER_SIZE` bytes more than its payload. -/
theorem framed_reliable (h : m.Reliable limit Ready HoldsBelow) (hbounded : m.Bounded unread)
    (hlimit : wsMaxHeaderSize < limit) (hfits : limit ≤ 2 ^ 31) (sha1 : Sha1) (env : Nat → Env) :
    (framed m unread sha1 env).Reliable (limit - wsMaxHeaderSize)
      (fun e t => (t.stream e).status = .ready ∧ Ready e t.below) (Framed.Holds HoldsBelow) where
  front := by
    rintro written got t ⟨below, taken, hholds, hinv⟩ e
    obtain ⟨pending, hflow⟩ := (conversation_inv hinv e).toNear
    have hbytes : got e ++ _ ++ _ = written (!e) := hflow.bytes
    rw [← hbytes, List.append_assoc]
    exact List.prefix_append ..
  write e _ ht hdata := framed_write h hlimit hfits sha1 env e ht hdata
  ready := by
    rintro t e e' data ⟨hstatus, hready⟩
    have hkept := @stream_become τ m e e' t (streamWsDoWrite (env t.calls) (t.stream e) data).2 rfl
    exact ⟨hkept.trans hstatus, h.ready_writeAll e e' _ 0 hready⟩
  handle := by
    rintro written got t e ⟨below, taken, hholds, hinv⟩
    exact ⟨below, taken, h.handle e hholds, hinv⟩
  flush := by
    rintro written got t e ⟨below, taken, hholds, hinv⟩
    exact ⟨below, taken, h.flush e hholds, hinv⟩
  time := by
    rintro written got t e ⟨below, taken, hholds, hinv⟩
    obtain ⟨n, hn, hafter⟩ := (conversation_inv hinv e).time sha1 (env t.calls)
    cases hn
    obtain ⟨hemits, -⟩ := doTime_keeps (env t.calls) (t.stream e)
    have hbecome : Framed.Holds HoldsBelow (grow written e []) got _ :=
      become_holds h hholds (fun bytes hbytes => (hemits.short hbytes).trans_lt hlimit)
        (by rw [List.append_nil]; exact hafter)
    rw [grow_nil] at hbecome
    obtain ⟨below', taken', hholds', hinv'⟩ := hbecome
    exact ⟨below', taken', h.time e hholds', hinv'⟩
  read e length ht hready := framed_read h hbounded hlimit sha1 env e length ht hready

end Reliable

/-! ## Behind the handshake -/

/-- Two streams of opposite roles behind their handshakes, before their first frames. -/
structure Opened (stream : Bool → StreamWs) : Prop where
  roles : (stream true).clientRole = !(stream false).clientRole
  status : ∀ e, (stream e).status = .ready
  live : ∀ e, (stream e).buffer.live = []
  cache : ∀ e, (stream e).cache = []
  typed : ∀ e, (stream e).Typed

/-- All that was written for the handshakes has been taken. -/
theorem Opened.holds {τ : Type} {HoldsBelow : (written taken : Bool → Bytes) → τ → Prop} {stream : Bool → StreamWs}
    (h : Opened stream) {below taken : Bool → Bytes} {t : τ} (hholds : HoldsBelow below taken t)
    (htaken : ∀ e, taken e = below (!e)) (calls : Nat) :
    Framed.Holds HoldsBelow (fun _ => []) (fun _ => []) ⟨stream, t, calls⟩ := by
  have hnothing : ∀ e, (below e).drop (taken (!e)).length = [] := by
    intro e
    rw [htaken, Bool.not_not, List.drop_length]
  have hfresh : ∀ e, Endpoint.Fresh ⟨stream e, (below (!e)).drop (taken e).length, [], []⟩ := by
    intro e
    have hincoming := hnothing (!e)
    rw [Bool.not_not] at hincoming
    exact ⟨h.status e, h.live e, h.cache e, h.typed e, hincoming, rfl, rfl⟩
  exact ⟨below, taken, hholds, h.roles, h.typed false, h.typed true, ⟨[], flow_fresh (hfresh false) (hfresh true)⟩,
    ⟨[], flow_fresh (hfresh true) (hfresh false)⟩⟩

end CMx.Ws
