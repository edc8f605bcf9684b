/-
Received frames: the inner loop of `stream_ws_peek_frame` drains the buffer with `ws_parse_frame`,
unmasking every payload in its place, and what the frames leave in the cache depends on what they
say alone. Bytes that are proper frames are handled frame by frame, however they arrive.
-/
import CMx.StreamWs.State

namespace CMx.Ws

open Mqtt (Bytes CString StreamStatus ReadEnd Errno)
open Framing (drain)

/-! ## What frames say -/

/-- A frame without its mask. -/
structure Fragment where
  fin : Bool
  opcode : UInt8
  payload : Bytes
  deriving DecidableEq, Repr

def Frame.fragment (f : Frame) : Fragment := ⟨f.fin, f.opcode, f.payload⟩

/-- The fragment starts a message, or goes on with one. -/
def Fragment.Starts (f : Fragment) : Prop := f.opcode = wsOpcodeText ∨ f.opcode = wsOpcodeBinary

def Fragment.Continues (f : Fragment) : Prop := f.opcode = wsOpcodeContinue

instance (f : Fragment) : Decidable f.Starts := inferInstanceAs (Decidable (_ ∨ _))
instance (f : Fragment) : Decidable f.Continues := inferInstanceAs (Decidable (_ = _))

/-- What a frame does to the cache. -/
def collect (cache : List WsFrameSlice) (f : Fragment) : List WsFrameSlice :=
  if f.Starts then cache ++ [⟨f.payload, f.fin, f.opcode⟩]
  else if f.Continues then appendToLast cache f.payload f.fin
  else cache

/-- The events of a history that come from the peer. -/
def happened (trace : List Event) : List Event := trace.filter fun e => e.written.isNone

/-- How many of the fragments are answered with a PONG. -/
def pings (fs : List Fragment) : Nat := fs.countP (·.opcode = wsOpcodePing)

theorem pings_append (fs fs' : List Fragment) : pings (fs ++ fs') = pings fs + pings fs' := List.countP_append

theorem pings_cons (f : Fragment) (fs : List Fragment) : pings (f :: fs) = pings [f] + pings fs := pings_append [f] fs

/-! ## One frame -/

theorem cache_handlePayload (env : Env) (s : StreamWs) (frame : WsFrame) (payload : Bytes) :
    (streamWsHandlePayload env s frame payload).cache = collect s.cache ⟨frame.finFlag, frame.opcode, payload⟩ := by
  unfold streamWsHandlePayload collect
  by_cases hdata : frame.opcode = wsOpcodeText ∨ frame.opcode = wsOpcodeBinary
  · rw [if_pos hdata, if_pos (c := Fragment.Starts ⟨frame.finFlag, frame.opcode, payload⟩) hdata]
    rfl
  · rw [if_neg hdata, if_neg (c := Fragment.Starts ⟨frame.finFlag, frame.opcode, payload⟩) hdata]
    by_cases hcontinue : frame.opcode = wsOpcodeContinue
    · rw [if_pos hcontinue, if_pos (c := Fragment.Continues ⟨frame.finFlag, frame.opcode, payload⟩) hcontinue]
    · rw [if_neg hcontinue, if_neg (c := Fragment.Continues ⟨frame.finFlag, frame.opcode, payload⟩) hcontinue]
      split
      · rfl
      · split <;> rfl

/-- Besides the cache, a payload changes what is written and the keep-alive. -/
theorem handlePayload_keeps (env : Env) (s : StreamWs) (frame : WsFrame) (payload : Bytes) :
    let s' := streamWsHandlePayload env s frame payload
    s'.status = s.status ∧ s'.clientRole = s.clientRole ∧ s'.buffer = s.buffer ∧ happened s'.trace = happened s.trace := by
  unfold streamWsHandlePayload
  split
  · exact ⟨rfl, rfl, rfl, rfl⟩
  · split
    · exact ⟨rfl, rfl, rfl, rfl⟩
    · split
      · refine ⟨rfl, rfl, rfl, ?_⟩
        simp [streamWsGenerateMask, streamWsWriteFrame, streamDoWrite, StreamWs.startKeepAliveTimer, StreamWs.log, happened,
          Event.written]
      · split <;> exact ⟨rfl, rfl, rfl, rfl⟩

/-- A PING is answered with one write, and nothing else is written. -/
theorem handlePayload_writes (env : Env) (s : StreamWs) (frame : WsFrame) (payload : Bytes) :
    (streamWsHandlePayload env s frame payload).writeCount =
      s.writeCount + if frame.opcode = wsOpcodePing then 1 else 0 := by
  have hping : wsOpcodePing ≠ wsOpcodeText ∧ wsOpcodePing ≠ wsOpcodeBinary ∧ wsOpcodePing ≠ wsOpcodeContinue := by decide
  unfold streamWsHandlePayload
  by_cases hdata : frame.opcode = wsOpcodeText ∨ frame.opcode = wsOpcodeBinary
  · rw [if_pos hdata, if_neg]
    · rfl
    · intro heq
      rw [heq] at hdata
      exact hdata.elim hping.1 hping.2.1
  rw [if_neg hdata]
  by_cases hcontinue : frame.opcode = wsOpcodeContinue
  · rw [if_pos hcontinue, if_neg]
    · rfl
    · intro heq
      exact hping.2.2 (heq.symm.trans hcontinue)
  rw [if_neg hcontinue]
  by_cases hanswered : frame.opcode = wsOpcodePing
  · rw [if_pos hanswered, if_pos hanswered]
    simp [streamWsGenerateMask, streamWsWriteFrame, streamDoWrite, StreamWs.startKeepAliveTimer, StreamWs.log,
      StreamWs.writeCount, Event.written]
  · rw [if_neg hanswered, if_neg hanswered]
    split <;> rfl

/-- A frame of a peer that masks as it should has been handled. -/
structure Handled (s : StreamWs) (frame : WsFrame) (frameLength : Nat) (s' : StreamWs) : Prop where
  status : s'.status = s.status
  clientRole : s'.clientRole = s.clientRole
  length : s'.buffer.length = s.buffer.length
  behind : s'.buffer.live.drop frameLength = s.buffer.live.drop frameLength
  cache : s'.cache = collect s.cache (frameAt s.buffer.live frame).fragment
  happened : happened s'.trace = happened s.trace ++ [.receive frame ((frameAt s.buffer.live frame).payload)]
  writes : s'.writeCount = s.writeCount + pings [(frameAt s.buffer.live frame).fragment]

theorem length_payloadAt {data : Bytes} {frame : WsFrame} (h : frame.payloadOffset + frame.payloadLength ≤ data.length) :
    (payloadAt data frame).length = frame.payloadLength := by
  simp only [payloadAt, List.length_take, List.length_drop]
  omega

/-- Unmasking in place makes the payload what it was before it was masked. -/
theorem streamWsUnmask_spec (env : Env) {s : StreamWs} {frame : WsFrame} {frameLength : Nat}
    (h : Recognised s.buffer.live frame frameLength) (hwraps : ¬ frame.Wraps)
    (hmask : s.clientRole = true → frame.maskFlag = false) :
    ∃ b, streamWsUnmask env s frame = { s with buffer := b } ∧ b.length = s.buffer.length ∧
      b.live.drop frameLength = s.buffer.live.drop frameLength ∧
        payloadAt b.live frame = (frameAt s.buffer.live frame).payload := by
  unfold streamWsUnmask frameAt maskOf
  by_cases hflag : frame.maskFlag = true
  · have hrole : ¬ s.clientRole = true := fun hc => absurd (hmask hc) (by rw [hflag]; decide)
    have hlen := h.frameLength_of_not_wraps hwraps
    have hle := h.frameLength_le
    have hpayload : (payloadAt s.buffer.live frame).length = frame.payloadLength := length_payloadAt (by omega)
    rw [if_pos hflag, if_neg hrole, if_pos hflag]
    refine ⟨_, rfl, rfl, ?_, ?_⟩
    all_goals
      rw [Buffer.length_live] at hle
      rw [live_bufferOverwrite _ (by rw [length_wsApplyMask, hpayload]; omega), length_wsApplyMask, hpayload]
      have hfront : (s.buffer.live.take frame.payloadOffset).length = frame.payloadOffset := by
        rw [List.length_take, Buffer.length_live]
        omega
    · rw [List.drop_left' (by rw [List.length_append, hfront, length_wsApplyMask, hpayload]; omega), hlen]
    · unfold payloadAt
      rw [List.append_assoc, List.drop_left' hfront, List.take_left']
      · rfl
      · rw [length_wsApplyMask]
        exact hpayload
  · rw [if_neg hflag, if_neg hflag]
    exact ⟨_, rfl, rfl, rfl, rfl⟩

theorem handle_frame (env : Env) {s : StreamWs} {frame : WsFrame} {frameLength : Nat}
    (h : wsParseFrame s.buffer.live = .frame frame frameLength) (hwraps : ¬ frame.Wraps)
    (hmask : s.clientRole = true → frame.maskFlag = false) :
    ∃ s', streamWsHandleReceivedFrame env s frame = some s' ∧ Handled s frame frameLength s' := by
  obtain ⟨b, hunmask, hlength, hbehind, hpayload⟩ := streamWsUnmask_spec env (wsParseFrame_spec h) hwraps hmask
  unfold streamWsHandleReceivedFrame
  rw [if_neg (fun hc => hwraps hc.1), hunmask]
  refine ⟨_, rfl, ?_⟩
  simp only [hpayload]
  obtain ⟨hstatus, hrole, hbuffer, hhappened⟩ := handlePayload_keeps env
    (StreamWs.log { s with buffer := b } (.receive frame ((frameAt s.buffer.live frame).payload))) frame
      ((frameAt s.buffer.live frame).payload)
  refine ⟨hstatus, hrole, ?_, ?_, cache_handlePayload env _ frame _, ?_, ?_⟩
  · rw [hbuffer]
    exact hlength
  · rw [hbuffer]
    exact hbehind
  · rw [hhappened]
    simp [StreamWs.log, happened, Event.written]
  · rw [handlePayload_writes]
    simp [StreamWs.log, StreamWs.writeCount, Event.written, pings, frameAt, Frame.fragment, List.countP_cons]

/-! ## The loops -/

/-- The bytes at the front of the buffer have been handled as frames. -/
structure Drained (s : StreamWs) (s' : StreamWs) (frames : List (WsFrame × Frame)) (rest : Bytes) : Prop where
  status : s'.status = s.status
  clientRole : s'.clientRole = s.clientRole
  live : s'.buffer.live = rest
  cache : s'.cache = (frames.map (·.2.fragment)).foldl collect s.cache
  happened : happened s'.trace = happened s.trace ++ frames.map fun found => .receive found.1 found.2.payload
  writes : s'.writeCount = s.writeCount + pings (frames.map (·.2.fragment))

theorem parseLoop_drained (env : Env) : ∀ (rounds : Nat) {s : StreamWs}, s.buffer.length ≤ rounds →
    (drain frameParser s.buffer.live).bad = false →
    (s.clientRole = true → ∀ found ∈ (drain frameParser s.buffer.live).frames, found.2.mask = none) →
      ∃ s', streamWsParseLoop env rounds s = some s' ∧
        Drained s s' (drain frameParser s.buffer.live).frames (drain frameParser s.buffer.live).rest
  | 0, s, h, _, _ => by
    have hempty : s.buffer.live = [] := List.eq_nil_of_length_eq_zero (by rw [Buffer.length_live]; omega)
    have hstop : bufferIsEmpty s.buffer = true := (bufferIsEmpty_iff _).2 hempty
    refine ⟨s, by rw [streamWsParseLoop, if_pos hstop], ?_⟩
    rw [hempty, Framing.drain_more rfl]
    exact ⟨rfl, rfl, hempty, rfl, (List.append_nil _).symm, rfl⟩
  | rounds + 1, s, h, hclean, hmask => by
    by_cases hempty : s.buffer.live = []
    · have hstop : bufferIsEmpty s.buffer = true := (bufferIsEmpty_iff _).2 hempty
      refine ⟨s, by rw [streamWsParseLoop, if_pos hstop], ?_⟩
      rw [hempty, Framing.drain_more rfl]
      exact ⟨rfl, rfl, hempty, rfl, (List.append_nil _).symm, rfl⟩
    have hgo : ¬ bufferIsEmpty s.buffer = true := fun hc => hempty ((bufferIsEmpty_iff _).1 hc)
    rw [streamWsParseLoop, if_neg hgo]
    cases hp : wsParseFrame s.buffer.live with
    | more n =>
      refine ⟨s, rfl, ?_⟩
      rw [Framing.drain_more (by simp [frameParser, hp])]
      exact ⟨rfl, rfl, rfl, rfl, (List.append_nil _).symm, rfl⟩
    | frame header frameLength =>
      have hwraps : ¬ header.Wraps := fun hw => by
        rw [Framing.drain_bad (by simp [frameParser, hp, hw])] at hclean
        cases hclean
      have hr := wsParseFrame_spec hp
      have hframe : frameParser s.buffer.live = .frame (header, frameAt s.buffer.live header) frameLength := by
        simp [frameParser, hp, hwraps]
      rw [Framing.drain_frame frameParser_stable hframe] at hclean hmask ⊢
      have hflag : s.clientRole = true → header.maskFlag = false := fun hrole => by
        have hnone := hmask hrole _ (List.mem_cons_self ..)
        simpa [frameAt, maskOf] using hnone
      obtain ⟨t, ht, hhandled⟩ := handle_frame env hp hwraps hflag
      -- the rest of the buffer is drained from the state behind the frame
      have hle : frameLength ≤ t.buffer.length := by
        rw [hhandled.length, ← Buffer.length_live]
        exact hr.frameLength_le
      have hpos := frameParser_stable.pos hframe
      have hcut : (bufferCut t.buffer frameLength).live = s.buffer.live.drop frameLength := by
        rw [live_bufferCut _ hle, hhandled.behind]
      have hrest := parseLoop_drained env rounds (s := { t with buffer := bufferCut t.buffer frameLength })
        (by show t.buffer.length - frameLength ≤ rounds; rw [hhandled.length]; omega)
      simp only [hcut] at hrest
      obtain ⟨s', hs', hd⟩ := hrest hclean fun hrole found hfound =>
        hmask (hhandled.clientRole ▸ hrole) found (List.mem_cons_of_mem _ hfound)
      refine ⟨s', by simp only [ht]; exact hs', ?_⟩
      refine ⟨hd.status.trans hhandled.status, hd.clientRole.trans hhandled.clientRole, hd.live, ?_, ?_, ?_⟩
      · rw [hd.cache, List.map_cons, List.foldl_cons]
        show List.foldl collect t.cache _ = _
        rw [hhandled.cache]
      · rw [hd.happened]
        show happened t.trace ++ _ = _
        rw [hhandled.happened, List.map_cons, List.append_assoc, List.singleton_append]
      · rw [hd.writes]
        show t.writeCount + _ = _
        rw [hhandled.writes, List.map_cons, pings_cons _ (List.map _ _), Nat.add_assoc]

theorem Drained.refl (s : StreamWs) : Drained s s [] s.buffer.live := ⟨rfl, rfl, rfl, rfl, (List.append_nil _).symm, rfl⟩

theorem Drained.trans {s s' s'' : StreamWs} {frames frames' : List (WsFrame × Frame)} {rest rest' : Bytes}
    (h : Drained s s' frames rest) (h' : Drained s' s'' frames' rest') : Drained s s'' (frames ++ frames') rest' where
  status := h'.status.trans h.status
  clientRole := h'.clientRole.trans h.clientRole
  live := h'.live
  cache := by rw [h'.cache, h.cache, List.map_append, List.foldl_append]
  happened := by rw [h'.happened, h.happened, List.map_append, List.append_assoc]
  writes := by rw [h'.writes, h.writes, List.map_append, pings_append, Nat.add_assoc]

/-- A stream that is ready, with the beginning of a frame in its buffer and bytes to come, which
are frames that its peer masks as it should. -/
structure Awaits (s : StreamWs) (bytes : Bytes) (pending : List (WsFrame × Frame)) : Prop where
  status : s.status = .ready
  begun : drain frameParser s.buffer.live = ⟨[], s.buffer.live, false⟩
  drained : drain frameParser (s.buffer.live ++ bytes) = ⟨pending, [], false⟩
  unmasked : s.clientRole = true → ∀ found ∈ pending, found.2.mask = none

/-- Without bytes to come, there is nothing to wait for. -/
theorem Awaits.finished {s : StreamWs} {pending : List (WsFrame × Frame)} (h : Awaits s [] pending) :
    s.buffer.live = [] ∧ pending = [] := by
  have hpending := h.drained
  rw [List.append_nil, h.begun] at hpending
  injection hpending with hframes hrest _
  exact ⟨hrest, hframes.symm⟩

section Peek

variable (sha1 : Sha1) (env : Env)

/-- A chunk behind the buffer of a stream that is ready: what it completes is handled. -/
theorem receiveChunk_drained {s : StreamWs} {data : Bytes} (hs : s.status = .ready)
    (hclean : (drain frameParser (s.buffer.live ++ data)).bad = false)
    (hmask : s.clientRole = true → ∀ found ∈ (drain frameParser (s.buffer.live ++ data)).frames, found.2.mask = none) :
    ∃ s', streamWsReceiveChunk sha1 env s data = some (none, s') ∧
      Drained s s' (drain frameParser (s.buffer.live ++ data)).frames (drain frameParser (s.buffer.live ++ data)).rest := by
  have hlive : (bufferAppend s.buffer data).live = s.buffer.live ++ data := live_bufferAppend s.buffer data
  obtain ⟨s', hloop, hd⟩ := parseLoop_drained env (bufferAppend s.buffer data).length
    (s := { s with buffer := bufferAppend s.buffer data }) (le_refl _) (by simpa only [hlive] using hclean)
    (by simpa only [hlive] using hmask)
  simp only [hlive] at hd
  refine ⟨s', ?_, ⟨hd.status, hd.clientRole, hd.live, hd.cache, hd.happened, hd.writes⟩⟩
  unfold streamWsReceiveChunk
  simp only
  rw [if_neg (fun hne => hne hs), hloop]
  rfl

/-- A chunk completes some of the frames, which are handled. -/
theorem Awaits.receiveChunk {s : StreamWs} {data bytes : Bytes} {pending : List (WsFrame × Frame)}
    (h : Awaits s (data ++ bytes) pending) :
    ∃ s' done rest, streamWsReceiveChunk sha1 env s data = some (none, s') ∧ pending = done ++ rest ∧
      Awaits s' bytes rest ∧ Drained s s' done s'.buffer.live := by
  have hall := h.drained
  rw [← List.append_assoc] at hall
  have hclean := Framing.drain_clean_prefix frameParser_stable bytes (s.buffer.live ++ data) (by rw [hall])
  have hsplit := Framing.drain_append frameParser_stable bytes _ hclean
  rw [hall] at hsplit
  injection hsplit with hpending hnil hgood
  obtain ⟨s', hchunk, hd⟩ := receiveChunk_drained sha1 env h.status hclean fun hrole found hfound =>
    h.unmasked hrole found (by rw [hpending]; exact List.mem_append_left _ hfound)
  refine ⟨s', _, _, hchunk, hpending, ⟨?_, ?_, ?_, ?_⟩, ?_⟩
  · exact hd.status.trans h.status
  · rw [hd.live]
    exact Framing.drain_rest frameParser_stable _
  · rw [hd.live, hnil, hgood]
  · intro hrole found hfound
    refine h.unmasked (hd.clientRole ▸ hrole) found ?_
    rw [hpending]
    exact List.mem_append_right _ hfound
  · rw [hd.live]
    exact ⟨hd.status, hd.clientRole, hd.live, hd.cache, hd.happened, hd.writes⟩

/-- A chunk of whole frames. -/
theorem receiveChunk_frames {s : StreamWs} (hs : s.status = .ready) (hlive : s.buffer.live = []) {frames : List Frame}
    (hproper : ∀ f ∈ frames, f.Proper) (hmask : s.clientRole = true → ∀ f ∈ frames, f.mask = none) :
    ∃ s', streamWsReceiveChunk sha1 env s (frames.flatMap Frame.format) = some (none, s') ∧
      Drained s s' (frames.map fun f => (f.header, f)) [] := by
  have hdrain : drain frameParser (s.buffer.live ++ frames.flatMap Frame.format) =
      ⟨frames.map fun f => (f.header, f), [], false⟩ := by
    rw [hlive, List.nil_append]
    exact drain_format hproper
  have hchunk := @receiveChunk_drained sha1 env s (frames.flatMap Frame.format) hs
  rw [hdrain] at hchunk
  refine hchunk rfl fun hrole found hfound => ?_
  obtain ⟨f, hf, rfl⟩ := List.mem_map.1 hfound
  exact hmask hrole f hf

/-- Which bytes are to come after some reads. -/
def bytesOf (reads : List Chunk) : Bytes := (reads.map Chunk.data).flatten

/-- The reads of a call complete some of the frames; it leaves its loop with a message waiting, or
without any read left. -/
theorem Awaits.peekLoop : ∀ (reads : List Chunk) {s : StreamWs} {bytes : Bytes} {pending : List (WsFrame × Frame)},
    Awaits s (bytesOf reads ++ bytes) pending →
      ∃ left loopEnd s' done rest, streamWsPeekLoop sha1 env reads s = some (left, loopEnd, s') ∧ pending = done ++ rest ∧
        Awaits s' (bytesOf left ++ bytes) rest ∧ Drained s s' done s'.buffer.live ∧
        (loopEnd = .waiting ∧ s'.waiting = true ∨ loopEnd = .ended ∧ s'.waiting = false ∧ left = [])
  | [], s, bytes, pending, h => by
    unfold streamWsPeekLoop
    by_cases hwaiting : s.waiting = true
    · rw [if_pos hwaiting]
      exact ⟨_, _, _, [], _, rfl, rfl, h, .refl s, Or.inl ⟨rfl, hwaiting⟩⟩
    · rw [if_neg hwaiting]
      exact ⟨_, _, _, [], _, rfl, rfl, h, .refl s, Or.inr ⟨rfl, by simpa using hwaiting, rfl⟩⟩
  | chunk :: reads, s, bytes, pending, h => by
    unfold streamWsPeekLoop
    by_cases hwaiting : s.waiting = true
    · rw [if_pos hwaiting]
      exact ⟨_, _, _, [], _, rfl, rfl, h, .refl s, Or.inl ⟨rfl, hwaiting⟩⟩
    · rw [if_neg hwaiting]
      have hbytes : bytesOf (chunk :: reads) ++ bytes = chunk.data ++ (bytesOf reads ++ bytes) := by simp [bytesOf]
      rw [hbytes] at h
      obtain ⟨t, done, rest, hchunk, rfl, ht, hd⟩ := h.receiveChunk sha1 env
      obtain ⟨left, loopEnd, s', done', rest', hloop, rfl, hs', hd', hend⟩ := peekLoop reads ht
      refine ⟨left, loopEnd, s', done ++ done', rest', ?_, by rw [List.append_assoc], hs', hd.trans hd', hend⟩
      simp only [hchunk]
      exact hloop

theorem peeked_of_not_waiting {s : StreamWs} (h : s.waiting = false) : streamWsPeeked s = .error .again := by
  unfold streamWsPeeked
  unfold StreamWs.waiting at h
  cases hcache : s.cache with
  | nil => rfl
  | cons slice cache =>
    rw [hcache] at h
    have hfin : slice.fin = false := by simpa using h
    simp [hfin]

/-- What a call of `stream_ws_peek_frame` returns to a stream that is ready. -/
theorem Awaits.peekFrame {s : StreamWs} {reads : List Chunk} {bytes : Bytes} {pending : List (WsFrame × Frame)}
    (h : Awaits s (bytesOf reads ++ bytes) pending) (last : ReadEnd) :
    ∃ result left s' done rest, streamWsPeekFrame sha1 env s reads last = some (result, left, s') ∧ pending = done ++ rest ∧
      Awaits s' (bytesOf left ++ bytes) rest ∧ Drained s s' done s'.buffer.live ∧
      (s'.waiting = true ∧ result = streamWsPeeked s' ∨
        s'.waiting = false ∧ left = [] ∧ (last = .again → result = .error .again)) := by
  obtain ⟨left, loopEnd, s', done, rest, hloop, hpending, hs', hd, hend⟩ := h.peekLoop sha1 env reads
  unfold streamWsPeekFrame
  rw [hloop]
  refine ⟨_, left, s', done, rest, rfl, hpending, hs', hd, ?_⟩
  rcases hend with ⟨rfl, hwaiting⟩ | ⟨rfl, hwaiting, hleft⟩
  · exact Or.inl ⟨hwaiting, rfl⟩
  · refine Or.inr ⟨hwaiting, hleft, ?_⟩
    rintro rfl
    exact peeked_of_not_waiting hwaiting

end Peek

/-! ## Where a call stops -/

/-- A stream that is ready, and reads whose bytes go on with what its buffer holds as frames that
its peer masks as it should. -/
structure Receives (s : StreamWs) (reads : List Chunk) : Prop where
  status : s.status = .ready
  clean : (drain frameParser (s.buffer.live ++ bytesOf reads)).bad = false
  unmasked : s.clientRole = true → ∀ found ∈ (drain frameParser (s.buffer.live ++ bytesOf reads)).frames,
    found.2.mask = none

/-- The first message of the cache when a call stops reading: as soon as it is complete, or behind
the last read. -/
def frontAt (live : Bytes) (cache : List WsFrameSlice) : List Chunk → Option WsFrameSlice
  | [] => cache.head?
  | chunk :: reads =>
    if cache.head?.any (·.fin) then cache.head?
    else
      let drained := drain frameParser (live ++ chunk.data)
      frontAt drained.rest ((drained.frames.map (·.2.fragment)).foldl collect cache) reads

/-- How many PINGs a call handles before it stops reading. -/
def pingsAt (live : Bytes) (cache : List WsFrameSlice) : List Chunk → Nat
  | [] => 0
  | chunk :: reads =>
    if cache.head?.any (·.fin) then 0
    else
      let drained := drain frameParser (live ++ chunk.data)
      let fragments := drained.frames.map (·.2.fragment)
      pings fragments + pingsAt drained.rest (fragments.foldl collect cache) reads

/-- `errno` when a call stops reading. -/
def errnoAt (env : Env) (live : Bytes) (cache : List WsFrameSlice) (reads : List Chunk) : Errno :=
  env.errnoBehind (pingsAt live cache reads)

/-- The chunks are the front of what is to come. -/
theorem Awaits.receives {s : StreamWs} {reads : List Chunk} {bytes : Bytes} {pending : List (WsFrame × Frame)}
    (h : Awaits s (bytesOf reads ++ bytes) pending) : Receives s reads := by
  have hall := h.drained
  rw [← List.append_assoc] at hall
  have hclean := Framing.drain_clean_prefix frameParser_stable bytes (s.buffer.live ++ bytesOf reads) (by rw [hall])
  refine ⟨h.status, hclean, fun hrole found hfound => h.unmasked hrole found ?_⟩
  rw [Framing.drain_append frameParser_stable bytes _ hclean] at hall
  injection hall with hpending
  rw [← hpending]
  exact List.mem_append_left _ hfound

/-- A chunk leaves the rest of the reads to be received. -/
theorem Receives.receiveChunk (sha1 : Sha1) (env : Env) {s : StreamWs} {chunk : Chunk} {reads : List Chunk}
    (h : Receives s (chunk :: reads)) :
    ∃ s', streamWsReceiveChunk sha1 env s chunk.data = some (none, s') ∧ Receives s' reads ∧
      Drained s s' (drain frameParser (s.buffer.live ++ chunk.data)).frames
        (drain frameParser (s.buffer.live ++ chunk.data)).rest := by
  have hbytes : s.buffer.live ++ bytesOf (chunk :: reads) = s.buffer.live ++ chunk.data ++ bytesOf reads := by
    simp [bytesOf]
  have hall := h.clean
  have hunmasked := h.unmasked
  rw [hbytes] at hall hunmasked
  have hclean := Framing.drain_clean_prefix frameParser_stable _ _ hall
  rw [Framing.drain_append frameParser_stable _ _ hclean] at hall hunmasked
  obtain ⟨s', hchunk, hd⟩ := receiveChunk_drained sha1 env h.status hclean fun hrole found hfound =>
    hunmasked hrole found (List.mem_append_left _ hfound)
  refine ⟨s', hchunk, ⟨hd.status.trans h.status, ?_, fun hrole found hfound => ?_⟩, hd⟩
  · rw [hd.live]
    exact hall
  · rw [hd.live] at hfound
    exact hunmasked (hd.clientRole ▸ hrole) found (List.mem_append_right _ hfound)

/-- The loop is left with the message in front complete, or at the end of the reads. -/
theorem Receives.peekLoop (sha1 : Sha1) (env : Env) : ∀ {reads : List Chunk} {s : StreamWs}, Receives s reads →
    ∃ left loopEnd s', streamWsPeekLoop sha1 env reads s = some (left, loopEnd, s') ∧
      s'.cache.head? = frontAt s.buffer.live s.cache reads ∧
      s'.writeCount = s.writeCount + pingsAt s.buffer.live s.cache reads ∧
      (loopEnd = .waiting ∧ s'.waiting = true ∨ loopEnd = .ended ∧ s'.waiting = false)
  | [], s, _ => by
    unfold streamWsPeekLoop
    by_cases hwaiting : s.waiting = true
    · rw [if_pos hwaiting]
      exact ⟨_, _, _, rfl, rfl, rfl, .inl ⟨rfl, hwaiting⟩⟩
    · rw [if_neg hwaiting]
      exact ⟨_, _, _, rfl, rfl, rfl, .inr ⟨rfl, by simpa using hwaiting⟩⟩
  | chunk :: reads, s, h => by
    unfold streamWsPeekLoop frontAt pingsAt
    by_cases hwaiting : s.waiting = true
    · rw [if_pos hwaiting, if_pos (by exact hwaiting), if_pos (by exact hwaiting)]
      exact ⟨_, _, _, rfl, rfl, rfl, .inl ⟨rfl, hwaiting⟩⟩
    · obtain ⟨t, hchunk, ht, hd⟩ := h.receiveChunk sha1 env
      obtain ⟨left, loopEnd, s', hloop, hfront, hwrites, hend⟩ := ht.peekLoop sha1 env
      rw [if_neg hwaiting, if_neg (by exact hwaiting), if_neg (by exact hwaiting)]
      simp only [hchunk]
      refine ⟨left, loopEnd, s', hloop, ?_, ?_, hend⟩
      · rw [hfront, hd.live, hd.cache]
      · rw [hwrites, hd.writes, hd.live, hd.cache, Nat.add_assoc]

/-- One chunk of whole frames, unmasked, for a stream that holds nothing of a frame. -/
theorem receives_frames {s : StreamWs} (hs : s.status = .ready) (hlive : s.buffer.live = [])
    (hfront : s.cache.head?.any (·.fin) = false) {frames : List Frame} (hproper : ∀ f ∈ frames, f.Proper)
    (hmask : ∀ f ∈ frames, f.mask = none) {chunk : Chunk} (hdata : chunk.data = frames.flatMap Frame.format) :
    Receives s [chunk] ∧
      frontAt s.buffer.live s.cache [chunk] = ((frames.map Frame.fragment).foldl collect s.cache).head? := by
  have hdrain : drain frameParser (s.buffer.live ++ chunk.data) = ⟨frames.map fun f => (f.header, f), [], false⟩ := by
    rw [hlive, List.nil_append, hdata]
    exact drain_format hproper
  have hbytes : bytesOf [chunk] = chunk.data := by simp [bytesOf]
  refine ⟨⟨hs, ?_, fun _ found hfound => ?_⟩, ?_⟩
  · rw [hbytes, hdrain]
  · rw [hbytes, hdrain] at hfound
    obtain ⟨f, hf, rfl⟩ := List.mem_map.1 hfound
    exact hmask f hf
  · unfold frontAt
    rw [if_neg (by rw [hfront]; exact Bool.false_ne_true), hdrain]
    simp only [List.map_map]
    rfl

/-- A frame of less than 126 bytes. -/
theorem proper_of_short {f : Frame} (hopcode : f.opcode < 16) (hlength : f.payload.length < 126) : ∀ g ∈ [f], g.Proper := by
  intro g hg
  rw [List.mem_singleton.1 hg]
  have hheader : wsMaxHeaderSize < 126 := by decide
  have hsize : 252 < sizeRange := by decide
  refine ⟨hopcode, ?_⟩
  omega

/-- What a peek returns that has come to the end of the reads. -/
def endResult : ReadEnd → Except Errno Nat
  | .again => .error .again
  | .closed => .ok 0
  | .error => .error .other

/-- So a peek returns the length of a complete message in front, or how the reads have ended. -/
theorem Receives.peekFrame (sha1 : Sha1) (env : Env) {s : StreamWs} {reads : List Chunk} (h : Receives s reads)
    (last : ReadEnd) :
    ∃ result left s', streamWsPeekFrame sha1 env s reads last = some (result, left, s') ∧
      s'.cache.head? = frontAt s.buffer.live s.cache reads ∧
      env.errnoBehind (s'.writeCount - s.writeCount) = errnoAt env s.buffer.live s.cache reads ∧
      (s'.waiting = true ∧ result = streamWsPeeked s' ∨ s'.waiting = false ∧ result = endResult last) := by
  obtain ⟨left, loopEnd, s', hloop, hfront, hwrites, hend⟩ := h.peekLoop sha1 env
  unfold streamWsPeekFrame
  rw [hloop]
  refine ⟨_, left, s', rfl, hfront, by rw [errnoAt, hwrites, Nat.add_sub_cancel_left], ?_⟩
  rcases hend with ⟨rfl, hwaiting⟩ | ⟨rfl, hwaiting⟩
  · exact .inl ⟨hwaiting, rfl⟩
  · refine .inr ⟨hwaiting, ?_⟩
    cases last with
    | again => exact peeked_of_not_waiting hwaiting
    | closed => rfl
    | error => rfl

/-! ## Sessions -/

/-- A stream, the chunks that the reads of its decorated stream are still to return, and what the
application has got of it: the frames of `stream_ws_read_frame`, and the bytes of `stream_ws_do_read`. -/
structure Session where
  stream : StreamWs
  supply : List Chunk
  frames : List WsReadFrame
  data : Bytes

/-- What an application does while `available` chunks have arrived and then the reads end as `last`
says: it peeks, or reads a part of a message; or it reads a frame. -/
inductive Op where
  | peek (env : Env) (available : Nat) (last : ReadEnd)
  | doRead (env : Env) (available : Nat) (last : ReadEnd) (length : Nat)
  | readFrame (length : Nat)

namespace Session

/-- The bytes to come. -/
def bytes (t : Session) : Bytes := bytesOf t.supply

/-- `none` where the call crashes or does not come back. -/
def step (sha1 : Sha1) (t : Session) : Op → Option Session
  | .peek env available last =>
    (streamWsPeekFrame sha1 env t.stream (t.supply.take available) last).map fun (_, left, stream) =>
      { t with stream, supply := left ++ t.supply.drop available }
  | .doRead env available last length =>
    (streamWsDoRead sha1 env t.stream (t.supply.take available) last length).map fun (result, left, stream) =>
      { t with stream, supply := left ++ t.supply.drop available, data := t.data ++ result.toOption.getD [] }
  | .readFrame length =>
    match streamWsReadFrame t.stream length with
    | (.ok frame, stream) => some { t with stream, frames := t.frames ++ [frame] }
    | (.error _, stream) => some { t with stream }

def run (sha1 : Sha1) : Session → List Op → Option Session
  | t, [] => some t
  | t, op :: ops => (t.step sha1 op).bind fun t => run sha1 t ops

theorem bytesOf_append (reads reads' : List Chunk) : bytesOf (reads ++ reads') = bytesOf reads ++ bytesOf reads' := by
  simp [bytesOf]

/-- The bytes to come are those of the available chunks and those behind them. -/
theorem bytes_split (t : Session) (available : Nat) :
    t.bytes = bytesOf (t.supply.take available) ++ bytesOf (t.supply.drop available) := by
  rw [← bytesOf_append, List.take_append_drop]
  rfl

/-- What a step that does not crash preserves, a run preserves. -/
theorem run_inv {sha1 : Sha1} {P : Session → Prop} {ops : List Op}
    (hstep : ∀ t, ∀ op ∈ ops, P t → ∃ t', t.step sha1 op = some t' ∧ P t') :
    ∀ {t : Session}, P t → ∃ t', run sha1 t ops = some t' ∧ P t' := by
  induction ops with
  | nil => exact fun h => ⟨_, rfl, h⟩
  | cons op ops ih =>
    intro t h
    obtain ⟨t', ht', hP⟩ := hstep t op (List.mem_cons_self ..) h
    obtain ⟨t'', ht'', hP'⟩ := ih (fun u o ho => hstep u o (List.mem_cons_of_mem _ ho)) hP
    exact ⟨t'', by rw [run, ht']; exact ht'', hP'⟩

end Session

end CMx.Ws
