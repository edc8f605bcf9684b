/-
Two streams that are ready, a client and a server, joined by two reliable channels of bytes: both
applications write, read and let the time pass as they like. What one application gets are the bytes that
the other has written, in order and each once, whatever is cut and whatever keep-alive frames there are.
-/
import CMx.StreamWs.Emitting
import CMx.StreamWs.Reading

namespace CMx.Ws

open Mqtt (Bytes CString StreamStatus ReadEnd Errno)
open Framing (drain Conveys)

/-! ## The network -/

/-- A stream, the bytes on their way to it, and what its application has written and has got. -/
structure Endpoint where
  stream : StreamWs
  incoming : Bytes
  written : Bytes
  got : Bytes

structure Conversation where
  near : Endpoint
  far : Endpoint

/-- What an application does. A read of the transport takes the front of the channel in chunks. -/
inductive Move where
  | write (env : Env) (payload : Payload)
  | time (env : Env)
  | peek (env : Env) (cuts : List Nat) (last : ReadEnd)
  | doRead (env : Env) (cuts : List Nat) (last : ReadEnd) (length : Nat)
  | readFrame (length : Nat)

/-- The move of one of the two. -/
inductive Turn where
  | near (move : Move)
  | far (move : Move)

/-- The front of a channel, cut into chunks, and the rest; every cut of at most 4096 bytes is there. -/
def cutReads : List Nat → Bytes → List Chunk × Bytes
  | [], bytes => ([], bytes)
  | cut :: cuts, bytes =>
    if h : bytes = [] then ([], [])
    else
      let size := cut % wsMessageBufferSize + 1
      let (reads, rest) := cutReads cuts (bytes.drop size)
      (⟨bytes.take size, by simp [h, size], by
        have := Nat.mod_lt cut (show 0 < wsMessageBufferSize by decide)
        rw [List.length_take]
        omega⟩ :: reads, rest)

/-- Nothing is lost where the channel is cut. -/
theorem bytesOf_cutReads : ∀ (cuts : List Nat) (bytes : Bytes),
    bytesOf (cutReads cuts bytes).1 ++ (cutReads cuts bytes).2 = bytes
  | [], bytes => rfl
  | cut :: cuts, bytes => by
    unfold cutReads
    by_cases h : bytes = []
    · rw [dif_pos h, h]
      rfl
    · rw [dif_neg h]
      have hrest := bytesOf_cutReads cuts (bytes.drop (cut % wsMessageBufferSize + 1))
      simp only [bytesOf, List.map_cons, List.flatten_cons, List.append_assoc] at hrest ⊢
      rw [hrest, List.take_append_drop]

section Moves

variable (sha1 : Sha1)

/-- `none` where the call crashes or does not come back. -/
def Endpoint.act (e : Endpoint) : Move → Option Endpoint
  | .write env payload =>
    some { e with stream := (streamWsDoWrite env e.stream payload.data).2, written := e.written ++ payload.data }
  | .time env => some { e with stream := (streamWsDoTime env e.stream).2 }
  | .peek env cuts last =>
    let (reads, rest) := cutReads cuts e.incoming
    (streamWsPeekFrame sha1 env e.stream reads last).map fun (_, left, stream) =>
      { e with stream, incoming := bytesOf left ++ rest }
  | .doRead env cuts last length =>
    let (reads, rest) := cutReads cuts e.incoming
    (streamWsDoRead sha1 env e.stream reads last length).map fun (taken, left, stream) =>
      { e with stream, incoming := bytesOf left ++ rest, got := e.got ++ taken.toOption.getD [] }
  | .readFrame length =>
    match streamWsReadFrame e.stream length with
    | (.ok frame, stream) => some { e with stream, got := e.got ++ frame.data }
    | (.error _, stream) => some { e with stream }

namespace Conversation

def swap (n : Conversation) : Conversation := ⟨n.far, n.near⟩

/-- What the near stream writes goes to the far one. -/
def act (n : Conversation) (move : Move) : Option Conversation :=
  (n.near.act sha1 move).map fun e =>
    ⟨e, { n.far with incoming := n.far.incoming ++ (writes n.near.stream e.stream).flatten }⟩

def step (n : Conversation) : Turn → Option Conversation
  | .near move => n.act sha1 move
  | .far move => (n.swap.act sha1 move).map swap

def run : Conversation → List Turn → Option Conversation
  | n, [] => some n
  | n, turn :: turns => (n.step sha1 turn).bind fun n => run n turns

/-- An application reads from the transport while its stream is ready. -/
def ReadsReady (n : Conversation) : Turn → Prop
  | .near (.peek ..) | .near (.doRead ..) => n.near.stream.status = .ready
  | .far (.peek ..) | .far (.doRead ..) => n.far.stream.status = .ready
  | _ => True

def ReadyAlong : Conversation → List Turn → Prop
  | _, [] => True
  | n, turn :: turns => n.ReadsReady turn ∧ ∀ n', n.step sha1 turn = some n' → ReadyAlong n' turns

instance (n : Conversation) : (turn : Turn) → Decidable (n.ReadsReady turn)
  | .near (.peek ..) | .near (.doRead ..) => inferInstanceAs (Decidable (n.near.stream.status = .ready))
  | .far (.peek ..) | .far (.doRead ..) => inferInstanceAs (Decidable (n.far.stream.status = .ready))
  | .near (.write ..) | .near (.time _) | .near (.readFrame _) => isTrue trivial
  | .far (.write ..) | .far (.time _) | .far (.readFrame _) => isTrue trivial

instance decidableReadyAlong : (n : Conversation) → (turns : List Turn) → Decidable (n.ReadyAlong sha1 turns)
  | _, [] => isTrue trivial
  | n, turn :: turns =>
    have : Decidable (∀ n', n.step sha1 turn = some n' → n'.ReadyAlong sha1 turns) :=
      match n.step sha1 turn with
      | none => isTrue fun _ h => nomatch h
      | some n' =>
        have := decidableReadyAlong n' turns
        decidable_of_iff (n'.ReadyAlong sha1 turns) ⟨fun h _ hn => Option.some.inj hn ▸ h, fun h => h n' rfl⟩
    inferInstanceAs (Decidable (_ ∧ _))

end Conversation

end Moves

/-! ## What a stream emits -/

/-- A frame as the streams write them: whole, masked as the role asks for, and without a payload if it is a
control frame. -/
structure Frame.Emitted (clientRole : Bool) (f : Frame) : Prop where
  proper : f.Proper
  mask : f.mask.isSome = clientRole
  fin : f.fin = true
  opcode : f.opcode ≠ wsOpcodeContinue
  control : ¬ f.fragment.IsData → f.payload = []

/-- Between two states of a stream these frames are written. -/
structure Emits (s s' : StreamWs) (fs : List Frame) : Prop where
  trace : ∃ events, s'.trace = s.trace ++ events ∧ events.filterMap Event.written = fs.map Frame.format
  clientRole : s'.clientRole = s.clientRole
  emitted : ∀ f ∈ fs, f.Emitted s.clientRole

namespace Emits

variable {s s' s'' : StreamWs} {fs fs' : List Frame}

/-- Nothing but events that are not writes. -/
theorem quiet {events : List Event} (htrace : s'.trace = s.trace ++ events) (hrole : s'.clientRole = s.clientRole)
    (hquiet : events.filterMap Event.written = []) : Emits s s' [] :=
  ⟨⟨events, htrace, hquiet⟩, hrole, by simp⟩

theorem trans (h : Emits s s' fs) (h' : Emits s' s'' fs') : Emits s s'' (fs ++ fs') := by
  obtain ⟨events, htrace, hwritten⟩ := h.trace
  obtain ⟨events', htrace', hwritten'⟩ := h'.trace
  refine ⟨⟨events ++ events', ?_, ?_⟩, h'.clientRole.trans h.clientRole, fun f hf => ?_⟩
  · rw [htrace', htrace, List.append_assoc]
  · rw [List.filterMap_append, hwritten, hwritten', List.map_append]
  · rcases List.mem_append.1 hf with hf | hf
    · exact h.emitted f hf
    · rw [← h.clientRole]
      exact h'.emitted f hf

/-- The bytes that go to the other stream. -/
theorem flatten_writes (h : Emits s s' fs) : (writes s s').flatten = fs.flatMap Frame.format := by
  obtain ⟨events, htrace, hwritten⟩ := h.trace
  rw [writes_eq events htrace, hwritten, List.flatMap]

end Emits

/-- A frame behind a new mask, and what else is changed then. -/
theorem emits_emitted {s s' : StreamWs} {env : Env} {opcode : UInt8} {payload : Bytes} (hopcode : opcode < 16)
    (hnot : opcode ≠ wsOpcodeContinue) (hfits : payload.length + wsMaxHeaderSize < sizeRange)
    (hcontrol : ¬ (emitted env s opcode payload).fragment.IsData → payload = [])
    (htrace : s'.trace = s.trace ++ [.write (emitted env s opcode payload).format])
    (hrole : s'.clientRole = s.clientRole) : Emits s s' [emitted env s opcode payload] := by
  refine ⟨⟨_, htrace, rfl⟩, hrole, fun f hf => ?_⟩
  obtain rfl := List.mem_singleton.1 hf
  exact ⟨emitted_proper hopcode hfits, isSome_emitted_mask env s opcode payload, rfl, hnot, hcontrol⟩

/-- A control frame carries no data. -/
theorem payloads_control {fs : List Frame} (h : ∀ f ∈ fs, ¬ f.fragment.IsData) :
    payloads (fs.map Frame.fragment) = [] := by
  have hfilter : (fs.map Frame.fragment).filter (·.IsData) = [] := by
    refine List.filter_eq_nil_iff.2 fun fragment hm => ?_
    obtain ⟨f, hf, rfl⟩ := List.mem_map.1 hm
    simpa using h f hf
  rw [payloads, hfilter]
  rfl

theorem not_isData_of_opcode {f : Frame} (h : f.opcode = wsOpcodePong ∨ f.opcode = wsOpcodePing) :
    ¬ f.fragment.IsData := by
  show ¬ ((f.opcode = wsOpcodeText ∨ f.opcode = wsOpcodeBinary) ∨ f.opcode = wsOpcodeContinue)
  rcases h with h | h <;> rw [h] <;> decide

/-- Between two states of a stream control frames are written, or nothing. -/
def EmitsControl (s s' : StreamWs) : Prop := ∃ fs, Emits s s' fs ∧ ∀ f ∈ fs, ¬ f.fragment.IsData

theorem EmitsControl.quiet {s s' : StreamWs} (htrace : s'.trace = s.trace) (hrole : s'.clientRole = s.clientRole) :
    EmitsControl s s' :=
  ⟨[], .quiet (by rw [htrace, List.append_nil]) hrole rfl, by simp⟩

theorem EmitsControl.trans {s s' s'' : StreamWs} (h : EmitsControl s s') (h' : EmitsControl s' s'') :
    EmitsControl s s'' := by
  obtain ⟨fs, hemits, hcontrol⟩ := h
  obtain ⟨fs', hemits', hcontrol'⟩ := h'
  refine ⟨fs ++ fs', hemits.trans hemits', fun f hf => ?_⟩
  rcases List.mem_append.1 hf with hf | hf
  · exact hcontrol f hf
  · exact hcontrol' f hf

section Receiving

variable (env : Env) {s s' : StreamWs}

/-- A payload is answered with a PONG, or not at all. -/
theorem emits_handlePayload (s : StreamWs) (header : WsFrame) {payload : Bytes}
    (hfits : payload.length + wsMaxHeaderSize < sizeRange) (hnone : header.opcode = wsOpcodePing → payload = []) :
    EmitsControl s (streamWsHandlePayload env s header payload) := by
  unfold streamWsHandlePayload
  by_cases hdata : header.opcode = wsOpcodeText ∨ header.opcode = wsOpcodeBinary
  · rw [if_pos hdata]
    exact .quiet rfl rfl
  rw [if_neg hdata]
  by_cases hcontinue : header.opcode = wsOpcodeContinue
  · rw [if_pos hcontinue]
    exact .quiet rfl rfl
  rw [if_neg hcontinue]
  by_cases hping : header.opcode = wsOpcodePing
  · rw [if_pos hping]
    refine ⟨[emitted env s wsOpcodePong payload],
      emits_emitted (by decide) (by decide) hfits (fun _ => hnone hping) rfl rfl, ?_⟩
    intro f hf
    obtain rfl := List.mem_singleton.1 hf
    exact not_isData_of_opcode (Or.inl rfl)
  rw [if_neg hping]
  by_cases hpong : header.opcode = wsOpcodePong
  · rw [if_pos hpong]
    exact .quiet rfl rfl
  · rw [if_neg hpong]
    exact .quiet rfl rfl

/-- So is a received frame that is masked as it should be. -/
theorem emits_handleReceivedFrame {header : WsFrame} {frameLength : Nat}
    (h : wsParseFrame s.buffer.live = .frame header frameLength) (hwraps : ¬ header.Wraps)
    (hmask : s.clientRole = true → header.maskFlag = false)
    (hfits : (frameAt s.buffer.live header).payload.length + wsMaxHeaderSize < sizeRange)
    (hnone : header.opcode = wsOpcodePing → (frameAt s.buffer.live header).payload = [])
    (hs' : streamWsHandleReceivedFrame env s header = some s') : EmitsControl s s' := by
  obtain ⟨b, hunmask, -, -, hpayload⟩ := streamWsUnmask_spec env (wsParseFrame_spec h) hwraps hmask
  unfold streamWsHandleReceivedFrame at hs'
  rw [if_neg (fun hc => hwraps hc.1), hunmask] at hs'
  simp only [hpayload] at hs'
  cases hs'
  have hlog : EmitsControl s
      (StreamWs.log { s with buffer := b } (.receive header (frameAt s.buffer.live header).payload)) :=
    ⟨[], .quiet rfl rfl rfl, by simp⟩
  exact hlog.trans (emits_handlePayload env _ header hfits hnone)

/-- A parsed frame as the other side writes them. -/
def FromPeer (clientRole : Bool) (found : WsFrame × Frame) : Prop := found.2.Emitted (!clientRole)

theorem parseLoop_emits : ∀ (rounds : Nat) {s : StreamWs}, (drain frameParser s.buffer.live).bad = false →
    (∀ found ∈ (drain frameParser s.buffer.live).frames, FromPeer s.clientRole found) →
    streamWsParseLoop env rounds s = some s' → EmitsControl s s'
  | 0, s, _, _, h => by
    unfold streamWsParseLoop at h
    by_cases hempty : bufferIsEmpty s.buffer = true
    · rw [if_pos hempty] at h
      cases h
      exact .quiet rfl rfl
    · rw [if_neg hempty] at h
      cases h
  | rounds + 1, s, hclean, hpeer, h => by
    unfold streamWsParseLoop at h
    by_cases hempty : bufferIsEmpty s.buffer = true
    · rw [if_pos hempty] at h
      cases h
      exact .quiet rfl rfl
    rw [if_neg hempty] at h
    cases hp : wsParseFrame s.buffer.live with
    | more n =>
      rw [hp] at h
      cases h
      exact .quiet rfl rfl
    | frame header frameLength =>
      have hwraps : ¬ header.Wraps := fun hw => by
        rw [Framing.drain_bad (by simp [frameParser, hp, hw])] at hclean
        cases hclean
      have hframe : frameParser s.buffer.live = .frame (header, frameAt s.buffer.live header) frameLength := by
        simp [frameParser, hp, hwraps]
      rw [Framing.drain_frame frameParser_stable hframe] at hclean hpeer
      have hfirst := hpeer _ (List.mem_cons_self ..)
      have hflag : s.clientRole = true → header.maskFlag = false := fun hrole => by
        have hmask := hfirst.mask
        rw [hrole] at hmask
        simpa [frameAt, maskOf] using hmask
      obtain ⟨t, ht, hhandled⟩ := handle_frame env hp hwraps hflag
      have hnone : header.opcode = wsOpcodePing → (frameAt s.buffer.live header).payload = [] := fun hping =>
        hfirst.control (not_isData_of_opcode (Or.inr hping))
      have hemits := emits_handleReceivedFrame env hp hwraps hflag hfirst.proper.length_lt hnone ht
      rw [hp] at h
      simp only [ht] at h
      -- the rest of the buffer is drained from the state behind the frame
      have hle : frameLength ≤ t.buffer.length := by
        rw [hhandled.length, ← Buffer.length_live]
        exact (wsParseFrame_spec hp).frameLength_le
      have hcut : (bufferCut t.buffer frameLength).live = s.buffer.live.drop frameLength := by
        rw [live_bufferCut _ hle, hhandled.behind]
      have hmiddle : EmitsControl t { t with buffer := bufferCut t.buffer frameLength } := .quiet rfl rfl
      refine (hemits.trans hmiddle).trans (parseLoop_emits rounds (by rw [hcut]; exact hclean) ?_ h)
      rw [hcut]
      intro found hfound
      have hrest := hpeer found (List.mem_cons_of_mem _ hfound)
      rw [← hhandled.clientRole] at hrest
      exact hrest

theorem receiveChunk_emits (sha1 : Sha1) {data : Bytes} {result : Option (Except Errno Nat)} (hs : s.status = .ready)
    (hclean : (drain frameParser (s.buffer.live ++ data)).bad = false)
    (hpeer : ∀ found ∈ (drain frameParser (s.buffer.live ++ data)).frames, FromPeer s.clientRole found)
    (h : streamWsReceiveChunk sha1 env s data = some (result, s')) : EmitsControl s s' := by
  unfold streamWsReceiveChunk at h
  simp only at h
  rw [if_neg fun hne => hne hs] at h
  obtain ⟨t, hloop, ht⟩ := Option.map_eq_some_iff.1 h
  cases ht
  have hlive : (bufferAppend s.buffer data).live = s.buffer.live ++ data := live_bufferAppend s.buffer data
  have hbuffer : EmitsControl s { s with buffer := bufferAppend s.buffer data } := .quiet rfl rfl
  refine hbuffer.trans (parseLoop_emits env _ ?_ ?_ hloop)
  · rw [hlive]
    exact hclean
  · rw [hlive]
    exact hpeer

theorem peekLoop_emits (sha1 : Sha1) : ∀ (reads : List Chunk) {s : StreamWs} {bytes : Bytes}
    {pending : List (WsFrame × Frame)} {left : List Chunk} {loopEnd : PeekEnd},
    Awaits s (bytesOf reads ++ bytes) pending →
    (∀ found ∈ pending, FromPeer s.clientRole found) →
    streamWsPeekLoop sha1 env reads s = some (left, loopEnd, s') → EmitsControl s s'
  | [], s, bytes, pending, left, loopEnd, _, _, h => by
    unfold streamWsPeekLoop at h
    split at h <;> cases h <;> exact .quiet rfl rfl
  | chunk :: reads, s, bytes, pending, left, loopEnd, hawaits, hpeer, h => by
    unfold streamWsPeekLoop at h
    by_cases hwaiting : s.waiting = true
    · rw [if_pos hwaiting] at h
      cases h
      exact .quiet rfl rfl
    rw [if_neg hwaiting] at h
    have hbytes : bytesOf (chunk :: reads) ++ bytes = chunk.data ++ (bytesOf reads ++ bytes) := by simp [bytesOf]
    rw [hbytes] at hawaits
    -- the frames that the chunk completes are some of those to come
    have hconveys : Conveys frameParser s.buffer.live (chunk.data ++ (bytesOf reads ++ bytes)) pending := by
      refine ⟨?_, hawaits.drained⟩
      have hmore := Framing.parse_rest frameParser_stable s.buffer.live
      rw [hawaits.begun] at hmore
      exact hmore
    obtain ⟨hclean, rest', hsplit, -⟩ := hconveys.receive frameParser_stable
    obtain ⟨t, done, rest, hchunk, rfl, ht, hd⟩ := hawaits.receiveChunk sha1 env
    have hfirst : EmitsControl s t := receiveChunk_emits env sha1 hawaits.status hclean (fun found hfound =>
      hpeer found (by rw [hsplit]; exact List.mem_append_left _ hfound)) hchunk
    simp only [hchunk] at h
    refine hfirst.trans (peekLoop_emits sha1 reads ht (fun found hfound => ?_) h)
    rw [hd.clientRole]
    exact hpeer found (List.mem_append_right _ hfound)

end Receiving

/-! ## What a stream collects -/

/-- Fragments that begin messages, and control frames, fit behind any cache. -/
theorem fits_whole : ∀ (cache : List WsFrameSlice) (fs : List Fragment), (∀ f ∈ fs, ¬ f.Continues) → Fits cache fs
  | _, [], _ => trivial
  | _, f :: fs, h =>
    ⟨fun hc => absurd hc (h f (List.mem_cons_self ..)), fits_whole _ fs fun g hg => h g (List.mem_cons_of_mem _ hg)⟩

/-- Messages in one frame are complete in the cache. -/
theorem fins_foldl_collect : ∀ (fs : List Fragment) {cache : List WsFrameSlice}, (∀ slice ∈ cache, slice.fin = true) →
    (∀ f ∈ fs, f.fin = true ∧ ¬ f.Continues) → ∀ slice ∈ fs.foldl collect cache, slice.fin = true
  | [], cache, hcache, _ => hcache
  | f :: fs, cache, hcache, h => by
    obtain ⟨hfin, hnot⟩ := h f (List.mem_cons_self ..)
    refine fins_foldl_collect fs ?_ fun g hg => h g (List.mem_cons_of_mem _ hg)
    intro slice hslice
    by_cases hs : f.Starts
    · rw [collect_starts hs] at hslice
      rcases List.mem_append.1 hslice with hslice | hslice
      · exact hcache slice hslice
      · obtain rfl := List.mem_singleton.1 hslice
        exact hfin
    · rw [collect_control (by rw [Fragment.IsData, not_or]; exact ⟨hs, hnot⟩)] at hslice
      exact hcache slice hslice

/-! ## From one application to the other -/

/-- What has been written at one end is what the other application has got, what is in its cache and what the
frames on their way bring. -/
structure Flow (w r : Endpoint) (pending : List (WsFrame × Frame)) : Prop where
  conveys : Conveys frameParser r.stream.buffer.live r.incoming pending
  fromPeer : ∀ found ∈ pending, FromPeer r.stream.clientRole found
  fins : ∀ slice ∈ r.stream.cache, slice.fin = true
  bytes : r.got ++ bytesIn r.stream.cache ++ payloads (fragmentsOf pending) = w.written

section Flow

variable {w w' r r' : Endpoint} {pending : List (WsFrame × Frame)}

theorem Flow.fragments (h : Flow w r pending) : ∀ f ∈ fragmentsOf pending, f.fin = true ∧ ¬ f.Continues := by
  intro f hf
  obtain ⟨found, hfound, rfl⟩ := List.mem_map.1 hf
  have hpeer := h.fromPeer found hfound
  exact ⟨hpeer.fin, hpeer.opcode⟩

theorem Flow.awaits (h : Flow w r pending) (hready : r.stream.status = .ready) :
    Awaits r.stream r.incoming pending where
  status := hready
  begun := Framing.drain_more h.conveys.begun
  drained := h.conveys.drained
  unmasked := by
    intro hrole found hfound
    have hmask := (h.fromPeer found hfound).mask
    rw [hrole] at hmask
    simpa using hmask

/-- The writer emits frames, which bring what its application has written. -/
theorem Flow.send (h : Flow w r pending) {fs : List Frame} (hrole : r.stream.clientRole = !w.stream.clientRole)
    (hemits : Emits w.stream w'.stream fs) (hwritten : w'.written = w.written ++ payloads (fs.map Frame.fragment)) :
    Flow w' { r with incoming := r.incoming ++ (writes w.stream w'.stream).flatten }
      (pending ++ fs.map fun f => (f.header, f)) where
  conveys := by
    rw [hemits.flatten_writes]
    exact h.conveys.send frameParser_stable (drain_format fun f hf => (hemits.emitted f hf).proper)
  fromPeer := by
    intro found hfound
    rcases List.mem_append.1 hfound with hfound | hfound
    · exact h.fromPeer found hfound
    · obtain ⟨f, hf, rfl⟩ := List.mem_map.1 hfound
      show f.Emitted (!r.stream.clientRole)
      rw [hrole, Bool.not_not]
      exact hemits.emitted f hf
  fins := h.fins
  bytes := by
    have hsplit : payloads (fragmentsOf (pending ++ fs.map fun f => (f.header, f))) =
        payloads (fragmentsOf pending) ++ payloads (fs.map Frame.fragment) := by
      have hmap : fragmentsOf (pending ++ fs.map fun f => (f.header, f)) =
          fragmentsOf pending ++ fs.map Frame.fragment := by
        simp [fragmentsOf, Function.comp_def]
      rw [hmap, payloads, List.filter_append, List.flatMap_append]
      rfl
    rw [hsplit, hwritten, ← h.bytes]
    simp only [List.append_assoc]

/-- The writer changes, but for what it has written. -/
theorem Flow.keep (h : Flow w r pending) (hwritten : w'.written = w.written) : Flow w' r pending :=
  ⟨h.conveys, h.fromPeer, h.fins, by rw [hwritten]; exact h.bytes⟩

/-- The reader handles some of the frames. -/
theorem Flow.drained {done rest : List (WsFrame × Frame)} (h : Flow w r (done ++ rest)) {live : Bytes}
    (hd : Drained r.stream r'.stream done live) (hconveys : Conveys frameParser r'.stream.buffer.live r'.incoming rest)
    (hgot : r'.got = r.got) : Flow w r' rest where
  conveys := hconveys
  fromPeer := by
    intro found hfound
    rw [hd.clientRole]
    exact h.fromPeer found (List.mem_append_right _ hfound)
  fins := by
    have hcache : r'.stream.cache = (fragmentsOf done).foldl collect r.stream.cache := hd.cache
    rw [hcache]
    refine fins_foldl_collect _ h.fins fun f hf => h.fragments f ?_
    rw [fragmentsOf, List.map_append]
    exact List.mem_append_left _ hf
  bytes := by
    have hfits : Fits r.stream.cache (fragmentsOf (done ++ rest)) := fits_whole _ _ fun f hf => (h.fragments f hf).2
    obtain ⟨hfits', hfold⟩ := fits_drained hd hfits
    rw [hgot, List.append_assoc, ← bytesIn_foldl_collect hfits', ← hfold, bytesIn_foldl_collect hfits,
      ← List.append_assoc]
    exact h.bytes

/-- The application takes bytes off the front of the cache. -/
theorem Flow.take {cache : List WsFrameSlice} {taken : Bytes} (h : Flow w r pending)
    (htaken : taken ++ bytesIn cache = bytesIn r.stream.cache) (hfins : ∀ slice ∈ cache, slice.fin = true) :
    Flow w { r with stream := { r.stream with cache }, got := r.got ++ taken } pending where
  conveys := h.conveys
  fromPeer := h.fromPeer
  fins := hfins
  bytes := by
    show r.got ++ taken ++ bytesIn cache ++ _ = _
    rw [List.append_assoc r.got, htaken]
    exact h.bytes

end Flow

/-! ## Steps -/

/-- Two streams of opposite roles, and what is on its way between them. -/
structure Conversation.Inv (n : Conversation) : Prop where
  roles : n.far.stream.clientRole = !n.near.stream.clientRole
  nearTyped : n.near.stream.Typed
  farTyped : n.far.stream.Typed
  toFar : ∃ pending, Flow n.near n.far pending
  toNear : ∃ pending, Flow n.far n.near pending

section Step

variable {n : Conversation} {e : Endpoint}

theorem Conversation.Inv.swap (h : n.Inv) : n.swap.Inv where
  roles := by
    show n.near.stream.clientRole = !n.far.stream.clientRole
    rw [h.roles, Bool.not_not]
  nearTyped := h.farTyped
  farTyped := h.nearTyped
  toFar := h.toNear
  toNear := h.toFar

/-- What is to be shown of a move. -/
theorem Conversation.Inv.next (h : n.Inv) {fs : List Frame} (hemits : Emits n.near.stream e.stream fs)
    (hwritten : e.written = n.near.written ++ payloads (fs.map Frame.fragment)) (htyped : e.stream.Typed)
    (hflow : ∀ pending, Flow n.far n.near pending → ∃ pending', Flow n.far e pending') :
    Conversation.Inv ⟨e, { n.far with incoming := n.far.incoming ++ (writes n.near.stream e.stream).flatten }⟩ where
  roles := by
    show n.far.stream.clientRole = !e.stream.clientRole
    rw [hemits.clientRole]
    exact h.roles
  nearTyped := htyped
  farTyped := h.farTyped
  toFar := by
    obtain ⟨pending, hpending⟩ := h.toFar
    exact ⟨_, hpending.send h.roles hemits hwritten⟩
  toNear := by
    obtain ⟨pending, hpending⟩ := h.toNear
    obtain ⟨pending', hpending'⟩ := hflow pending hpending
    exact ⟨pending', hpending'.keep rfl⟩

theorem Conversation.Inv.next_control (h : n.Inv) (hemits : EmitsControl n.near.stream e.stream)
    (hwritten : e.written = n.near.written) (htyped : e.stream.Typed)
    (hflow : ∀ pending, Flow n.far n.near pending → ∃ pending', Flow n.far e pending') :
    Conversation.Inv ⟨e, { n.far with incoming := n.far.incoming ++ (writes n.near.stream e.stream).flatten }⟩ := by
  obtain ⟨fs, hfs, hcontrol⟩ := hemits
  refine h.next hfs ?_ htyped hflow
  rw [payloads_control hcontrol, List.append_nil]
  exact hwritten

theorem Conversation.Inv.write (h : n.Inv) (sha1 : Sha1) (env : Env) (payload : Payload) :
    ∃ n', n.act sha1 (.write env payload) = some n' ∧ n'.Inv := by
  have hopcode : n.near.stream.dataType < 16 ∧ n.near.stream.dataType ≠ wsOpcodeContinue := by
    rcases h.nearTyped with hd | hd <;> rw [hd] <;> decide
  have hdata : (emitted env n.near.stream n.near.stream.dataType payload.data).fragment.IsData := Or.inl h.nearTyped
  refine ⟨_, rfl, h.next (emits_emitted hopcode.1 hopcode.2 payload.fits (fun hnot => absurd hdata hnot) rfl rfl) ?_
    h.nearTyped fun pending hpending => ⟨pending, hpending.conveys, hpending.fromPeer, hpending.fins, hpending.bytes⟩⟩
  rw [List.map_cons, payloads_cons, if_pos hdata]
  exact congrArg (n.near.written ++ ·) (List.append_nil payload.data).symm

theorem doTime_keeps (env : Env) (s : StreamWs) :
    EmitsControl s (streamWsDoTime env s).2 ∧ (streamWsDoTime env s).2.buffer = s.buffer ∧
      (streamWsDoTime env s).2.cache = s.cache := by
  unfold streamWsDoTime
  simp only
  by_cases hexpired : timerExpired env.clock s.keepAliveTimer = true
  · rw [if_pos hexpired]
    by_cases hrole : s.clientRole = true
    · rw [if_pos hrole]
      by_cases hresponded : s.keepAliveResponded = true
      · rw [if_pos hresponded]
        refine ⟨⟨[emitted env s wsOpcodePing []], emits_emitted (by decide) (by decide) (by decide)
          (fun _ => rfl) rfl rfl, ?_⟩, rfl, rfl⟩
        intro f hf
        obtain rfl := List.mem_singleton.1 hf
        exact not_isData_of_opcode (Or.inr rfl)
      · rw [if_neg hresponded]
        exact ⟨.quiet rfl rfl, rfl, rfl⟩
    · rw [if_neg hrole]
      exact ⟨.quiet rfl rfl, rfl, rfl⟩
  · rw [if_neg hexpired]
    exact ⟨.quiet rfl rfl, rfl, rfl⟩

theorem Conversation.Inv.time (h : n.Inv) (sha1 : Sha1) (env : Env) :
    ∃ n', n.act sha1 (.time env) = some n' ∧ n'.Inv := by
  obtain ⟨hemits, hbuffer, hcache⟩ := doTime_keeps env n.near.stream
  have htyped : (streamWsDoTime env n.near.stream).2.Typed := by
    rw [StreamWs.Typed, dataType_doTime]
    exact h.nearTyped
  have hrole : (streamWsDoTime env n.near.stream).2.clientRole = n.near.stream.clientRole := by
    obtain ⟨fs, hfs, -⟩ := hemits
    exact hfs.clientRole
  refine ⟨_, rfl, h.next_control hemits rfl htyped fun pending hpending => ⟨pending, ?_, ?_, ?_, ?_⟩⟩
  · show Conveys frameParser (streamWsDoTime env n.near.stream).2.buffer.live _ _
    rw [hbuffer]
    exact hpending.conveys
  · show ∀ found ∈ pending, FromPeer (streamWsDoTime env n.near.stream).2.clientRole found
    rw [hrole]
    exact hpending.fromPeer
  · show ∀ slice ∈ (streamWsDoTime env n.near.stream).2.cache, _
    rw [hcache]
    exact hpending.fins
  · show n.near.got ++ bytesIn (streamWsDoTime env n.near.stream).2.cache ++ _ = _
    rw [hcache]
    exact hpending.bytes

/-- A peek that reads a part of the channel. -/
theorem Conversation.Inv.peeked (h : n.Inv) (sha1 : Sha1) (env : Env) (reads : List Chunk) {bytes : Bytes}
    (hbytes : n.near.incoming = bytesOf reads ++ bytes) (last : ReadEnd) (hready : n.near.stream.status = .ready) :
    ∃ result left s, streamWsPeekFrame sha1 env n.near.stream reads last = some (result, left, s) ∧
      EmitsControl n.near.stream s ∧ s.Typed ∧ s.status = .ready ∧
      (∃ pending, Flow n.far { n.near with stream := s, incoming := bytesOf left ++ bytes } pending) ∧
      (s.waiting = true ∧ result = streamWsPeeked s ∨
        s.waiting = false ∧ left = [] ∧ (last = .again → result = .error .again)) := by
  obtain ⟨pending, hpending⟩ := h.toNear
  have hawaits := hpending.awaits hready
  rw [hbytes] at hawaits
  obtain ⟨result, left, s, done, rest, hpeek, rfl, hs, hd, hend⟩ := hawaits.peekFrame sha1 env last
  have hemits : EmitsControl n.near.stream s := by
    obtain ⟨⟨left', loopEnd, t⟩, hloop, ht⟩ := Option.map_eq_some_iff.1 hpeek
    cases ht
    exact peekLoop_emits env sha1 reads hawaits hpending.fromPeer hloop
  have hconveys : Conveys frameParser s.buffer.live (bytesOf left ++ bytes) rest := by
    refine ⟨?_, hs.drained⟩
    have hmore := Framing.parse_rest frameParser_stable s.buffer.live
    rw [hs.begun] at hmore
    exact hmore
  exact ⟨result, left, s, hpeek, hemits, typed_peekFrame h.nearTyped hpeek, hs.status,
    ⟨rest, hpending.drained hd hconveys rfl⟩, hend⟩

/-- What is taken from the first message is behind what has been got. -/
theorem take_flow {w r : Endpoint} {pending : List (WsFrame × Frame)} (h : Flow w r pending) (length : Nat) :
    ∃ cache, (streamWsTake r.stream length).2 = { r.stream with cache } ∧
      Flow w { r with
        stream := { r.stream with cache }, got := r.got ++ (streamWsTake r.stream length).1.toOption.getD [] } pending := by
  have hfits : Fits r.stream.cache (fragmentsOf pending) := fits_whole _ _ fun f hf => (h.fragments f hf).2
  have hspares : ∀ slice, r.stream.cache.head? = some slice → slice.fin = true ∨ length < slice.buffer.length :=
    fun slice hslice => Or.inl (h.fins slice (List.mem_of_mem_head? hslice))
  obtain ⟨htaken, -, -, cache, hcache⟩ := take_conserves hfits hspares
  refine ⟨cache, hcache, h.take (by rw [← htaken, hcache]) ?_⟩
  -- a message from which bytes are taken stays complete
  have hsame : (streamWsTake r.stream length).2.cache = cache := by rw [hcache]
  unfold streamWsTake at hsame
  cases hfront : r.stream.cache with
  | nil =>
    rw [hfront] at hsame
    simp only at hsame
    rw [← hsame]
    exact h.fins
  | cons slice behind =>
    have hfins := h.fins
    rw [hfront] at hsame hfins
    simp only at hsame
    rw [List.forall_mem_cons] at hfins
    rw [← hsame]
    by_cases hrest : slice.buffer.drop length = []
    · rw [if_pos hrest]
      exact hfins.2
    · rw [if_neg hrest, List.forall_mem_cons]
      exact hfins

theorem Conversation.Inv.peek (h : n.Inv) (sha1 : Sha1) (env : Env) (cuts : List Nat) (last : ReadEnd)
    (hready : n.near.stream.status = .ready) : ∃ n', n.act sha1 (.peek env cuts last) = some n' ∧ n'.Inv := by
  obtain ⟨result, left, s, hpeek, hemits, htyped, -, hflow, -⟩ := h.peeked sha1 env (cutReads cuts n.near.incoming).1
    (bytesOf_cutReads cuts n.near.incoming).symm last hready
  have hact : n.near.act sha1 (.peek env cuts last) =
      some { n.near with stream := s, incoming := bytesOf left ++ (cutReads cuts n.near.incoming).2 } := by
    simp only [Endpoint.act, hpeek, Option.map_some]
  refine ⟨_, by rw [act, hact]; rfl, ?_⟩
  exact h.next_control hemits rfl htyped fun _ _ => hflow

theorem Conversation.Inv.doRead (h : n.Inv) (sha1 : Sha1) (env : Env) (cuts : List Nat) (last : ReadEnd) (length : Nat)
    (hready : n.near.stream.status = .ready) :
    ∃ n', n.act sha1 (.doRead env cuts last length) = some n' ∧ n'.Inv := by
  obtain ⟨result, left, s, hpeek, hemits, htyped, -, ⟨pending, hpending⟩, -⟩ := h.peeked sha1 env
    (cutReads cuts n.near.incoming).1 (bytesOf_cutReads cuts n.near.incoming).symm last hready
  obtain ⟨taken, s', hread, hcases⟩ := doRead_cases hpeek length
  have hact : n.near.act sha1 (.doRead env cuts last length) =
      some { n.near with
        stream := s', incoming := bytesOf left ++ (cutReads cuts n.near.incoming).2
        got := n.near.got ++ taken.toOption.getD [] } := by
    simp only [Endpoint.act, hread, Option.map_some]
  refine ⟨_, by rw [act, hact]; rfl, ?_⟩
  rcases hcases with ⟨rfl, hnothing, -, -⟩ | htake
  · refine h.next_control hemits rfl htyped fun _ _ => ⟨pending, ?_⟩
    rw [hnothing, List.append_nil]
    exact hpending
  · obtain ⟨cache, hcache, hflow⟩ := take_flow hpending length
    rw [← htake] at hcache hflow
    simp only at hcache hflow
    rw [hcache]
    refine h.next_control ?_ rfl htyped fun _ _ => ⟨pending, hflow⟩
    exact hemits.trans (.quiet rfl rfl)

theorem Conversation.Inv.readFrame (h : n.Inv) (sha1 : Sha1) (length : Nat) :
    ∃ n', n.act sha1 (.readFrame length) = some n' ∧ n'.Inv := by
  have hsame : Conversation.Inv
      ⟨n.near, { n.far with incoming := n.far.incoming ++ (writes n.near.stream n.near.stream).flatten }⟩ :=
    h.next_control (.quiet rfl rfl) rfl h.nearTyped fun pending hpending => ⟨pending, hpending⟩
  unfold act Endpoint.act streamWsReadFrame
  cases hcache : n.near.stream.cache with
  | nil => exact ⟨_, rfl, hsame⟩
  | cons slice cache =>
    by_cases hfin : slice.fin = false
    · simp only [if_pos hfin]
      exact ⟨_, rfl, hsame⟩
    · simp only [if_neg hfin]
      by_cases hlong : slice.buffer.length > length
      · simp only [if_pos hlong]
        exact ⟨_, rfl, hsame⟩
      · simp only [if_neg hlong]
        refine ⟨_, rfl, h.next_control (.quiet rfl rfl) rfl h.nearTyped fun pending hpending => ⟨pending, ?_⟩⟩
        refine hpending.take ?_ ?_
        · rw [hcache]
          rfl
        · intro other hother
          exact hpending.fins other (by rw [hcache]; exact List.mem_cons_of_mem _ hother)

theorem Conversation.Inv.act (h : n.Inv) (sha1 : Sha1) {move : Move}
    (hready : n.ReadsReady (.near move)) : ∃ n', n.act sha1 move = some n' ∧ n'.Inv := by
  cases move with
  | write env payload => exact h.write sha1 env payload
  | time env => exact h.time sha1 env
  | peek env cuts last => exact h.peek sha1 env cuts last hready
  | doRead env cuts last length => exact h.doRead sha1 env cuts last length hready
  | readFrame length => exact h.readFrame sha1 length

theorem Conversation.Inv.step (h : n.Inv) (sha1 : Sha1) {turn : Turn} (hready : n.ReadsReady turn) :
    ∃ n', n.step sha1 turn = some n' ∧ n'.Inv := by
  cases turn with
  | near move => exact h.act sha1 hready
  | far move =>
    have hswapped : n.swap.ReadsReady (.near move) := by
      cases move <;> exact hready
    obtain ⟨n', hn', hinv⟩ := h.swap.act sha1 hswapped
    exact ⟨n'.swap, by rw [Conversation.step, hn']; rfl, hinv.swap⟩

theorem Conversation.Inv.run (sha1 : Sha1) : ∀ {turns : List Turn} {n : Conversation}, n.Inv → n.ReadyAlong sha1 turns →
    ∃ n', n.run sha1 turns = some n' ∧ n'.Inv
  | [], n, h, _ => ⟨n, rfl, h⟩
  | turn :: turns, n, h, hready => by
    obtain ⟨n', hn', hinv⟩ := h.step sha1 hready.1
    obtain ⟨n'', hn'', hinv'⟩ := Inv.run sha1 hinv (hready.2 n' hn')
    exact ⟨n'', by rw [Conversation.run, hn']; exact hn'', hinv'⟩

end Step

/-! ## Runs -/

/-- A stream behind its handshake, before its first frame. -/
structure Endpoint.Fresh (e : Endpoint) : Prop where
  status : e.stream.status = .ready
  live : e.stream.buffer.live = []
  cache : e.stream.cache = []
  typed : e.stream.Typed
  incoming : e.incoming = []
  written : e.written = []
  got : e.got = []

theorem flow_fresh {w r : Endpoint} (hw : w.Fresh) (hr : r.Fresh) : Flow w r [] where
  conveys := by
    rw [hr.live, hr.incoming]
    exact .start frameParser_stable
  fromPeer := by simp
  fins := by simp [hr.cache]
  bytes := by
    rw [hr.got, hr.cache, hw.written]
    rfl

/-- A reader that finds nothing, though all bytes have arrived, has got everything. -/
theorem Conversation.Inv.drained {n : Conversation} (h : n.Inv) (sha1 : Sha1) (hready : n.near.stream.status = .ready)
    (env : Env) (reads : List Chunk) (length : Nat) (hreads : bytesOf reads = n.near.incoming) {left : List Chunk}
    {s : StreamWs}
    (hread : streamWsDoRead sha1 env n.near.stream reads .again length = some (.error .again, left, s)) :
    n.near.got = n.far.written := by
  obtain ⟨result, left', s', hpeek, -, -, -, ⟨pending, hpending⟩, hend⟩ := h.peeked sha1 env reads
    (show n.near.incoming = bytesOf reads ++ [] by rw [hreads, List.append_nil]) .again hready
  obtain ⟨taken, s'', hread', hcases⟩ := doRead_cases hpeek length
  rw [hread] at hread'
  cases hread'
  -- only an empty cache lets the read find nothing
  have hcache : s'.cache = [] := by
    rcases hcases with ⟨-, -, hne, -⟩ | htake
    · exact absurd rfl hne
    · unfold streamWsTake at htake
      cases hcache : s'.cache with
      | nil => rfl
      | cons slice cache =>
        rw [hcache] at htake
        injection htake with htaken _
        cases htaken
  have hleft : left = [] := by
    rcases hend with ⟨hwaiting, -⟩ | ⟨-, hleft, -⟩
    · rw [StreamWs.waiting, hcache] at hwaiting
      cases hwaiting
    · exact hleft
  have hconveys := hpending.conveys
  rw [hleft] at hconveys
  obtain ⟨-, rfl⟩ := hconveys.arrived
  have hbytes := hpending.bytes
  simp only [hcache] at hbytes
  simpa [bytesIn, fragmentsOf, payloads] using hbytes

/-- In every run of a client and a server from behind the handshake on, with reads only while the own stream is
ready: no call crashes, and what each application gets are the bytes that the other has written, in order and
each once, up to some point; it is all of them where a read finds nothing though everything has arrived. -/
theorem conversation_delivers (sha1 : Sha1) {n : Conversation} (hnear : n.near.Fresh) (hfar : n.far.Fresh)
    (hroles : n.far.stream.clientRole = !n.near.stream.clientRole) {turns : List Turn}
    (hready : n.ReadyAlong sha1 turns) :
    ∃ n', n.run sha1 turns = some n' ∧ n'.far.got <+: n'.near.written ∧ n'.near.got <+: n'.far.written ∧
      ∀ env reads length left s,
        (n'.near.stream.status = .ready → bytesOf reads = n'.near.incoming →
          streamWsDoRead sha1 env n'.near.stream reads .again length = some (.error .again, left, s) →
            n'.near.got = n'.far.written) ∧
        (n'.far.stream.status = .ready → bytesOf reads = n'.far.incoming →
          streamWsDoRead sha1 env n'.far.stream reads .again length = some (.error .again, left, s) →
            n'.far.got = n'.near.written) := by
  have hstart : n.Inv :=
    ⟨hroles, hnear.typed, hfar.typed, ⟨[], flow_fresh hnear hfar⟩, ⟨[], flow_fresh hfar hnear⟩⟩
  obtain ⟨n', hn', hinv⟩ := hstart.run sha1 hready
  obtain ⟨pending, htoFar⟩ := hinv.toFar
  obtain ⟨pending', htoNear⟩ := hinv.toNear
  refine ⟨n', hn', ?_, ?_, fun env reads length left s => ⟨?_, ?_⟩⟩
  · rw [← htoFar.bytes, List.append_assoc]
    exact List.prefix_append _ _
  · rw [← htoNear.bytes, List.append_assoc]
    exact List.prefix_append _ _
  · intro hstatus hreads hread
    exact hinv.drained sha1 hstatus env reads length hreads hread
  · intro hstatus hreads hread
    exact hinv.swap.drained sha1 hstatus env reads length hreads hread

/-- A client writes a byte, which the server reads, and the server writes two, which the client reads one by one. -/
def byteTurns : List Turn :=
  [.near (.write maskingEnv ⟨[0x61], by decide⟩), .far (.doRead (.at 0) [99] .again 8),
    .far (.write (.at 0) ⟨[0x62, 0x63], by decide⟩), .near (.doRead (.at 0) [2, 99] .again 1),
    .near (.doRead (.at 0) [99] .again 1)]

theorem conversation_byte :
    let client : Endpoint := ⟨{ shortStream with clientRole := true }, [], [], []⟩
    let server : Endpoint := ⟨shortStream, [], [], []⟩
    ∃ n', (Conversation.mk client server).run (fun _ => Vector.replicate 20 0) byteTurns = some n' ∧
      n'.far.got <+: n'.near.written ∧ n'.far.got = [0x61] ∧ n'.near.got = [0x62, 0x63] := by
  intro client server
  have hfresh : ∀ role, Endpoint.Fresh ⟨{ shortStream with clientRole := role }, [], [], []⟩ :=
    fun role => ⟨rfl, rfl, rfl, Or.inr rfl, rfl, rfl, rfl⟩
  have hready : Conversation.ReadyAlong (fun _ => Vector.replicate 20 0) ⟨client, server⟩ byteTurns := by decide +kernel
  obtain ⟨n', hn', hgot, -⟩ := @conversation_delivers (fun _ => Vector.replicate 20 0) ⟨client, server⟩ (hfresh true)
    (hfresh false) rfl byteTurns hready
  refine ⟨n', hn', hgot, ?_⟩
  have hboth : ((Conversation.mk client server).run (fun _ => Vector.replicate 20 0) byteTurns).map
      (fun n => (n.far.got, n.near.got)) = some ([0x61], [0x62, 0x63]) := by decide +kernel
  rw [hn'] at hboth
  exact Prod.mk.inj (Option.some.inj hboth)

end CMx.Ws
