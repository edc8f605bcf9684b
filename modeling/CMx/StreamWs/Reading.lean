/-
Messages: cut into frames in any way, with control frames anywhere between them, they come back whole
from `stream_ws_read_frame`. `stream_ws_do_read` takes bytes from a message that is still growing, and
loses the rest of one of which it has taken every byte so far.
-/
import CMx.StreamWs.Reassembly

namespace CMx.Ws

open Mqtt (Bytes CString StreamStatus ReadEnd Errno)
open Framing (drain)

/-! ## Messages in frames -/

/-- A message, cut into at least one part. -/
structure Message where
  opcode : UInt8
  first : Bytes
  more : List Bytes
  isData : opcode = wsOpcodeText ∨ opcode = wsOpcodeBinary

def Fragment.IsData (f : Fragment) : Prop := f.Starts ∨ f.Continues

instance (f : Fragment) : Decidable f.IsData := inferInstanceAs (Decidable (_ ∨ _))

/-- The fragments of a message from one of its parts on; the last one has the FIN flag. -/
def fragmentsFrom (opcode : UInt8) (payload : Bytes) : List Bytes → List Fragment
  | [] => [⟨true, opcode, payload⟩]
  | next :: more => ⟨false, opcode, payload⟩ :: fragmentsFrom wsOpcodeContinue next more

namespace Message

def fragments (m : Message) : List Fragment := fragmentsFrom m.opcode m.first m.more

def payload (m : Message) : Bytes := m.first ++ m.more.flatten

/-- The message as it is kept in the cache, and as it is read. -/
def slice (m : Message) : WsFrameSlice := ⟨m.payload, true, m.opcode⟩

def read (m : Message) : WsReadFrame := ⟨true, m.opcode, m.payload⟩

end Message

def WsFrameSlice.read (slice : WsFrameSlice) : WsReadFrame := ⟨slice.fin, slice.opcode, slice.buffer⟩

/-- The frames carry the messages, in order, with CLOSE, PING and PONG frames anywhere; those to a
server are masked, those to a client are not. -/
structure Carries (clientRole : Bool) (messages : List Message) (frames : List Frame) : Prop where
  proper : ∀ f ∈ frames, f.Proper
  mask : ∀ f ∈ frames, f.mask.isSome = !clientRole
  control : ∀ f ∈ frames, ¬ f.fragment.IsData → f.opcode = wsOpcodeClose ∨ f.opcode = wsOpcodePing ∨ f.opcode = wsOpcodePong
  data : (frames.map Frame.fragment).filter (·.IsData) = messages.flatMap Message.fragments

/-! ## The cache -/

/-- The last message of the cache is still growing. -/
def Unfinished (cache : List WsFrameSlice) : Prop := ∃ slice, cache.getLast? = some slice ∧ slice.fin = false

/-- Behind this cache, the fragments go on with a message only while it is growing. -/
def Fits : List WsFrameSlice → List Fragment → Prop
  | _, [] => True
  | cache, f :: fs => (f.Continues → Unfinished cache) ∧ Fits (collect cache f) fs

theorem fits_append : ∀ {cache : List WsFrameSlice} {fs fs' : List Fragment},
    Fits cache (fs ++ fs') ↔ Fits cache fs ∧ Fits (fs.foldl collect cache) fs'
  | cache, [], fs' => by simp [Fits]
  | cache, f :: fs, fs' => by simp [Fits, fits_append, and_assoc]

theorem not_continues_of_starts {f : Fragment} (h : f.Starts) : ¬ f.Continues := by
  rcases h with h | h <;> rw [Fragment.Continues, h] <;> decide

theorem collect_starts {f : Fragment} (h : f.Starts) (cache : List WsFrameSlice) :
    collect cache f = cache ++ [⟨f.payload, f.fin, f.opcode⟩] := if_pos h

theorem collect_continues {f : Fragment} (h : f.Continues) (cache : List WsFrameSlice) :
    collect cache f = appendToLast cache f.payload f.fin := by
  rw [collect, if_neg (fun hs => not_continues_of_starts hs h), if_pos h]

theorem collect_control {f : Fragment} (h : ¬ f.IsData) (cache : List WsFrameSlice) : collect cache f = cache := by
  rw [Fragment.IsData, not_or] at h
  rw [collect, if_neg h.1, if_neg h.2]

/-- Control frames do not matter. -/
theorem fits_filter : ∀ {cache : List WsFrameSlice} {fs : List Fragment},
    (Fits cache (fs.filter (·.IsData)) → Fits cache fs) ∧
      (fs.filter (·.IsData)).foldl collect cache = fs.foldl collect cache
  | cache, [] => ⟨id, rfl⟩
  | cache, f :: fs => by
    by_cases hdata : f.IsData
    · rw [List.filter_cons_of_pos (by simpa using hdata)]
      exact ⟨fun h => ⟨h.1, fits_filter.1 h.2⟩, fits_filter.2⟩
    · rw [List.filter_cons_of_neg (by simpa using hdata)]
      have hskip := collect_control hdata cache
      refine ⟨fun h => ⟨fun hc => absurd (Or.inr hc) hdata, ?_⟩, ?_⟩
      · rw [hskip]
        exact fits_filter.1 h
      · rw [List.foldl_cons, hskip]
        exact fits_filter.2

theorem appendToLast_concat (cache : List WsFrameSlice) (slice : WsFrameSlice) (payload : Bytes) (fin : Bool) :
    appendToLast (cache ++ [slice]) payload fin = cache ++ [{ slice with buffer := slice.buffer ++ payload, fin }] := by
  induction cache with
  | nil => rfl
  | cons a cache ih =>
    cases cache with
    | nil => rfl
    | cons b cache => simpa [appendToLast] using ih

theorem unfinished_concat {cache : List WsFrameSlice} {slice : WsFrameSlice} (h : slice.fin = false) :
    Unfinished (cache ++ [slice]) := ⟨slice, by simp, h⟩

/-- A growing message takes its other parts. -/
theorem foldl_fragmentsFrom (cache : List WsFrameSlice) : ∀ (more : List Bytes) (slice : WsFrameSlice) (payload : Bytes),
    slice.fin = false →
      (fragmentsFrom wsOpcodeContinue payload more).foldl collect (cache ++ [slice]) =
          cache ++ [{ slice with buffer := slice.buffer ++ (payload ++ more.flatten), fin := true }] ∧
        Fits (cache ++ [slice]) (fragmentsFrom wsOpcodeContinue payload more)
  | [], slice, payload, h => by
    have hc : Fragment.Continues ⟨true, wsOpcodeContinue, payload⟩ := rfl
    rw [fragmentsFrom, List.foldl_cons, List.foldl_nil, collect_continues hc, appendToLast_concat]
    exact ⟨by simp, fun _ => unfinished_concat h, trivial⟩
  | next :: more, slice, payload, h => by
    have hc : Fragment.Continues ⟨false, wsOpcodeContinue, payload⟩ := rfl
    obtain ⟨hfold, hfits⟩ := foldl_fragmentsFrom cache more
      { slice with buffer := slice.buffer ++ payload, fin := false } next rfl
    rw [fragmentsFrom, List.foldl_cons, collect_continues hc, appendToLast_concat, hfold]
    refine ⟨by simp, fun _ => unfinished_concat h, ?_⟩
    rw [collect_continues hc, appendToLast_concat]
    exact hfits

/-- A message arrives as one slice. -/
theorem foldl_fragments (cache : List WsFrameSlice) (m : Message) :
    m.fragments.foldl collect cache = cache ++ [m.slice] ∧ Fits cache m.fragments := by
  unfold Message.fragments Message.slice Message.payload
  cases m.more with
  | nil =>
    have hs : Fragment.Starts ⟨true, m.opcode, m.first⟩ := m.isData
    rw [fragmentsFrom, List.foldl_cons, List.foldl_nil, collect_starts hs]
    exact ⟨by simp, fun hc => absurd hc (not_continues_of_starts hs), trivial⟩
  | cons next more =>
    have hs : Fragment.Starts ⟨false, m.opcode, m.first⟩ := m.isData
    obtain ⟨hfold, hfits⟩ := foldl_fragmentsFrom cache more ⟨m.first, false, m.opcode⟩ next rfl
    rw [fragmentsFrom, List.foldl_cons, collect_starts hs, hfold]
    refine ⟨by simp, fun hc => absurd hc (not_continues_of_starts hs), ?_⟩
    rw [collect_starts hs]
    exact hfits

theorem foldl_messages : ∀ (messages : List Message) (cache : List WsFrameSlice),
    (messages.flatMap Message.fragments).foldl collect cache = cache ++ messages.map Message.slice ∧
      Fits cache (messages.flatMap Message.fragments)
  | [], cache => ⟨by simp, trivial⟩
  | m :: messages, cache => by
    obtain ⟨hfold, hfits⟩ := foldl_fragments cache m
    obtain ⟨hrest, hfits'⟩ := foldl_messages messages (cache ++ [m.slice])
    rw [List.flatMap_cons, List.foldl_append, hfold, hrest, fits_append, hfold]
    exact ⟨by simp, hfits, hfits'⟩

/-- What frames that carry messages leave in an empty cache. -/
theorem Carries.collected {clientRole : Bool} {messages : List Message} {frames : List Frame}
    (h : Carries clientRole messages frames) :
    (frames.map Frame.fragment).foldl collect [] = messages.map Message.slice ∧ Fits [] (frames.map Frame.fragment) := by
  obtain ⟨hfold, hfits⟩ := foldl_messages messages []
  rw [← h.data] at hfold hfits
  exact ⟨fits_filter.2.symm.trans hfold, fits_filter.1 hfits⟩

/-- A complete message in front keeps out of what happens behind it. -/
theorem foldl_collect_cons {slice : WsFrameSlice} (hfin : slice.fin = true) :
    ∀ {fs : List Fragment} {cache : List WsFrameSlice}, Fits (slice :: cache) fs →
      fs.foldl collect (slice :: cache) = slice :: fs.foldl collect cache ∧ Fits cache fs
  | [], cache, _ => ⟨rfl, trivial⟩
  | f :: fs, cache, h => by
    have hstep : collect (slice :: cache) f = slice :: collect cache f ∧ (f.Continues → Unfinished cache) := by
      by_cases hc : f.Continues
      · obtain ⟨last, hlast, hopen⟩ := h.1 hc
        cases cache with
        | nil =>
          obtain rfl : slice = last := by simpa using hlast
          rw [hfin] at hopen
          cases hopen
        | cons next rest =>
          rw [collect_continues hc, collect_continues hc]
          exact ⟨rfl, fun _ => ⟨last, by simpa using hlast, hopen⟩⟩
      · refine ⟨?_, fun hc' => absurd hc' hc⟩
        by_cases hs : f.Starts
        · rw [collect_starts hs, collect_starts hs, List.cons_append]
        · have hcontrol : ¬ f.IsData := by rw [Fragment.IsData, not_or]; exact ⟨hs, hc⟩
          rw [collect_control hcontrol, collect_control hcontrol]
    have hrest := h.2
    rw [hstep.1] at hrest
    obtain ⟨hfold, hfits⟩ := foldl_collect_cons hfin hrest
    exact ⟨by rw [List.foldl_cons, hstep.1, hfold, List.foldl_cons], hstep.2, hfits⟩

/-! ## Sessions that carry messages -/

/-- A ready stream without anything of earlier messages, and chunks whose bytes are frames that carry
messages. -/
structure Session.Opens (t : Session) (messages : List Message) (frames : List Frame) : Prop where
  status : t.stream.status = .ready
  live : t.stream.buffer.live = []
  cache : t.stream.cache = []
  carries : Carries t.stream.clientRole messages frames
  bytes : t.bytes = frames.flatMap Frame.format
  frames : t.frames = []
  data : t.data = []

/-- The fragments of parsed frames. -/
def fragmentsOf (pending : List (WsFrame × Frame)) : List Fragment := pending.map (·.2.fragment)

theorem Session.Opens.awaits {t : Session} {messages : List Message} {frames : List Frame} (h : t.Opens messages frames) :
    ∃ pending, Awaits t.stream t.bytes pending ∧ fragmentsOf pending = frames.map Frame.fragment := by
  refine ⟨frames.map fun f => (f.header, f), ⟨h.status, ?_, ?_, ?_⟩, by simp [fragmentsOf]⟩
  · rw [h.live, Framing.drain_more rfl]
  · rw [h.live, List.nil_append, h.bytes]
    exact drain_format h.carries.proper
  · intro hrole found hfound
    obtain ⟨f, hf, rfl⟩ := List.mem_map.1 hfound
    have hmask := h.carries.mask f hf
    rw [hrole] at hmask
    simpa using hmask

/-- A client that is ready, and a TEXT message in two frames that arrive one after the other. -/
def splitMessage : Session where
  stream := { streamWsInit (Vector.replicate 4096 0) with status := .ready, clientRole := true }
  supply := [⟨[0x01, 1, 0x61], by decide, by decide⟩, ⟨[0x80, 1, 0x62], by decide, by decide⟩]
  frames := []
  data := []

/-- The same client, to which other frames arrive. -/
theorem splitMessage_opens_with {supply : List Chunk} {messages : List Message} {frames : List Frame}
    (hframes : ∀ f ∈ frames, f.opcode < 16 ∧ f.payload.length + wsMaxHeaderSize < sizeRange ∧ f.mask = none ∧ f.fragment.IsData)
    (hdata : (frames.map Frame.fragment).filter (·.IsData) = messages.flatMap Message.fragments)
    (hbytes : bytesOf supply = frames.flatMap Frame.format) : Session.Opens { splitMessage with supply } messages frames where
  status := rfl
  live := rfl
  cache := rfl
  carries := by
    refine ⟨?_, ?_, ?_, hdata⟩
    · intro f hf
      obtain ⟨hopcode, hlength, -, -⟩ := hframes f hf
      exact ⟨hopcode, hlength⟩
    · intro f hf
      obtain ⟨-, -, hmask, -⟩ := hframes f hf
      rw [hmask]
      rfl
    · intro f hf hcontrol
      obtain ⟨-, -, -, hisData⟩ := hframes f hf
      exact absurd hisData hcontrol
  bytes := hbytes
  frames := rfl
  data := rfl

theorem splitMessage_opens : splitMessage.Opens [⟨wsOpcodeText, [0x61], [[0x62]], Or.inl rfl⟩]
    [⟨false, wsOpcodeText, none, [0x61]⟩, ⟨true, wsOpcodeContinue, none, [0x62]⟩] :=
  splitMessage_opens_with (by decide) (by decide) (by decide)

/-- A peek handles some of the frames. -/
theorem Session.step_peek (sha1 : Sha1) {t : Session} {pending : List (WsFrame × Frame)}
    (h : Awaits t.stream t.bytes pending) (env : Env) (available : Nat) (last : ReadEnd) :
    ∃ t' done rest, t.step sha1 (.peek env available last) = some t' ∧ pending = done ++ rest ∧
      Awaits t'.stream t'.bytes rest ∧ Drained t.stream t'.stream done t'.stream.buffer.live ∧
      t'.frames = t.frames ∧ t'.data = t.data := by
  rw [t.bytes_split available] at h
  obtain ⟨result, left, s', done, rest, hpeek, hpending, hs', hd, -⟩ := h.peekFrame sha1 env last
  refine ⟨{ t with stream := s', supply := left ++ t.supply.drop available }, done, rest, by rw [step, hpeek]; rfl,
    hpending, ?_, hd, rfl, rfl⟩
  show Awaits s' (bytesOf (left ++ t.supply.drop available)) rest
  rw [bytesOf_append]
  exact hs'

/-! ## Reading frames -/

/-- What has been read, and what will be behind what the cache holds, are the messages. -/
def Reads (messages : List Message) (t : Session) : Prop :=
  ∃ pending, Awaits t.stream t.bytes pending ∧ Fits t.stream.cache (fragmentsOf pending) ∧
    t.frames ++ ((fragmentsOf pending).foldl collect t.stream.cache).map WsFrameSlice.read = messages.map Message.read

def Op.isFrameOp : Op → Bool
  | .peek .. | .readFrame _ => true
  | .doRead .. => false

theorem fits_drained {s s' : StreamWs} {done rest : List (WsFrame × Frame)} {live : Bytes} (hd : Drained s s' done live)
    (h : Fits s.cache (fragmentsOf (done ++ rest))) :
    Fits s'.cache (fragmentsOf rest) ∧
      (fragmentsOf (done ++ rest)).foldl collect s.cache = (fragmentsOf rest).foldl collect s'.cache := by
  have hcache : s'.cache = (fragmentsOf done).foldl collect s.cache := hd.cache
  have hsplit : fragmentsOf (done ++ rest) = fragmentsOf done ++ fragmentsOf rest := List.map_append
  rw [hsplit, fits_append, ← hcache] at h
  rw [hsplit, List.foldl_append, ← hcache]
  exact ⟨h.2, rfl⟩

theorem reads_step (sha1 : Sha1) {messages : List Message} {t : Session} (h : Reads messages t) {op : Op}
    (hop : op.isFrameOp = true) : ∃ t', t.step sha1 op = some t' ∧ Reads messages t' := by
  obtain ⟨pending, hawaits, hfits, hread⟩ := h
  cases op with
  | doRead env available last length => cases hop
  | peek env available last =>
    obtain ⟨t', done, rest, ht', rfl, hawaits', hd, hframes, -⟩ := t.step_peek sha1 hawaits env available last
    obtain ⟨hfits', hfold⟩ := fits_drained hd hfits
    exact ⟨t', ht', rest, hawaits', hfits', by rw [hframes, ← hfold]; exact hread⟩
  | readFrame length =>
    unfold Session.step streamWsReadFrame
    cases hcache : t.stream.cache with
    | nil => exact ⟨_, rfl, pending, hawaits, hfits, hread⟩
    | cons slice cache =>
      simp only
      by_cases hfin : slice.fin = false
      · rw [if_pos hfin]
        exact ⟨_, rfl, pending, hawaits, hfits, hread⟩
      · rw [if_neg hfin]
        split
        · rename_i heq
          -- the message is taken out
          rw [hcache] at hfits hread
          obtain ⟨hfold, hfits'⟩ := foldl_collect_cons (by simpa using hfin) hfits
          split at heq
          · cases heq
          · cases heq
            refine ⟨_, rfl, pending, ⟨hawaits.status, hawaits.begun, hawaits.drained, hawaits.unmasked⟩, hfits', ?_⟩
            rw [hfold] at hread
            rw [← hread, List.append_assoc]
            rfl
        · rename_i heq
          split at heq
          · cases heq
            exact ⟨_, rfl, pending, hawaits, hfits, hread⟩
          · cases heq

/-- A read takes nothing of what is to come. -/
theorem step_readFrame_keeps {sha1 : Sha1} {t t' : Session} {length : Nat} (h : t.step sha1 (.readFrame length) = some t') :
    t'.supply = t.supply ∧ t.frames <+: t'.frames := by
  simp only [Session.step] at h
  split at h
  · cases h
    exact ⟨rfl, List.prefix_append ..⟩
  · cases h
    exact ⟨rfl, List.prefix_refl _⟩

/-- With buffers that are large enough, the complete messages of the cache are read one after another. -/
theorem run_readFrames (sha1 : Sha1) : ∀ {cache : List WsFrameSlice} {t : Session} {length : Nat},
    t.stream.cache = cache → (∀ slice ∈ cache, slice.fin = true ∧ slice.buffer.length ≤ length) →
      ∃ t', t.run sha1 (List.replicate cache.length (.readFrame length)) = some t' ∧
        t'.frames = t.frames ++ cache.map WsFrameSlice.read
  | [], t, _, _, _ => ⟨t, rfl, by simp⟩
  | slice :: cache, t, length, hcache, h => by
    obtain ⟨hfin, hlen⟩ := h slice (List.mem_cons_self ..)
    obtain ⟨t', ht', hframes⟩ := run_readFrames sha1
      (t := { t with stream := { t.stream with cache }, frames := t.frames ++ [slice.read] }) rfl
      fun other hm => h other (List.mem_cons_of_mem _ hm)
    refine ⟨t', ?_, by rw [hframes, List.map_cons, List.append_assoc]; rfl⟩
    have hstep : t.step sha1 (.readFrame length) =
        some { t with stream := { t.stream with cache }, frames := t.frames ++ [slice.read] } := by
      unfold Session.step streamWsReadFrame
      rw [hcache]
      simp only [hfin, if_neg (by simp : ¬ true = false), if_neg (not_lt.2 hlen)]
      rw [← hfin]
      rfl
    rw [List.length_cons, List.replicate_succ, Session.run, hstep]
    exact ht'

/-- With a complete message in front, and a buffer that is large enough, a read returns the message. -/
theorem Reads.readFrame (sha1 : Sha1) {messages : List Message} {t : Session} (h : Reads messages t) {length : Nat}
    (hlength : ∀ m ∈ messages, m.payload.length ≤ length) (hwaiting : t.stream.waiting = true) :
    ∃ t', t.step sha1 (.readFrame length) = some t' ∧ Reads messages t' ∧ t'.frames.length = t.frames.length + 1 ∧
      t'.supply = t.supply := by
  obtain ⟨t', ht', hreads⟩ := @reads_step sha1 _ _ h (.readFrame length) rfl
  refine ⟨t', ht', hreads, ?_⟩
  obtain ⟨pending, -, hfits, hread⟩ := h
  unfold StreamWs.waiting at hwaiting
  cases hcache : t.stream.cache with
  | nil => rw [hcache] at hwaiting; cases hwaiting
  | cons slice cache =>
    rw [hcache] at hwaiting hfits hread
    have hfin : slice.fin = true := by simpa using hwaiting
    -- it is one of the messages, so it fits into the buffer
    have hslice : slice.read ∈ messages.map Message.read := by
      rw [← hread, (foldl_collect_cons hfin hfits).1]
      exact List.mem_append_right _ (List.mem_cons_self ..)
    obtain ⟨m, hm, heq⟩ := List.mem_map.1 hslice
    injection heq with _ _ hdata
    have hlen : slice.buffer.length ≤ length := by
      rw [← hdata]
      exact hlength m hm
    unfold Session.step streamWsReadFrame at ht'
    rw [hcache] at ht'
    simp only [hfin, if_neg (by simp : ¬ true = false), if_neg (not_lt.2 hlen)] at ht'
    cases ht'
    exact ⟨by simp, rfl⟩

/-- When all bytes have been received and no message is waiting, all of them have been read. -/
theorem Reads.finished {messages : List Message} {t : Session} (h : Reads messages t) (hsupply : t.supply = []) :
    t.stream.buffer.live = [] ∧ t.frames ++ t.stream.cache.map WsFrameSlice.read = messages.map Message.read ∧
      (t.stream.waiting = false → t.frames = messages.map Message.read) := by
  obtain ⟨pending, hawaits, -, hread⟩ := h
  have hbytes : t.bytes = [] := by
    rw [Session.bytes, hsupply]
    rfl
  rw [hbytes] at hawaits
  obtain ⟨hlive, rfl⟩ := hawaits.finished
  refine ⟨hlive, hread, fun hwaiting => ?_⟩
  unfold StreamWs.waiting at hwaiting
  cases hcache : t.stream.cache with
  | nil => simpa [hcache, fragmentsOf] using hread
  | cons slice cache =>
    have hslice : slice.read ∈ messages.map Message.read := by
      rw [← hread, hcache]
      exact List.mem_append_right _ (List.mem_cons_self ..)
    obtain ⟨m, -, heq⟩ := List.mem_map.1 hslice
    injection heq with hfin
    rw [hcache] at hwaiting
    exact absurd hfin (by simpa using hwaiting)

theorem peekLoop_left {sha1 : Sha1} {env : Env} : ∀ {reads left : List Chunk} {loopEnd : PeekEnd} {s s' : StreamWs},
    streamWsPeekLoop sha1 env reads s = some (left, loopEnd, s') → left.length ≤ reads.length
  | [], left, loopEnd, s, s', h => by
    unfold streamWsPeekLoop at h
    split at h <;> cases h <;> exact le_refl _
  | chunk :: reads, left, loopEnd, s, s', h => by
    unfold streamWsPeekLoop at h
    by_cases hwaiting : s.waiting = true
    · rw [if_pos hwaiting] at h
      cases h
      exact le_refl _
    · rw [if_neg hwaiting] at h
      simp only at h
      split at h
      · cases h
      · cases h
        exact Nat.le_succ _
      · exact (peekLoop_left h).trans (Nat.le_succ _)

/-- A peek at all that arrives finds a message, or the end of them. -/
theorem Reads.peek (sha1 : Sha1) (env : Env) {messages : List Message} {t : Session} (h : Reads messages t) {available : Nat}
    (havailable : t.supply.length ≤ available) :
    ∃ result left s, streamWsPeekFrame sha1 env t.stream (t.supply.take available) .again = some (result, left, s) ∧
      left.length ≤ t.supply.length ∧ Reads messages ⟨s, left, t.frames, t.data⟩ ∧
      (s.waiting = true ∧ result ≠ .error .again ∨ left = [] ∧ t.frames = messages.map Message.read) := by
  obtain ⟨pending, hawaits, hfits, hread⟩ := h
  rw [← List.append_nil t.bytes] at hawaits
  rw [List.take_of_length_le havailable]
  obtain ⟨result, left, s, done, rest, hpeek, rfl, hs, hd, hend⟩ :=
    @Awaits.peekFrame sha1 env _ t.supply _ _ hawaits .again
  obtain ⟨hfits', hfold⟩ := fits_drained hd hfits
  have hreads : Reads messages ⟨s, left, t.frames, t.data⟩ :=
    ⟨rest, by rw [← List.append_nil (Session.bytes _)]; exact hs, hfits', by rw [← hfold]; exact hread⟩
  have hleft : left.length ≤ t.supply.length := by
    obtain ⟨⟨left', loopEnd, s'⟩, hloop, heq⟩ := Option.map_eq_some_iff.1 hpeek
    cases heq
    exact peekLoop_left hloop
  refine ⟨result, left, s, hpeek, hleft, hreads, ?_⟩
  rcases hend with ⟨hwaiting, hresult⟩ | ⟨hwaiting, hnil, -⟩
  · refine .inl ⟨hwaiting, ?_⟩
    unfold StreamWs.waiting at hwaiting
    rw [hresult]
    unfold streamWsPeeked
    cases hcache : s.cache with
    | nil => rw [hcache] at hwaiting; cases hwaiting
    | cons slice cache =>
      rw [hcache] at hwaiting
      have hfin : slice.fin = true := by simpa using hwaiting
      simp [hfin]
  · exact .inr ⟨hnil, (hreads.finished hnil).2.2 hwaiting⟩

/-- A peek at all that arrives, and a read, some times. -/
def readRounds (env : Env) (available length : Nat) : (rounds : Nat) → List Op
  | 0 => []
  | rounds + 1 => .peek env available .again :: .readFrame length :: readRounds env available length rounds

/-- Behind all messages, nothing else is read. -/
theorem Reads.all_read {messages : List Message} {t : Session} (h : Reads messages t)
    (hlength : messages.length ≤ t.frames.length) : t.frames = messages.map Message.read := by
  obtain ⟨pending, -, -, hread⟩ := h
  refine (List.IsPrefix.eq_of_length_le ⟨_, hread⟩ ?_)
  rw [List.length_map]
  exact hlength

/-- So rounds enough read all messages. -/
theorem Reads.rounds (sha1 : Sha1) (env : Env) {messages : List Message} {available length : Nat}
    (hlength : ∀ m ∈ messages, m.payload.length ≤ length) : ∀ (rounds : Nat) {t : Session}, Reads messages t →
      t.supply.length ≤ available → messages.length ≤ t.frames.length + rounds →
        ∃ t', t.run sha1 (readRounds env available length rounds) = some t' ∧ t'.frames = messages.map Message.read
  | 0, t, h, _, hrounds => ⟨t, rfl, h.all_read hrounds⟩
  | rounds + 1, t, h, havailable, hrounds => by
    obtain ⟨result, left, s, hpeek, hleft, hreads, hend⟩ := h.peek sha1 env havailable
    have hstep : t.step sha1 (.peek env available .again) = some ⟨s, left, t.frames, t.data⟩ := by
      rw [Session.step, hpeek, List.drop_of_length_le havailable]
      simp
    obtain ⟨t', ht', hreads', hsupply, hnext⟩ : ∃ t', Session.step sha1 ⟨s, left, t.frames, t.data⟩ (.readFrame length) = some t' ∧
        Reads messages t' ∧ t'.supply = left ∧ messages.length ≤ t'.frames.length + rounds := by
      rcases hend with ⟨hwaiting, -⟩ | ⟨-, hall⟩
      · obtain ⟨t', ht', hreads', hmore, hsupply⟩ := hreads.readFrame sha1 hlength hwaiting
        exact ⟨t', ht', hreads', hsupply, by rw [hmore]; show _ ≤ t.frames.length + 1 + rounds; omega⟩
      · obtain ⟨t', ht', hreads'⟩ := @reads_step sha1 _ _ hreads (.readFrame length) rfl
        obtain ⟨hsupply, hframes⟩ := step_readFrame_keeps ht'
        have hcount := congrArg List.length hall
        rw [List.length_map] at hcount
        exact ⟨t', ht', hreads', hsupply, by have hle := hframes.length_le; simp only at hle; omega⟩
    obtain ⟨t'', ht'', hframes⟩ :=
      @Reads.rounds sha1 env messages available length hlength rounds t' hreads' (by rw [hsupply]; omega) hnext
    refine ⟨t'', ?_, hframes⟩
    rw [readRounds, Session.run, hstep, Option.bind_some, Session.run, ht', Option.bind_some]
    exact ht''

/-- However the frames that carry messages arrive, and however peeks and reads alternate: the frames
that are read are the messages, in order and each once, up to some point. A peek at all that arrives
which finds nothing comes behind all messages, and with buffers that are large enough as many rounds
as there are messages read them all. -/
theorem readFrame_exactly (sha1 : Sha1) {t : Session} {messages : List Message} {frames : List Frame}
    (h : t.Opens messages frames) {ops : List Op} (hops : ∀ op ∈ ops, op.isFrameOp = true) :
    ∃ t', t.run sha1 ops = some t' ∧ t'.frames <+: messages.map Message.read ∧
      (∀ env, ∃ result left s, streamWsPeekFrame sha1 env t'.stream t'.supply .again = some (result, left, s) ∧
        (result = .error .again → t'.frames = messages.map Message.read)) ∧
      (t'.supply = [] → t'.stream.buffer.live = [] ∧
        t'.frames ++ t'.stream.cache.map WsFrameSlice.read = messages.map Message.read) ∧
      ∀ env length, (∀ m ∈ messages, m.payload.length ≤ length) →
        ∃ t'', t'.run sha1 (readRounds env t'.supply.length length messages.length) = some t'' ∧
          t''.frames = messages.map Message.read := by
  obtain ⟨pending, hawaits, hfragments⟩ := h.awaits
  obtain ⟨hfold, hfits⟩ := h.carries.collected
  have hstart : Reads messages t := by
    refine ⟨pending, hawaits, ?_, ?_⟩
    · rw [h.cache, hfragments]
      exact hfits
    · rw [h.frames, h.cache, hfragments, hfold, List.nil_append, List.map_map]
      rfl
  obtain ⟨t', ht', hreads⟩ := Session.run_inv (fun u op hm hu => reads_step sha1 hu (hops op hm)) hstart
  refine ⟨t', ht', ?_, fun env => ?_, fun hend => ?_, fun env length hlength => ?_⟩
  · obtain ⟨pending', -, -, hread⟩ := hreads
    exact ⟨_, hread⟩
  · obtain ⟨result, left, s, hpeek, -, -, hfound⟩ := hreads.peek sha1 env (le_refl _)
    rw [List.take_length] at hpeek
    refine ⟨result, left, s, hpeek, fun hagain => ?_⟩
    rcases hfound with ⟨-, hne⟩ | ⟨-, hall⟩
    · exact absurd hagain hne
    · exact hall
  · obtain ⟨hlive, hread, -⟩ := hreads.finished hend
    exact ⟨hlive, hread⟩
  · exact hreads.rounds sha1 env hlength messages.length (le_refl _) (Nat.le_add_left ..)

/-- The first frame is peeked at, and a read finds nothing; behind the second frame the message is read. -/
theorem readFrame_splitMessage :
    ∃ t' t'', splitMessage.run (fun _ => Vector.replicate 20 0) [.peek (.at 0) 1 .again, .readFrame 8] = some t' ∧
      t'.run (fun _ => Vector.replicate 20 0) (readRounds (.at 0) t'.supply.length 8 1) = some t'' ∧
      t''.frames = [⟨true, wsOpcodeText, [0x61, 0x62]⟩] := by
  obtain ⟨t', ht', -, -, -, hrounds⟩ := @readFrame_exactly (fun _ => Vector.replicate 20 0) _ _ _ splitMessage_opens
    [.peek (.at 0) 1 .again, .readFrame 8] (by decide)
  obtain ⟨t'', ht'', hframes⟩ := hrounds (.at 0) 8 (by decide)
  exact ⟨t', t'', ht', ht'', hframes⟩

/-! ## Reading bytes -/

/-- The bytes in the cache, and those that fragments bring. -/
def bytesIn (cache : List WsFrameSlice) : Bytes := cache.flatMap (·.buffer)

def payloads (fs : List Fragment) : Bytes := (fs.filter (·.IsData)).flatMap (·.payload)

theorem payloads_cons (f : Fragment) (fs : List Fragment) :
    payloads (f :: fs) = (if f.IsData then f.payload else []) ++ payloads fs := by
  unfold payloads
  by_cases h : f.IsData
  · rw [List.filter_cons_of_pos (by simpa using h), if_pos h, List.flatMap_cons]
  · rw [List.filter_cons_of_neg (by simpa using h), if_neg h, List.nil_append]

theorem bytesIn_appendToLast : ∀ {cache : List WsFrameSlice} (payload : Bytes) (fin : Bool), cache ≠ [] →
    bytesIn (appendToLast cache payload fin) = bytesIn cache ++ payload
  | [], _, _, h => absurd rfl h
  | [slice], _, _, _ => by simp [appendToLast, bytesIn]
  | slice :: next :: rest, payload, fin, _ => by
    have ih := @bytesIn_appendToLast (next :: rest) payload fin (by simp)
    simp only [appendToLast, bytesIn, List.flatMap_cons] at ih ⊢
    rw [ih]
    simp only [List.append_assoc]

/-- Every byte of the data frames comes to the end of the cache, while they fit. -/
theorem bytesIn_foldl_collect : ∀ {fs : List Fragment} {cache : List WsFrameSlice}, Fits cache fs →
    bytesIn (fs.foldl collect cache) = bytesIn cache ++ payloads fs
  | [], cache, _ => by simp [payloads]
  | f :: fs, cache, h => by
    have hstep : bytesIn (collect cache f) = bytesIn cache ++ if f.IsData then f.payload else [] := by
      by_cases hs : f.Starts
      · have hdata : f.IsData := Or.inl hs
        rw [collect_starts hs, if_pos hdata]
        simp [bytesIn]
      · by_cases hc : f.Continues
        · obtain ⟨slice, hlast, -⟩ := h.1 hc
          have hdata : f.IsData := Or.inr hc
          rw [collect_continues hc, if_pos hdata, bytesIn_appendToLast _ _ (by rintro rfl; cases hlast)]
        · have hcontrol : ¬ f.IsData := by rw [Fragment.IsData, not_or]; exact ⟨hs, hc⟩
          rw [collect_control hcontrol, if_neg hcontrol, List.append_nil]
    rw [List.foldl_cons, bytesIn_foldl_collect h.2, hstep, payloads_cons, List.append_assoc]

theorem fins_appendToLast : ∀ (cache : List WsFrameSlice) (payload : Bytes) (fin : Bool),
    (appendToLast cache payload fin).map (·.fin) =
      (cache.map (·.fin)).dropLast ++ if (cache.map (·.fin)) = [] then [] else [fin]
  | [], _, _ => rfl
  | [slice], _, _ => rfl
  | slice :: next :: rest, payload, fin => by
    have ih := fins_appendToLast (next :: rest) payload fin
    simpa [appendToLast] using ih

/-- Whether fragments fit depends on which messages are complete alone. -/
theorem fits_congr : ∀ {fs : List Fragment} {cache cache' : List WsFrameSlice},
    cache'.map (·.fin) = cache.map (·.fin) → Fits cache fs → Fits cache' fs
  | [], _, _, _, _ => trivial
  | f :: fs, cache, cache', hfins, h => by
    have hcollect : (collect cache' f).map (·.fin) = (collect cache f).map (·.fin) := by
      unfold collect
      split
      · rw [List.map_append, List.map_append, hfins]
      · split
        · rw [fins_appendToLast, fins_appendToLast, hfins]
        · exact hfins
    refine ⟨fun hc => ?_, fits_congr hcollect h.2⟩
    obtain ⟨slice, hlast, hopen⟩ := h.1 hc
    have hmap := congrArg List.getLast? hfins
    rw [List.getLast?_map, List.getLast?_map, hlast, Option.map_some, Option.map_eq_some_iff] at hmap
    obtain ⟨slice', hlast', hfin⟩ := hmap
    exact ⟨slice', hlast', hfin.trans hopen⟩

/-- The bytes of a message in front are only added to. -/
theorem foldl_collect_front (fin : Bool) (opcode : UInt8) : ∀ (fs : List Fragment) (cache : List WsFrameSlice),
    ∃ more fin' behind, ∀ buffer, fs.foldl collect (⟨buffer, fin, opcode⟩ :: cache) = ⟨buffer ++ more, fin', opcode⟩ :: behind
  | [], cache => ⟨[], fin, cache, fun buffer => by simp⟩
  | f :: fs, cache => by
    by_cases hs : f.Starts
    · obtain ⟨more, fin', behind, h⟩ := foldl_collect_front fin opcode fs (cache ++ [⟨f.payload, f.fin, f.opcode⟩])
      exact ⟨more, fin', behind, fun buffer => by rw [List.foldl_cons, collect_starts hs]; exact h buffer⟩
    · by_cases hc : f.Continues
      · cases cache with
        | nil =>
          obtain ⟨more, fin', behind, h⟩ := foldl_collect_front f.fin opcode fs []
          refine ⟨f.payload ++ more, fin', behind, fun buffer => ?_⟩
          rw [List.foldl_cons, collect_continues hc, ← List.append_assoc]
          exact h (buffer ++ f.payload)
        | cons next rest =>
          obtain ⟨more, fin', behind, h⟩ := foldl_collect_front fin opcode fs (appendToLast (next :: rest) f.payload f.fin)
          exact ⟨more, fin', behind, fun buffer => by rw [List.foldl_cons, collect_continues hc]; exact h buffer⟩
      · have hcontrol : ¬ f.IsData := by rw [Fragment.IsData, not_or]; exact ⟨hs, hc⟩
        obtain ⟨more, fin', behind, h⟩ := foldl_collect_front fin opcode fs cache
        exact ⟨more, fin', behind, fun buffer => by rw [List.foldl_cons, collect_control hcontrol]; exact h buffer⟩

/-- What has been read, what the cache holds and what the fragments to come bring are the bytes of the
messages; and if each of them has some, none ends up in the cache without any. -/
structure ByteInv (messages : List Message) (t : Session) (pending : List (WsFrame × Frame)) : Prop where
  awaits : Awaits t.stream t.bytes pending
  fits : Fits t.stream.cache (fragmentsOf pending)
  bytes : t.data ++ bytesIn t.stream.cache ++ payloads (fragmentsOf pending) = messages.flatMap Message.payload
  nonempty : (∀ m ∈ messages, m.payload ≠ []) →
    ∀ slice ∈ (fragmentsOf pending).foldl collect t.stream.cache, slice.buffer ≠ []

def Conserves (messages : List Message) (t : Session) : Prop := ∃ pending, ByteInv messages t pending

/-- A call that has come to the end of the reads goes on to take bytes, unless they have failed, or the
connection is closed and `errno` is another one. -/
def GoesOn (errno : Errno) : ReadEnd → Prop
  | .again => True
  | .closed => errno = .again
  | .error => False

instance (errno : Errno) : (last : ReadEnd) → Decidable (GoesOn errno last)
  | .again => isTrue trivial
  | .closed => inferInstanceAs (Decidable (errno = .again))
  | .error => isFalse id

/-- A read does not take the last byte that has come so far of a message that is still growing, and
does not find such a message without a byte. -/
def Spares (t : Session) : Op → Prop
  | .doRead env available last length =>
    let live := t.stream.buffer.live
    let reads := t.supply.take available
    GoesOn (errnoAt env live t.stream.cache reads) last →
      ∀ m ∈ frontAt live t.stream.cache reads, m.fin = true ∨ length < m.buffer.length
  | _ => True

instance (t : Session) : (op : Op) → Decidable (Spares t op)
  | .doRead .. => inferInstanceAs (Decidable (_ → _))
  | .peek .. => isTrue trivial
  | .readFrame _ => isTrue trivial

def Op.isByteOp : Op → Bool
  | .peek .. | .doRead .. => true
  | .readFrame _ => false

/-- Bytes that are taken come from the front of the cache. -/
theorem take_conserves {s : StreamWs} {length : Nat} {fs : List Fragment} (hfits : Fits s.cache fs)
    (hspares : ∀ slice, s.cache.head? = some slice → slice.fin = true ∨ length < slice.buffer.length) :
    let result := streamWsTake s length
    result.1.toOption.getD [] ++ bytesIn result.2.cache = bytesIn s.cache ∧ Fits result.2.cache fs ∧
      ((∀ slice ∈ fs.foldl collect s.cache, slice.buffer ≠ []) →
        ∀ slice ∈ fs.foldl collect result.2.cache, slice.buffer ≠ []) ∧
      ∃ cache, result.2 = { s with cache } := by
  unfold streamWsTake
  cases hcache : s.cache with
  | nil =>
    simp only
    rw [hcache]
    exact ⟨rfl, hcache ▸ hfits, id, s.cache, rfl⟩
  | cons slice cache =>
    rw [hcache] at hfits hspares
    have hbytes : slice.buffer.take length ++ (slice.buffer.drop length ++ bytesIn cache) = bytesIn (slice :: cache) := by
      rw [← List.append_assoc, List.take_append_drop]
      rfl
    by_cases hrest : slice.buffer.drop length = []
    · -- the message is removed, which is complete
      have hlen := List.drop_eq_nil_iff.1 hrest
      have hfin : slice.fin = true := (hspares slice rfl).resolve_right (by omega)
      obtain ⟨hfold, hfits'⟩ := foldl_collect_cons hfin hfits
      rw [hrest, List.nil_append] at hbytes
      simp only [if_pos hrest]
      refine ⟨hbytes, hfits', ?_, cache, rfl⟩
      rw [hfold]
      exact fun hne other hm => hne other (List.mem_cons_of_mem _ hm)
    · simp only [if_neg hrest]
      refine ⟨hbytes, @fits_congr fs (slice :: cache) _ rfl hfits, ?_, _, rfl⟩
      obtain ⟨more, fin', behind, hfront⟩ := foldl_collect_front slice.fin slice.opcode fs cache
      rw [hfront slice.buffer, hfront (slice.buffer.drop length), List.forall_mem_cons, List.forall_mem_cons]
      refine fun hne => ⟨fun hnil => hrest ?_, hne.2⟩
      exact (List.append_eq_nil_iff.1 hnil).1

/-- A read returns without taking anything, or it takes from the cache that its peek has left. -/
def ReadsFrom (s : StreamWs) (length : Nat) (result : Except Errno Nat) (taken : Except Errno Bytes)
    (s' : StreamWs) : Prop :=
  s' = s ∧ taken.toOption.getD [] = [] ∧ taken ≠ .error .again ∧
    (result = .ok 0 ∨ ∃ errno, result = .error errno ∧ errno ≠ .again) ∨
  (taken, s') = streamWsTake s length

theorem doRead_cases {sha1 : Sha1} {env : Env} {s s' : StreamWs} {reads left : List Chunk} {last : ReadEnd}
    {result : Except Errno Nat} (h : streamWsPeekFrame sha1 env s reads last = some (result, left, s')) (length : Nat) :
    ∃ taken s'', streamWsDoRead sha1 env s reads last length = some (taken, left, s'') ∧
      ReadsFrom s' length result taken s'' := by
  unfold streamWsDoRead ReadsFrom
  rw [h, Option.map_some]
  cases result with
  | error errno =>
    by_cases herrno : errno ≠ .again
    · simp only [if_pos herrno]
      exact ⟨_, _, rfl, Or.inl ⟨rfl, rfl, fun he => herrno (by injection he), Or.inr ⟨errno, rfl, herrno⟩⟩⟩
    · simp only [if_neg herrno]
      exact ⟨_, _, rfl, Or.inr rfl⟩
  | ok n =>
    cases n with
    | zero =>
      by_cases herrno : env.errnoBehind (s'.writeCount - s.writeCount) ≠ .again
      · simp only [if_pos herrno]
        exact ⟨_, _, rfl, Or.inl ⟨rfl, rfl, by simp, Or.inl trivial⟩⟩
      · simp only [if_neg herrno]
        exact ⟨_, _, rfl, Or.inr rfl⟩
    | succ n => exact ⟨_, _, rfl, Or.inr rfl⟩

/-- A read takes nothing from a message that is not complete if it does not go on. -/
theorem doRead_stops {sha1 : Sha1} {env : Env} {s s' : StreamWs} {reads left : List Chunk} {last : ReadEnd}
    (h : streamWsPeekFrame sha1 env s reads last = some (endResult last, left, s')) (length : Nat)
    (hstops : ¬ GoesOn (env.errnoBehind (s'.writeCount - s.writeCount)) last) :
    ∃ taken, streamWsDoRead sha1 env s reads last length = some (taken, left, s') ∧ taken.toOption.getD [] = [] := by
  unfold streamWsDoRead
  rw [h, Option.map_some]
  cases last with
  | again => exact absurd trivial hstops
  | closed =>
    refine ⟨.ok [], ?_, rfl⟩
    show some (if env.errnoBehind (s'.writeCount - s.writeCount) ≠ .again then _ else _) = _
    rw [if_pos (by exact hstops)]
  | error => exact ⟨.error .other, rfl, rfl⟩

/-- Frames that are handled go from what is to come to the cache. -/
theorem ByteInv.drained {messages : List Message} {t t' : Session} {done rest : List (WsFrame × Frame)} {live : Bytes}
    (h : ByteInv messages t (done ++ rest)) (hawaits : Awaits t'.stream t'.bytes rest)
    (hd : Drained t.stream t'.stream done live) (hdata : t'.data = t.data) : ByteInv messages t' rest := by
  obtain ⟨hfits, hfold⟩ := fits_drained hd h.fits
  refine ⟨hawaits, hfits, ?_, fun hne => hfold ▸ h.nonempty hne⟩
  rw [hdata, List.append_assoc, ← bytesIn_foldl_collect hfits, ← hfold, bytesIn_foldl_collect h.fits, ← List.append_assoc]
  exact h.bytes

theorem step_doRead {sha1 : Sha1} {t : Session} {env : Env} {available length : Nat} {last : ReadEnd}
    {taken : Except Errno Bytes} {left : List Chunk} {s : StreamWs}
    (h : streamWsDoRead sha1 env t.stream (t.supply.take available) last length = some (taken, left, s)) :
    t.step sha1 (.doRead env available last length) =
      some ⟨s, left ++ t.supply.drop available, t.frames, t.data ++ taken.toOption.getD []⟩ := by
  rw [Session.step, h]
  rfl

theorem conserves_step (sha1 : Sha1) {messages : List Message} (t : Session) (op : Op) (hop : op.isByteOp = true)
    (hspares : Spares t op) (h : Conserves messages t) : ∃ t', t.step sha1 op = some t' ∧ Conserves messages t' := by
  obtain ⟨pending, h⟩ := h
  cases op with
  | readFrame length => cases hop
  | peek env available last =>
    obtain ⟨t', done, rest, ht', rfl, hawaits, hd, -, hdata⟩ := t.step_peek sha1 h.awaits env available last
    exact ⟨t', ht', rest, h.drained hawaits hd hdata⟩
  | doRead env available last length =>
    have hawaits := h.awaits
    rw [t.bytes_split available] at hawaits
    obtain ⟨result, left, s', done, rest, hpeek, rfl, hs', hd, -⟩ := hawaits.peekFrame sha1 env last
    rw [← Session.bytesOf_append] at hs'
    have hpeeked : ByteInv messages ⟨s', left ++ t.supply.drop available, t.frames, t.data⟩ rest := h.drained hs' hd rfl
    obtain ⟨_, _, _, hpeek', hfront, herrno, hend⟩ := hawaits.receives.peekFrame sha1 env last
    rw [hpeek] at hpeek'
    cases hpeek'
    -- a read that stops behind its peek takes nothing
    by_cases hstops : s'.waiting = false ∧ ¬ GoesOn (env.errnoBehind (s'.writeCount - t.stream.writeCount)) last
    · have hresult : result = endResult last :=
        (hend.resolve_left fun hwaiting => by rw [hstops.1] at hwaiting; exact Bool.false_ne_true hwaiting.1).2
      rw [hresult] at hpeek
      obtain ⟨taken, hread, hnothing⟩ := doRead_stops hpeek length hstops.2
      refine ⟨_, step_doRead hread, rest, ?_⟩
      rw [hnothing, List.append_nil]
      exact hpeeked
    -- what it takes else is of a complete message, or leaves some of the growing one
    have hspared : ∀ slice, s'.cache.head? = some slice → slice.fin = true ∨ length < slice.buffer.length := by
      intro slice hslice
      by_cases hwaiting : s'.waiting = true
      · left
        rw [StreamWs.waiting, hslice] at hwaiting
        simpa using hwaiting
      · have hgoes : GoesOn (env.errnoBehind (s'.writeCount - t.stream.writeCount)) last :=
          not_not.1 fun hstop => hstops ⟨by simpa using hwaiting, hstop⟩
        exact hspares (herrno ▸ hgoes) slice (hfront ▸ hslice)
    obtain ⟨taken, s'', hread, hcases⟩ := doRead_cases hpeek length
    refine ⟨_, step_doRead hread, rest, ?_⟩
    rcases hcases with ⟨rfl, hnothing, -, -⟩ | htake
    · rw [hnothing, List.append_nil]
      exact hpeeked
    · obtain ⟨htaken, hfits, hnonempty, cache, hs''⟩ := take_conserves hpeeked.fits hspared
      rw [← htake] at htaken hfits hnonempty hs''
      simp only at htaken hfits hnonempty hs''
      refine ⟨?_, hfits, ?_, fun hne => hnonempty (hpeeked.nonempty hne)⟩
      · rw [hs'']
        exact ⟨hs'.status, hs'.begun, hs'.drained, hs'.unmasked⟩
      · have hbytes := hpeeked.bytes
        rw [← hbytes, ← htaken]
        simp only [List.append_assoc]

/-- No read of the run takes the last byte of a growing message. -/
def SparesAlong (sha1 : Sha1) : Session → List Op → Prop
  | _, [] => True
  | t, op :: ops => Spares t op ∧ ∀ t', t.step sha1 op = some t' → SparesAlong sha1 t' ops

/-- What a sparing step preserves, a sparing run preserves. -/
theorem run_sparing {sha1 : Sha1} {P : Session → Prop}
    (hstep : ∀ t op, op.isByteOp = true → Spares t op → P t → ∃ t', t.step sha1 op = some t' ∧ P t') :
    ∀ {ops : List Op} {t : Session}, (∀ op ∈ ops, op.isByteOp = true) → SparesAlong sha1 t ops → P t →
      ∃ t', t.run sha1 ops = some t' ∧ P t'
  | [], t, _, _, h => ⟨t, rfl, h⟩
  | op :: ops, t, hops, hspares, h => by
    obtain ⟨t', ht', hP⟩ := hstep t op (hops op (List.mem_cons_self ..)) hspares.1 h
    obtain ⟨t'', ht'', hP'⟩ := run_sparing hstep (fun o ho => hops o (List.mem_cons_of_mem _ ho)) (hspares.2 t' ht') hP
    exact ⟨t'', by rw [Session.run, ht']; exact ht'', hP'⟩

theorem take_cons {bytes : Bytes} {length : Nat} (h : bytes ≠ []) (hlength : 0 < length) :
    ∃ b bs, (Except.ok (bytes.take length) : Except Errno Bytes) = .ok (b :: bs) := by
  obtain ⟨k, rfl⟩ : ∃ k, length = k + 1 := ⟨length - 1, by omega⟩
  cases bytes with
  | nil => exact absurd rfl h
  | cons b bs => exact ⟨b, bs.take k, rfl⟩

/-- At the start nothing has been read. -/
theorem Session.Opens.conserves {t : Session} {messages : List Message} {frames : List Frame}
    (h : t.Opens messages frames) : Conserves messages t := by
  obtain ⟨pending, hawaits, hfragments⟩ := h.awaits
  obtain ⟨hfold, hfits⟩ := h.carries.collected
  refine ⟨pending, hawaits, ?_, ?_, ?_⟩
  · rw [h.cache, hfragments]
    exact hfits
  · have hbytes := bytesIn_foldl_collect hfits
    rw [hfold] at hbytes
    rw [h.data, h.cache, hfragments, List.nil_append, ← hbytes, bytesIn, List.flatMap_map]
    rfl
  · rw [h.cache, hfragments, hfold]
    rintro hne slice hm
    obtain ⟨m, hm', rfl⟩ := List.mem_map.1 hm
    exact hne m hm'

section Read

variable {messages : List Message} {t : Session} {pending : List (WsFrame × Frame)} (h : ByteInv messages t pending)
  {length : Nat} {result : Except Errno Nat} {taken : Except Errno Bytes} {s : StreamWs}
  (hreads : ReadsFrom t.stream length result taken s)
include h hreads

/-- A read with a complete message in front takes bytes of it, if there are some. -/
theorem ByteInv.read_waiting (hwaiting : t.stream.waiting = true) (hresult : result = streamWsPeeked t.stream) :
    taken ≠ .error .again ∧
      ((∀ m ∈ messages, m.payload ≠ []) → 0 < length → ∃ b bs, taken = .ok (b :: bs)) := by
  obtain ⟨slice, cache, hcache, hfin⟩ : ∃ slice cache, t.stream.cache = slice :: cache ∧ slice.fin = true := by
    unfold StreamWs.waiting at hwaiting
    cases hcache : t.stream.cache with
    | nil => rw [hcache] at hwaiting; cases hwaiting
    | cons slice cache => exact ⟨slice, cache, rfl, by rw [hcache] at hwaiting; simpa using hwaiting⟩
  have hlength : result = .ok slice.buffer.length := by
    rw [hresult, streamWsPeeked, hcache]
    simp [hfin]
  have hslice : (∀ m ∈ messages, m.payload ≠ []) → slice.buffer ≠ [] := fun hne => by
    have hfits := h.fits
    have hall := h.nonempty hne
    rw [hcache] at hfits hall
    rw [(foldl_collect_cons hfin hfits).1] at hall
    exact hall slice (List.mem_cons_self ..)
  rcases hreads with ⟨-, -, hagain, hzero⟩ | htake
  · refine ⟨hagain, fun hne _ => ?_⟩
    -- only an empty message lets the read return nothing
    rw [hlength] at hzero
    rcases hzero with hzero | ⟨errno, herrno, -⟩
    · injection hzero with hzero
      exact absurd (List.eq_nil_of_length_eq_zero hzero) (hslice hne)
    · cases herrno
  · rw [streamWsTake, hcache] at htake
    injection htake with htaken _
    rw [htaken]
    exact ⟨fun he => (by cases he), fun hne hpos => take_cons (hslice hne) hpos⟩

/-- With no complete message in front and nothing left to arrive, a read finds nothing only behind all
bytes. Else it takes bytes of a message that is still growing, and the last one is spared. -/
theorem ByteInv.read_drained (hwaiting : t.stream.waiting = false) (hsupply : t.supply = [])
    (hresult : result = .error .again) :
    (taken = .error .again → t.data = messages.flatMap Message.payload) ∧
      (0 < length →
        (∀ slice, t.stream.cache.head? = some slice → slice.fin = true ∨ length < slice.buffer.length) →
          taken ≠ .error .again → ∃ b bs, taken = .ok (b :: bs)) := by
  have htake : (taken, s) = streamWsTake t.stream length := by
    refine hreads.resolve_left ?_
    rw [hresult]
    rintro ⟨-, -, -, hbad | ⟨errno, herrno, hne⟩⟩
    · cases hbad
    · injection herrno with he
      exact hne he.symm
  unfold streamWsTake at htake
  cases hcache : t.stream.cache with
  | nil =>
    rw [hcache] at htake
    injection htake with htaken _
    have hnone : Awaits t.stream [] pending := by simpa [Session.bytes, bytesOf, hsupply] using h.awaits
    obtain ⟨-, rfl⟩ := hnone.finished
    have hbytes := h.bytes
    rw [hcache] at hbytes
    refine ⟨fun _ => by simpa [bytesIn, fragmentsOf, payloads] using hbytes, fun _ _ hne => absurd htaken hne⟩
  | cons slice cache =>
    rw [hcache] at htake
    injection htake with htaken _
    refine ⟨fun hagain => (by rw [htaken] at hagain; cases hagain), fun hpos hspare _ => ?_⟩
    have hfin : slice.fin = false := by
      unfold StreamWs.waiting at hwaiting
      rw [hcache] at hwaiting
      simpa using hwaiting
    have hlong : length < slice.buffer.length := (hspare slice rfl).resolve_left (by rw [hfin]; decide)
    rw [htaken]
    exact take_cons (fun hnil => by rw [hnil] at hlong; cases hlong) hpos

end Read

theorem errnoBehind_at (seconds : Int) : ∀ writes, (Env.at seconds).errnoBehind writes = .again
  | 0 => rfl
  | writes + 1 => errnoBehind_at seconds writes

/-- A read that finds a chunk, and no complete message before it. -/
theorem doRead_chunk {sha1 : Sha1} {seconds : Int} {s s' : StreamWs} {chunk : Chunk} (hs : s.waiting = false)
    (hchunk : streamWsReceiveChunk sha1 (.at seconds) s chunk.data = some (none, s')) (length : Nat) :
    streamWsDoRead sha1 (.at seconds) s [chunk] .again length =
      some ((streamWsTake s' length).1, [], (streamWsTake s' length).2) := by
  have hpeek : streamWsPeekFrame sha1 (.at seconds) s [chunk] .again = some (streamWsPeeked s', [], s') := by
    unfold streamWsPeekFrame streamWsPeekLoop
    rw [hs]
    simp only [hchunk, Bool.false_eq_true, if_false]
    unfold streamWsPeekLoop
    by_cases hwaiting : s'.waiting = true
    · rw [if_pos hwaiting]
      rfl
    · rw [if_neg hwaiting]
      rfl
  unfold streamWsDoRead
  rw [hpeek, Option.map_some]
  simp only [errnoBehind_at]
  rcases hpeeked : streamWsPeeked s' with errno | n
  · obtain rfl : errno = .again := by
      unfold streamWsPeeked at hpeeked
      split at hpeeked
      · cases hpeeked
        rfl
      · split at hpeeked
        · cases hpeeked
        · cases hpeeked
          rfl
    rfl
  · cases n <;> rfl

/-- A message of which the first frame brings two bytes, and the second one another. -/
def growingMessage : Session :=
  { splitMessage with supply := [⟨[0x01, 2, 0x61, 0x62], by decide, by decide⟩, ⟨[0x80, 1, 0x63], by decide, by decide⟩] }

theorem growingMessage_opens : growingMessage.Opens [⟨wsOpcodeText, [0x61, 0x62], [[0x63]], Or.inl rfl⟩]
    [⟨false, wsOpcodeText, none, [0x61, 0x62]⟩, ⟨true, wsOpcodeContinue, none, [0x63]⟩] :=
  splitMessage_opens_with (by decide) (by decide) (by decide)

end CMx.Ws
