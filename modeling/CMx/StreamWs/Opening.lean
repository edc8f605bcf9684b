/-
From the opening handshake to the first frame. The handshake handlers empty the receive buffer when
the message is complete, so what a chunk holds behind the message is lost; frames that come in
chunks of their own are all handled.
-/
import CMx.StreamWs.Handshake
import CMx.StreamWs.Reading

namespace CMx.Ws

open Mqtt (Bytes CString StreamStatus ReadEnd Errno)

/-! ## Handshake messages -/

/-- A request or a response: its first line and its headers, with the word that one of them has as
its value. -/
structure HandshakeMessage where
  startLine : Bytes
  before : List HeaderLine
  key : HeaderLine
  after : List HeaderLine
  word : Bytes
  onLine : OnLine startLine
  graph : ∀ c ∈ word, isgraph c = true
  keyValue : ∃ front back, key.value = front ++ (word ++ back) ∧ IsSpace front ∧ IsSpace back

/-- The header that a server finds in a request, and a client in a response. -/
def handshakeHeader (clientRole : Bool) : Bytes := if clientRole then secWebSocketAccept else secWebSocketKey

theorem handshakeHeader_noColon (clientRole : Bool) : 0x3A ∉ (handshakeHeader clientRole).map tolower := by
  cases clientRole <;> decide

namespace HandshakeMessage

variable (m : HandshakeMessage)

def format : Bytes :=
  m.startLine ++ (httpLineEnd ++ (headerLines (m.before ++ m.key :: m.after) ++ httpLineEnd))

/-- The key is the first header of that name. -/
structure For (name : Bytes) : Prop where
  named : m.key.Named name
  first : ∀ l ∈ m.before, ¬ l.Named name

theorem format_noNul : 0 ∉ m.format := headerLines_noNul (fun hm => (m.onLine _ hm).1 rfl) _

theorem format_ends : httpHeadersEnd <:+: m.format := by
  rw [← Search.find_isSome_iff, format, find_headersEnd_lines _ m.onLine.noReturn]
  rfl

/-- The headers end where the message does. -/
theorem incomplete {str : Bytes} (h : str <+: m.format) (hlen : str.length < m.format.length) :
    ¬ httpHeadersEnd <:+: str := by
  intro hinfix
  obtain ⟨rest, hrest⟩ := h
  obtain ⟨headersEnd, hfind⟩ := Option.isSome_iff_exists.1 (Search.find_isSome_iff.2 hinfix)
  have hall := Search.find_append rest hfind
  rw [hrest, format, find_headersEnd_lines _ m.onLine.noReturn] at hall
  have heq := congrArg List.length (Option.some.inj hall)
  have hle := (Search.find_spec hfind).1.length_le
  have hsum := congrArg List.length hrest
  rw [List.length_append] at heq hsum
  omega

theorem format_ne_nil : m.format ≠ [] := fun h => by
  have hends := m.format_ends
  rw [h] at hends
  simp [httpHeadersEnd] at hends

variable {m}

theorem For.word {name : Bytes} (h : m.For name) (hname : 0x3A ∉ name.map tolower)
    (hbefore : ∀ l ∈ m.before, ¬ l.NameStarts name) : headerWord name m.format = some (some m.word) := by
  obtain ⟨front, back, hvalue, hfront, hback⟩ := m.keyValue
  exact headerWord_named hname m.onLine.noReturn hbefore h.named hvalue hfront m.graph hback

/-- A header whose name only starts as it should is found in place of the key. -/
theorem For.hidden {name : Bytes} (h : m.For name) (hname : 0x3A ∉ name.map tolower)
    (hbefore : ∃ l ∈ m.before, l.NameStarts name) : headerWord name m.format = some none :=
  headerWord_hidden hname m.onLine.noReturn h.first hbefore

end HandshakeMessage

/-! ## A chunk of the handshake -/

/-- The stream with a chunk in its buffer. -/
def StreamWs.append (s : StreamWs) (data : Bytes) : StreamWs := { s with buffer := bufferAppend s.buffer data }

@[simp] theorem live_append (s : StreamWs) (data : Bytes) : (s.append data).buffer.live = s.buffer.live ++ data :=
  live_bufferAppend s.buffer data

/-- A text without a NUL at the front of the live range is at the front of the string. -/
theorem prefix_string {front : Bytes} (hnul : 0 ∉ front) {s : StreamWs} (h : front <+: s.buffer.live) (env : Env) :
    front <+: s.string env := by
  obtain ⟨rest, hrest⟩ := h
  rw [StreamWs.string, drop_data, ← hrest, List.append_assoc, List.append_assoc, takeWhile_noNul hnul]
  exact List.prefix_append _ _

/-- What is answered to a complete message, by the word of its key. -/
def handshakeEvents (sha1 : Sha1) (s : StreamWs) : Option Bytes → List Event
  | none => [.handshake false]
  | some word =>
    if s.clientRole then [.handshake (s.key.any fun key => word <+: acceptKey sha1 key.bytes)]
    else [.write (handshakeResponse (acceptKey sha1 word)), .handshake true]

theorem happened_handshakeEvents (sha1 : Sha1) (s : StreamWs) (found : Option Bytes) :
    ∃ accepted, happened (handshakeEvents sha1 s found) = [.handshake accepted] := by
  unfold handshakeEvents
  split
  · exact ⟨_, rfl⟩
  · split <;> exact ⟨_, rfl⟩

/-- A complete message has been answered, and the buffer is empty. -/
structure Answered (sha1 : Sha1) (s s' : StreamWs) (found : Option Bytes) : Prop where
  trace : s'.trace = s.trace ++ handshakeEvents sha1 s found
  status : s'.status = if .handshake true ∈ handshakeEvents sha1 s found then .ready else s.status
  live : s'.buffer.live = []
  cache : s'.cache = s.cache
  clientRole : s'.clientRole = s.clientRole

section Chunk

variable (sha1 : Sha1) (env : Env) {s : StreamWs}

theorem handleHandshake_incomplete (h : handshakeWord s (s.string env) = none) :
    streamWsHandleHandshake sha1 env s = (.error .again, s) := by
  unfold handshakeWord headerWord at h
  unfold streamWsHandleHandshake
  by_cases hrole : s.clientRole = true
  · rw [if_pos hrole, Option.map_eq_none_iff] at h
    rw [if_pos hrole, handleHandshakeAccept_eq, h]
  · rw [if_neg hrole, Option.map_eq_none_iff] at h
    rw [if_neg hrole, handleHandshakeRequest_eq, h]

theorem answered_refuse {found : Option Bytes} (h : handshakeEvents sha1 s found = [.handshake false]) (b : Buffer) :
    Answered sha1 s (streamWsRefuse { s with buffer := b }).2 found where
  trace := by rw [h]; rfl
  status := by rw [h]; rfl
  live := live_bufferReset b
  cache := rfl
  clientRole := rfl

theorem handleHandshake_answered {found : Option Bytes} (h : handshakeWord s (s.string env) = some found) :
    Answered sha1 s (streamWsHandleHandshake sha1 env s).2 found := by
  unfold handshakeWord headerWord at h
  unfold streamWsHandleHandshake
  by_cases hrole : s.clientRole = true
  · rw [if_pos hrole] at h
    rw [if_pos hrole, handleHandshakeAccept_eq]
    obtain ⟨value, hvalue, rfl⟩ := Option.map_eq_some_iff.1 h
    rw [hvalue]
    -- a client forgets its key with the first answer that it accepts
    cases hkey : s.key with
    | none => exact answered_refuse sha1 (by cases value <;> simp [handshakeEvents, hrole, hkey]) s.buffer
    | some ownKey =>
      cases value with
      | none => exact answered_refuse sha1 rfl s.buffer
      | some value =>
        by_cases hword : word value <+: acceptKey sha1 ownKey.bytes
        · have hevents : handshakeEvents sha1 s (some (word value)) = [.handshake true] := by
            simp [handshakeEvents, hrole, hkey, hword]
          simp only [if_pos hword]
          exact ⟨by rw [Option.map_some, hevents]; rfl, by rw [Option.map_some, hevents]; rfl, live_bufferReset _, rfl, rfl⟩
        · simp only [if_neg hword]
          exact answered_refuse sha1 (by simp [handshakeEvents, hrole, hkey, hword]) _
  · rw [if_neg hrole] at h
    rw [if_neg hrole, handleHandshakeRequest_eq]
    obtain ⟨value, hvalue, rfl⟩ := Option.map_eq_some_iff.1 h
    rw [hvalue]
    cases value with
    | none => exact answered_refuse sha1 rfl s.buffer
    | some value =>
      have hevents : handshakeEvents sha1 s (some (word value)) =
          [.write (handshakeResponse (acceptKey sha1 (word value))), .handshake true] := by
        simp [handshakeEvents, hrole]
      refine ⟨?_, ?_, live_bufferReset _, rfl, rfl⟩
      · rw [Option.map_some, hevents]
        simp [streamWsAccept, StreamWs.startKeepAliveTimer, StreamWs.log, streamWsEndWord]
      · rw [Option.map_some, hevents]
        simp [streamWsAccept, StreamWs.startKeepAliveTimer]

theorem receiveChunk_handshake (hs : s.status ≠ .ready) (data : Bytes) :
    streamWsReceiveChunk sha1 env s data = some (some (streamWsHandleHandshake sha1 env (s.append data)).1,
      (streamWsHandleHandshake sha1 env (s.append data)).2) := by
  unfold streamWsReceiveChunk
  simp only
  rw [if_pos hs]
  rfl

end Chunk

/-! ## Steps -/

/-- How an operation peeks. -/
def Op.peeks : Op → Option (Env × Nat × ReadEnd)
  | .peek env available last | .doRead env available last _ => some (env, available, last)
  | .readFrame _ => none

/-- How many chunks an operation takes while the stream is not ready, if they have arrived. -/
def Op.chunks (op : Op) : Nat := op.peeks.elim 0 fun (_, available, _) => min available 1

section Steps

variable {sha1 : Sha1} {t : Session} {op : Op}

/-- Besides its peek, an operation changes nothing but the cache. -/
theorem Session.step_peeks {env : Env} {available : Nat} {last : ReadEnd} (hop : op.peeks = some (env, available, last))
    {result : Except Errno Nat} {left : List Chunk} {s : StreamWs}
    (h : streamWsPeekFrame sha1 env t.stream (t.supply.take available) last = some (result, left, s)) :
    ∃ t' cache, t.step sha1 op = some t' ∧ t'.stream = { s with cache } ∧ (s.cache = [] → cache = []) ∧
      t'.supply = left ++ t.supply.drop available := by
  cases op with
  | readFrame length => cases hop
  | peek env' available' last' =>
    cases hop
    exact ⟨{ t with stream := s, supply := left ++ t.supply.drop available }, s.cache, by rw [step, h]; rfl, rfl, id, rfl⟩
  | doRead env' available' last' length =>
    cases hop
    obtain ⟨taken, s', hread, hcases⟩ := doRead_cases h length
    refine ⟨_, s'.cache, step_doRead hread, ?_, ?_, rfl⟩
    all_goals rcases hcases with ⟨rfl, -⟩ | htake
    · rfl
    · unfold streamWsTake at htake
      split at htake <;> injection htake with htaken hs' <;> rw [hs']
    · exact id
    · intro hcache
      rw [streamWsTake, hcache] at htake
      injection htake with htaken hs'
      rw [hs', hcache]

theorem Session.step_peeks_none {env : Env} {available : Nat} {last : ReadEnd} (hop : op.peeks = some (env, available, last))
    (h : streamWsPeekFrame sha1 env t.stream (t.supply.take available) last = none) : t.step sha1 op = none := by
  cases op with
  | readFrame length => cases hop
  | peek env' available' last' =>
    cases hop
    rw [step, h]
    rfl
  | doRead env' available' last' length =>
    cases hop
    rw [step, streamWsDoRead, h]
    rfl

theorem readFrame_keeps (s : StreamWs) (length : Nat) :
    ∃ cache, (streamWsReadFrame s length).2 = { s with cache } ∧ (s.cache = [] → cache = []) := by
  unfold streamWsReadFrame
  cases hcache : s.cache with
  | nil => exact ⟨s.cache, rfl, fun _ => hcache⟩
  | cons slice cache =>
    simp only
    split
    · exact ⟨s.cache, rfl, fun hnil => by cases hnil⟩
    · split
      · exact ⟨s.cache, rfl, fun hnil => by cases hnil⟩
      · exact ⟨cache, rfl, fun hnil => by cases hnil⟩

theorem Session.step_reads (hop : op.peeks = none) :
    ∃ t' cache, t.step sha1 op = some t' ∧ t'.stream = { t.stream with cache } ∧ (t.stream.cache = [] → cache = []) ∧
      t'.supply = t.supply := by
  cases op with
  | peek env available last => cases hop
  | doRead env available last length => cases hop
  | readFrame length =>
    obtain ⟨cache, hs, hnil⟩ := readFrame_keeps t.stream length
    cases hread : streamWsReadFrame t.stream length with
    | mk result s =>
      rw [hread] at hs
      cases result with
      | error errno => exact ⟨{ t with stream := s }, cache, by rw [step, hread], hs, hnil, rfl⟩
      | ok frame =>
        exact ⟨{ t with stream := s, frames := t.frames ++ [frame] }, cache, by rw [step, hread], hs, hnil, rfl⟩

/-- A peek of a stream that is not ready handles one chunk. -/
theorem peekFrame_handshake {env : Env} {s s' : StreamWs} {chunk : Chunk} {reads : List Chunk} {result : Except Errno Nat}
    (hcache : s.cache = []) (h : streamWsReceiveChunk sha1 env s chunk.data = some (some result, s')) (last : ReadEnd) :
    streamWsPeekFrame sha1 env s (chunk :: reads) last = some (result, reads, s') := by
  have hwaiting : s.waiting = false := by rw [StreamWs.waiting, hcache]; rfl
  unfold streamWsPeekFrame streamWsPeekLoop
  rw [hwaiting]
  simp [h]

/-- Without a chunk, nothing happens. -/
theorem peekFrame_nil (sha1 : Sha1) (env : Env) {s : StreamWs} (hcache : s.cache = []) (last : ReadEnd) :
    ∃ result, streamWsPeekFrame sha1 env s [] last = some (result, [], s) := by
  have hwaiting : s.waiting = false := by rw [StreamWs.waiting, hcache]; rfl
  unfold streamWsPeekFrame streamWsPeekLoop
  rw [hwaiting]
  exact ⟨_, rfl⟩

end Steps

/-! ## From the handshake to the frames -/

/-- A stream that waits for a handshake message, with the beginning of it in its buffer; behind the
message come frames that its peer masks as it should. -/
structure Session.Opening (sha1 : Sha1) (t : Session) (m : HandshakeMessage) (frames : List Frame) : Prop where
  status : t.stream.status ≠ .ready
  cache : t.stream.cache = []
  happened : happened t.stream.trace = []
  bytes : t.stream.buffer.live ++ t.bytes = m.format ++ frames.flatMap Frame.format
  begun : t.stream.buffer.live.length < m.format.length
  addressed : m.For (handshakeHeader t.stream.clientRole)
  accepted : t.stream.clientRole = true → ∃ key, t.stream.key = some key ∧ m.word = acceptKey sha1 key.bytes
  proper : ∀ f ∈ frames, f.Proper
  unmasked : t.stream.clientRole = true → ∀ f ∈ frames, f.mask = none

/-- With a chunk of the handshake the message comes to its end, or it is read as incomplete. -/
def Separate (m : HandshakeMessage) (t : Session) (op : Op) : Prop :=
  match op.peeks with
  | none => True
  | some (env, available, _) =>
    t.stream.status ≠ .ready → ∀ chunk, (t.supply.take available).head? = some chunk →
      t.stream.buffer.live ++ chunk.data = m.format ∨
        ¬ httpHeadersEnd <:+: (t.stream.append chunk.data).string env

/-- The stream is ready, and has handled some of the frames. -/
def Session.Running (t : Session) (frames : List Frame) : Prop :=
  ∃ done pending, (frames.map fun f => (f.header, f)) = done ++ pending ∧ Awaits t.stream t.bytes pending ∧
    happened t.stream.trace = .handshake true :: done.map fun found => .receive found.1 found.2.payload

/-- The message has not been read to its end. -/
structure Waits (sha1 : Sha1) (m : HandshakeMessage) (frames : List Frame) (t : Session) (op : Op) (t' : Session) : Prop where
  opening : t'.Opening sha1 m frames
  clientRole : t'.stream.clientRole = t.stream.clientRole
  trace : t'.stream.trace = t.stream.trace
  separate : Separate m t op

/-- A chunk that is read as the end of the message has been answered. -/
structure Completes (sha1 : Sha1) (m : HandshakeMessage) (t : Session) (op : Op) (data : Bytes) (found : Option Bytes)
    (t' : Session) : Prop where
  word : ∃ env, handshakeWord t.stream ((t.stream.append data).string env) = some found
  answered : Answered sha1 t.stream t'.stream found
  bytes : t.bytes = data ++ t'.bytes
  separate : Separate m t op ↔ t.stream.buffer.live ++ data = m.format

section Phases

variable {sha1 : Sha1} {t : Session} {m : HandshakeMessage} {frames : List Frame}

/-- The state of a stream that opens, apart from its cache and its buffer. -/
theorem Session.Opening.of_stream {t' : Session} (h : t.Opening sha1 m frames) {cache : List WsFrameSlice} {b : Buffer}
    (ht' : t'.stream = { t.stream with cache, buffer := b }) (hcache : cache = [])
    (hbytes : b.live ++ t'.bytes = t.stream.buffer.live ++ t.bytes) (hbegun : b.live.length < m.format.length) :
    t'.Opening sha1 m frames := by
  refine ⟨?_, ?_, ?_, ?_, ?_, ?_, ?_, h.proper, ?_⟩ <;> rw [ht']
  · exact h.status
  · exact hcache
  · exact h.happened
  · exact hbytes.trans h.bytes
  · exact hbegun
  · exact h.addressed
  · exact h.accepted
  · exact h.unmasked

theorem handshakeWord_eq_none_iff {s : StreamWs} {str : Bytes} : handshakeWord s str = none ↔ ¬ httpHeadersEnd <:+: str := by
  unfold handshakeWord
  exact headerWord_eq_none_iff

/-- An operation that does not peek leaves the message as it is, -/
theorem Session.Opening.step_reads (h : t.Opening sha1 m frames) {op : Op} (hop : op.peeks = none) :
    ∃ t', t.step sha1 op = some t' ∧ t'.supply = t.supply.drop op.chunks ∧ Waits sha1 m frames t op t' := by
  obtain ⟨t', cache, ht', hs, hnil, hsupply⟩ := @Session.step_reads sha1 t op hop
  refine ⟨t', ht', by rw [hsupply, Op.chunks, hop]; rfl, h.of_stream hs (hnil h.cache) ?_ h.begun,
    by rw [hs], by rw [hs], by rw [Separate, hop]; trivial⟩
  rw [Session.bytes, hsupply]
  rfl

section Peeks

variable {op : Op} {env : Env} {available : Nat} {last : ReadEnd} (hop : op.peeks = some (env, available, last))
include hop

/-- and so does one that finds no chunk. -/
theorem Session.Opening.step_empty (h : t.Opening sha1 m frames) (hreads : t.supply.take available = []) :
    ∃ t', t.step sha1 op = some t' ∧ t'.supply = t.supply.drop op.chunks ∧ Waits sha1 m frames t op t' := by
  obtain ⟨result, hpeek⟩ := peekFrame_nil sha1 env h.cache last
  obtain ⟨t', cache, ht', hs, hnil, hsupply⟩ := Session.step_peeks hop (by rw [hreads]; exact hpeek)
  have hchunks : op.chunks = min available 1 := by rw [Op.chunks, hop]; rfl
  refine ⟨t', ht', ?_, h.of_stream hs (hnil h.cache) ?_ h.begun, by rw [hs], by rw [hs], ?_⟩
  · rw [hsupply, hchunks, List.nil_append]
    rcases List.take_eq_nil_iff.1 hreads with rfl | hsupply'
    · rfl
    · rw [hsupply', List.drop_nil, List.drop_nil]
  · rw [t.bytes_split available, hreads, Session.bytes, hsupply]
    rfl
  · rw [Separate, hop]
    simp [hreads]

variable {chunk : Chunk} {rest : List Chunk} (hreads : t.supply.take available = chunk :: rest)
include hreads

/-- A chunk that arrives is handled by the handshake. -/
theorem Session.step_chunk (hstatus : t.stream.status ≠ .ready) (hcache : t.stream.cache = []) :
    ∃ t' cache, t.step sha1 op = some t' ∧ t'.supply = t.supply.drop op.chunks ∧ t.bytes = chunk.data ++ t'.bytes ∧
      t'.stream = { (streamWsHandleHandshake sha1 env (t.stream.append chunk.data)).2 with cache } ∧
      ((streamWsHandleHandshake sha1 env (t.stream.append chunk.data)).2.cache = [] → cache = []) := by
  have hchunk := receiveChunk_handshake sha1 env hstatus chunk.data
  obtain ⟨t', cache, ht', hs, hnil, hsupply⟩ := Session.step_peeks hop
    (by rw [hreads]; exact peekFrame_handshake hcache hchunk last)
  refine ⟨t', cache, ht', ?_, ?_, hs, hnil⟩
  · have hpos : min available 1 = 1 := by
      cases available with
      | zero => cases hreads
      | succ n => omega
    have hall : t.supply = chunk :: (rest ++ t.supply.drop available) := by
      rw [← List.cons_append, ← hreads, List.take_append_drop]
    have hchunks : op.chunks = min available 1 := by rw [Op.chunks, hop]; rfl
    rw [hsupply, hchunks, hpos]
    exact (congrArg (List.drop 1) hall).symm
  · rw [t.bytes_split available, hreads, Session.bytes, hsupply]
    simp [bytesOf]

/-- With this chunk the message is read as incomplete, so its end is still to come. -/
theorem Session.Opening.waits (h : t.Opening sha1 m frames) {t' : Session} {cache : List WsFrameSlice}
    (hbytes : t.bytes = chunk.data ++ t'.bytes)
    (hs : t'.stream = { t.stream with cache, buffer := bufferAppend t.stream.buffer chunk.data }) (hcache : cache = [])
    (hincomplete : ¬ httpHeadersEnd <:+: (t.stream.append chunk.data).string env) : Waits sha1 m frames t op t' := by
  refine ⟨h.of_stream hs hcache ?_ ?_, by rw [hs], by rw [hs], ?_⟩
  · rw [live_bufferAppend, hbytes, List.append_assoc]
  · by_contra hlong
    have hfront : m.format <+: t.stream.buffer.live ++ chunk.data := by
      rw [not_lt, live_bufferAppend] at hlong
      have hall := h.bytes
      rw [hbytes, ← List.append_assoc] at hall
      exact List.prefix_of_prefix_length_le ⟨_, hall.symm⟩ (List.prefix_append _ _) hlong
    rw [← live_append] at hfront
    exact hincomplete (m.format_ends.trans (prefix_string m.format_noNul hfront env).isInfix)
  · rw [Separate, hop]
    simp only [hreads]
    rintro - chunk' hchunk'
    cases hchunk'
    exact Or.inr hincomplete

/-- A chunk that is read as the end of the message is separate if nothing comes behind the message. -/
theorem separate_iff_of_word (hstatus : t.stream.status ≠ .ready) {found : Option Bytes}
    (hword : handshakeWord (t.stream.append chunk.data) ((t.stream.append chunk.data).string env) = some found) :
    Separate m t op ↔ t.stream.buffer.live ++ chunk.data = m.format := by
  rw [Separate, hop]
  simp only [hreads]
  constructor
  · intro hseparate
    refine (hseparate hstatus chunk rfl).resolve_right fun hincomplete => ?_
    rw [handshakeWord_eq_none_iff.2 hincomplete] at hword
    cases hword
  · rintro hwhole - chunk' hchunk'
    cases hchunk'
    exact Or.inl hwhole

end Peeks

/-- A step goes on with the handshake, or it completes the message. -/
theorem Session.Opening.step (h : t.Opening sha1 m frames) (op : Op) :
    ∃ t', t.step sha1 op = some t' ∧ t'.supply = t.supply.drop op.chunks ∧
      (Waits sha1 m frames t op t' ∨ ∃ data found, Completes sha1 m t op data found t') := by
  cases hop : op.peeks with
  | none =>
    obtain ⟨t', ht', hsupply, hwaits⟩ := h.step_reads hop
    exact ⟨t', ht', hsupply, Or.inl hwaits⟩
  | some peek =>
    obtain ⟨env, available, last⟩ := peek
    cases hreads : t.supply.take available with
    | nil =>
      obtain ⟨t', ht', hsupply, hwaits⟩ := h.step_empty hop hreads
      exact ⟨t', ht', hsupply, Or.inl hwaits⟩
    | cons chunk rest =>
      obtain ⟨t', cache, ht', hsupply, hbytes, hs, hnil⟩ :=
        @Session.step_chunk sha1 _ _ _ _ _ hop _ _ hreads h.status h.cache
      refine ⟨t', ht', hsupply, ?_⟩
      cases hword : handshakeWord (t.stream.append chunk.data) ((t.stream.append chunk.data).string env) with
      | none =>
        rw [handleHandshake_incomplete sha1 env hword] at hs hnil
        exact Or.inl (h.waits hop hreads hbytes hs (hnil h.cache) (handshakeWord_eq_none_iff.1 hword))
      | some found =>
        have hanswered := handleHandshake_answered sha1 env hword
        have hcache : cache = t.stream.cache := (hnil (hanswered.cache.trans h.cache)).trans h.cache.symm
        refine Or.inr ⟨chunk.data, found, ⟨env, hword⟩, ?_, hbytes, separate_iff_of_word hop hreads h.status hword⟩
        rw [hs]
        exact ⟨hanswered.trace, hanswered.status, hanswered.live, hcache, hanswered.clientRole⟩

/-- A message that has come without anything behind it is answered for what it says. -/
theorem Completes.found_eq {t' : Session} {op : Op} {data : Bytes} {found : Option Bytes}
    (h : Completes sha1 m t op data found t') (hwhole : t.stream.buffer.live ++ data = m.format) :
    headerWord (handshakeHeader t.stream.clientRole) m.format = some found := by
  obtain ⟨env, hword⟩ := h.word
  have hfront : m.format <+: (t.stream.append data).buffer.live := by rw [live_append, hwhole]
  obtain ⟨rest, hrest⟩ := prefix_string m.format_noNul hfront env
  rw [← hrest, handshakeWord_append _ m.format_ends] at hword
  exact hword

theorem Completes.bytes_eq {t' : Session} {op : Op} {data : Bytes} {found : Option Bytes}
    (h : Completes sha1 m t op data found t') (hopening : t.Opening sha1 m frames)
    (hwhole : t.stream.buffer.live ++ data = m.format) : t'.bytes = frames.flatMap Frame.format := by
  have hall := hopening.bytes
  rw [h.bytes, ← List.append_assoc, hwhole] at hall
  exact List.append_cancel_left hall

theorem Completes.running {t' : Session} {op : Op} {data : Bytes} {found : Option Bytes}
    (h : Completes sha1 m t op data found t') (hopening : t.Opening sha1 m frames)
    (hwhole : t.stream.buffer.live ++ data = m.format)
    (hbefore : ∀ l ∈ m.before, ¬ l.NameStarts (handshakeHeader t.stream.clientRole)) :
    t'.Running frames ∧ t'.stream.cache = [] ∧
      t'.stream.trace = t.stream.trace ++ handshakeEvents sha1 t.stream (some m.word) := by
  have hfound := h.found_eq hwhole
  rw [hopening.addressed.word (handshakeHeader_noColon _) hbefore] at hfound
  obtain rfl := Option.some.inj hfound
  have hevents : happened (handshakeEvents sha1 t.stream (some m.word)) = [.handshake true] ∧
      .handshake true ∈ handshakeEvents sha1 t.stream (some m.word) := by
    unfold handshakeEvents
    by_cases hrole : t.stream.clientRole = true
    · obtain ⟨key, hkey, hword⟩ := hopening.accepted hrole
      simp [hrole, hkey, hword, happened, Event.written]
    · simp [hrole, happened, Event.written]
  have hbytes := h.bytes_eq hopening hwhole
  refine ⟨⟨[], _, rfl, ⟨?_, ?_, ?_, ?_⟩, ?_⟩, h.answered.cache.trans hopening.cache, h.answered.trace⟩
  · rw [h.answered.status, if_pos hevents.2]
  · rw [h.answered.live, Framing.drain_more rfl]
  · rw [h.answered.live, List.nil_append, hbytes]
    exact drain_format hopening.proper
  · rw [h.answered.clientRole]
    intro hrole found hfound
    obtain ⟨f, hf, rfl⟩ := List.mem_map.1 hfound
    exact hopening.unmasked hrole f hf
  · rw [h.answered.trace, happened, List.filter_append]
    show happened t.stream.trace ++ happened (handshakeEvents sha1 t.stream (some m.word)) = _
    rw [hopening.happened, hevents.1]
    rfl

/-- A stream that runs goes on with it, whatever is done. -/
theorem Session.Running.step (sha1 : Sha1) (h : t.Running frames) (op : Op) :
    ∃ t', t.step sha1 op = some t' ∧ t'.Running frames := by
  obtain ⟨done, pending, hframes, hawaits, hhappened⟩ := h
  cases hop : op.peeks with
  | none =>
    obtain ⟨t', cache, ht', hs, -, hsupply⟩ := @Session.step_reads sha1 t op hop
    refine ⟨t', ht', done, pending, hframes, ?_, ?_⟩
    · rw [Session.bytes, hsupply, hs]
      exact ⟨hawaits.status, hawaits.begun, hawaits.drained, hawaits.unmasked⟩
    · rw [hs]
      exact hhappened
  | some peek =>
    obtain ⟨env, available, last⟩ := peek
    rw [t.bytes_split available] at hawaits
    obtain ⟨result, left, s, done', rest, hpeek, rfl, hs', hd, -⟩ := hawaits.peekFrame sha1 env last
    obtain ⟨t', cache, ht', hs, -, hsupply⟩ := Session.step_peeks hop hpeek
    refine ⟨t', ht', done ++ done', rest, by rw [hframes, List.append_assoc], ?_, ?_⟩
    · rw [Session.bytes, hsupply, Session.bytesOf_append, hs]
      exact ⟨hs'.status, hs'.begun, hs'.drained, hs'.unmasked⟩
    · rw [hs]
      show happened s.trace = _
      rw [hd.happened, hhappened, List.map_append, List.cons_append]

end Phases

/-! ## Bytes of frames -/

/-- A frame whose size has not wrapped around. -/
def Event.Whole : Event → Prop
  | .receive frame _ => ¬ frame.Wraps
  | _ => False

/-- The bytes of a frame. -/
def Event.size : Event → Nat
  | .receive frame _ => frame.payloadOffset + frame.payloadLength
  | _ => 0

/-- Of the bytes in the buffer and those that it is fed, whole frames take as many as they have. -/
def Takes (s s' : StreamWs) (fed : Nat) : Prop :=
  ∃ more, happened s'.trace = happened s.trace ++ more ∧
    ((∀ e ∈ more, e.Whole) → (more.map Event.size).sum + s'.buffer.length = s.buffer.length + fed)

section Takes

variable {sha1 : Sha1} {env : Env} {s s' s'' : StreamWs} {fed fed' : Nat}

theorem takes_of_eq (htrace : happened s'.trace = happened s.trace) (hlength : s'.buffer.length = s.buffer.length + fed) :
    Takes s s' fed := ⟨[], by rw [htrace, List.append_nil], fun _ => by simpa using hlength⟩

theorem Takes.trans (h : Takes s s' fed) (h' : Takes s' s'' fed') : Takes s s'' (fed + fed') := by
  obtain ⟨more, htrace, hsize⟩ := h
  obtain ⟨more', htrace', hsize'⟩ := h'
  refine ⟨more ++ more', by rw [htrace', htrace, List.append_assoc], fun hwhole => ?_⟩
  have hfirst := hsize fun e he => hwhole e (List.mem_append_left _ he)
  have hsecond := hsize' fun e he => hwhole e (List.mem_append_right _ he)
  rw [List.map_append, List.sum_append]
  omega

theorem streamWsUnmask_keeps (env : Env) (s : StreamWs) (frame : WsFrame) :
    (streamWsUnmask env s frame).buffer.length = s.buffer.length ∧
      happened (streamWsUnmask env s frame).trace = happened s.trace := by
  unfold streamWsUnmask
  split
  · split
    · simp [streamWsDisconnect, streamWsSetStatus, streamWsGenerateMask, streamWsWriteFrame, streamDoWrite, StreamWs.log,
        happened, Event.written]
    · exact ⟨rfl, rfl⟩
  · exact ⟨rfl, rfl⟩

/-- A frame is handled and cut off. -/
theorem handle_takes {frame : WsFrame} {frameLength : Nat} (hparse : wsParseFrame s.buffer.live = .frame frame frameLength)
    (h : streamWsHandleReceivedFrame env s frame = some s') :
    Takes s { s' with buffer := bufferCut s'.buffer frameLength } 0 := by
  unfold streamWsHandleReceivedFrame at h
  split at h
  · cases h
  · obtain ⟨hlength, htrace⟩ := streamWsUnmask_keeps env s frame
    simp only [Option.some.injEq] at h
    subst h
    obtain ⟨-, -, hbuffer, hhappened⟩ := handlePayload_keeps env
      ((streamWsUnmask env s frame).log (.receive frame (payloadAt (streamWsUnmask env s frame).buffer.live frame))) frame
      (payloadAt (streamWsUnmask env s frame).buffer.live frame)
    refine ⟨[.receive frame (payloadAt (streamWsUnmask env s frame).buffer.live frame)], ?_, fun hwhole => ?_⟩
    · show happened (streamWsHandlePayload _ _ _ _).trace = _
      rw [hhappened, ← htrace]
      simp [StreamWs.log, happened, Event.written]
    · have hr := wsParseFrame_spec hparse
      have hlen := hr.frameLength_of_not_wraps (hwhole _ (List.mem_singleton_self _))
      have hle := hr.frameLength_le
      rw [Buffer.length_live] at hle
      have hcut : (streamWsHandlePayload env ((streamWsUnmask env s frame).log (.receive frame
          (payloadAt (streamWsUnmask env s frame).buffer.live frame))) frame
          (payloadAt (streamWsUnmask env s frame).buffer.live frame)).buffer.length = s.buffer.length := by
        rw [hbuffer]
        exact hlength
      simp only [List.map_cons, List.map_nil, List.sum_cons, List.sum_nil, Event.size, bufferCut, hcut]
      omega

theorem parseLoop_takes : ∀ (rounds : Nat) {s : StreamWs}, streamWsParseLoop env rounds s = some s' → Takes s s' 0
  | 0, s, h => by
    rw [streamWsParseLoop] at h
    split at h
    · cases h
      exact takes_of_eq rfl rfl
    · cases h
  | rounds + 1, s, h => by
    rw [streamWsParseLoop] at h
    split at h
    · cases h
      exact takes_of_eq rfl rfl
    · split at h
      · cases h
        exact takes_of_eq rfl rfl
      · rename_i frame frameLength hparse
        split at h
        · cases h
        · rename_i t hhandle
          exact (handle_takes hparse hhandle).trans (parseLoop_takes rounds h)

theorem receiveChunk_takes {data : Bytes} {result : Option (Except Errno Nat)}
    (h : streamWsReceiveChunk sha1 env s data = some (result, s')) : Takes s s' data.length := by
  have happend : Takes s (s.append data) data.length := takes_of_eq rfl rfl
  by_cases hs : s.status = .ready
  · unfold streamWsReceiveChunk at h
    simp only at h
    rw [if_neg (fun hne => hne hs)] at h
    obtain ⟨t, hloop, heq⟩ := Option.map_eq_some_iff.1 h
    cases heq
    exact happend.trans (parseLoop_takes _ hloop)
  · rw [receiveChunk_handshake sha1 env hs, Option.some.injEq] at h
    cases hword : handshakeWord (s.append data) ((s.append data).string env) with
    | none =>
      rw [handleHandshake_incomplete sha1 env hword] at h
      cases h
      exact happend
    | some found =>
      -- the message is not a frame
      have hanswered := handleHandshake_answered sha1 env hword
      obtain ⟨accepted, hevents⟩ := happened_handshakeEvents sha1 (s.append data) found
      cases h
      refine ⟨[.handshake accepted], ?_, fun hwhole => (hwhole _ (List.mem_singleton_self _)).elim⟩
      rw [hanswered.trace, happened, List.filter_append, ← hevents]
      rfl

theorem peekLoop_takes : ∀ {reads : List Chunk} {s : StreamWs} {left : List Chunk} {loopEnd : PeekEnd},
    streamWsPeekLoop sha1 env reads s = some (left, loopEnd, s') →
      ∃ fed, Takes s s' fed ∧ (bytesOf reads).length = fed + (bytesOf left).length
  | [], s, left, loopEnd, h => by
    unfold streamWsPeekLoop at h
    split at h <;> cases h <;> exact ⟨0, takes_of_eq rfl rfl, rfl⟩
  | chunk :: reads, s, left, loopEnd, h => by
    have hbytes : (bytesOf (chunk :: reads)).length = chunk.data.length + (bytesOf reads).length := by simp [bytesOf]
    unfold streamWsPeekLoop at h
    split at h
    · cases h
      exact ⟨0, takes_of_eq rfl rfl, (Nat.zero_add _).symm⟩
    · simp only at h
      split at h
      · cases h
      · rename_i result t hchunk
        cases h
        exact ⟨chunk.data.length, receiveChunk_takes hchunk, hbytes⟩
      · rename_i t hchunk
        obtain ⟨fed, htakes, hlen⟩ := peekLoop_takes h
        exact ⟨chunk.data.length + fed, (receiveChunk_takes hchunk).trans htakes, by omega⟩

theorem peekFrame_takes {reads left : List Chunk} {last : ReadEnd} {result : Except Errno Nat}
    (h : streamWsPeekFrame sha1 env s reads last = some (result, left, s')) :
    ∃ fed, Takes s s' fed ∧ (bytesOf reads).length = fed + (bytesOf left).length := by
  obtain ⟨⟨left', loopEnd, t⟩, hloop, heq⟩ := Option.map_eq_some_iff.1 h
  cases heq
  exact peekLoop_takes hloop

/-- The bytes to come are those that a step takes and those that are still to come. -/
theorem Session.step_takes {t t' : Session} {op : Op} (h : t.step sha1 op = some t') :
    ∃ fed, Takes t.stream t'.stream fed ∧ t.bytes.length = fed + t'.bytes.length := by
  cases hop : op.peeks with
  | none =>
    obtain ⟨u, cache, hu, hs, -, hsupply⟩ := @Session.step_reads sha1 t op hop
    rw [h] at hu
    cases hu
    refine ⟨0, ?_, by rw [bytes, bytes, hsupply, Nat.zero_add]⟩
    rw [hs]
    exact takes_of_eq rfl rfl
  | some peek =>
    obtain ⟨env, available, last⟩ := peek
    cases hpeek : streamWsPeekFrame sha1 env t.stream (t.supply.take available) last with
    | none =>
      rw [Session.step_peeks_none hop hpeek] at h
      cases h
    | some outcome =>
      obtain ⟨result, left, s⟩ := outcome
      obtain ⟨fed, ⟨more, htrace, hsize⟩, hlen⟩ := peekFrame_takes hpeek
      obtain ⟨u, cache, hu, hs, -, hsupply⟩ := Session.step_peeks hop hpeek
      rw [h] at hu
      cases hu
      refine ⟨fed, by rw [hs]; exact ⟨more, htrace, hsize⟩, ?_⟩
      rw [t.bytes_split available, bytes, hsupply, bytesOf_append, List.length_append, List.length_append]
      omega

theorem Session.run_takes : ∀ {ops : List Op} {t t' : Session}, t.run sha1 ops = some t' →
    ∃ fed, Takes t.stream t'.stream fed ∧ t.bytes.length = fed + t'.bytes.length
  | [], t, t', h => by
    cases h
    exact ⟨0, takes_of_eq rfl rfl, (Nat.zero_add _).symm⟩
  | op :: ops, t, t', h => by
    obtain ⟨u, hu, hrun⟩ := Option.bind_eq_some_iff.1 h
    obtain ⟨fed, htakes, hlen⟩ := step_takes hu
    obtain ⟨fed', htakes', hlen'⟩ := run_takes hrun
    exact ⟨fed + fed', htakes.trans htakes', by omega⟩

end Takes

/-! ## Runs -/

/-- The step condition holds at every step of a run. -/
def Session.Along (sha1 : Sha1) (P : Session → Op → Prop) : Session → List Op → Prop
  | _, [] => True
  | t, op :: ops => P t op ∧ ∀ t', t.step sha1 op = some t' → t'.Along sha1 P ops

/-- The stream is ready, has handled the handshake message and exactly these frames, in order, and has
nothing left. -/
structure Session.HandledAll (t : Session) (frames : List Frame) : Prop where
  status : t.stream.status = .ready
  happened : happened t.stream.trace = .handshake true :: frames.map fun f => .receive f.header f.payload
  live : t.stream.buffer.live = []

section Runs

variable {sha1 : Sha1} {t : Session} {m : HandshakeMessage} {frames : List Frame}

/-- A stream that runs sees no handshake any more. -/
theorem Session.Running.along : ∀ (ops : List Op) {t : Session}, t.Running frames → t.Along sha1 (Separate m) ops
  | [], _, _ => trivial
  | op :: ops, t, h => by
    refine ⟨?_, fun t' ht' => ?_⟩
    · obtain ⟨done, pending, -, hawaits, -⟩ := h
      unfold Separate
      split
      · trivial
      · exact fun hs => absurd hawaits.status hs
    · obtain ⟨u, hu, hrunning⟩ := h.step sha1 op
      rw [ht'] at hu
      cases hu
      exact along ops hrunning

theorem Session.Running.run (sha1 : Sha1) (h : t.Running frames) (ops : List Op) :
    ∃ t', t.run sha1 ops = some t' ∧ t'.Running frames :=
  Session.run_inv (fun _ op _ h => h.step sha1 op) h

/-- With all bytes received, all frames have been handled. -/
theorem Session.Running.handledAll (h : t.Running frames) (hbytes : t.bytes = []) : t.HandledAll frames := by
  obtain ⟨done, pending, hframes, hawaits, hhappened⟩ := h
  rw [hbytes] at hawaits
  obtain ⟨hlive, rfl⟩ := hawaits.finished
  refine ⟨hawaits.status, ?_, hlive⟩
  rw [hhappened, ← List.append_nil done, ← hframes, List.map_map]
  rfl

/-- A handshake that no chunk mixes with frames comes to its end. -/
theorem Session.Opening.run : ∀ {ops : List Op} {t : Session}, t.Opening sha1 m frames →
    (∀ l ∈ m.before, ¬ l.NameStarts (handshakeHeader t.stream.clientRole)) → t.Along sha1 (Separate m) ops →
      ∃ t', t.run sha1 ops = some t' ∧ (t'.Opening sha1 m frames ∨ t'.Running frames)
  | [], t, h, _, _ => ⟨t, rfl, Or.inl h⟩
  | op :: ops, t, h, hbefore, hseparate => by
    obtain ⟨u, hu, -, hphase⟩ := h.step op
    rw [Session.run, hu]
    rcases hphase with hwaits | ⟨data, found, hcompletes⟩
    · exact run hwaits.opening (hwaits.clientRole ▸ hbefore) (hseparate.2 u hu)
    · have hwhole := hcompletes.separate.1 hseparate.1
      obtain ⟨hrunning, -⟩ := hcompletes.running h hwhole hbefore
      obtain ⟨t', ht', hrunning'⟩ := hrunning.run sha1 ops
      exact ⟨t', ht', Or.inr hrunning'⟩

theorem sum_sizes : ∀ frames : List Frame,
    ((frames.map fun f => Event.receive f.header f.payload).map Event.size).sum = (frames.flatMap Frame.format).length
  | [] => rfl
  | f :: frames => by
    rw [List.map_cons, List.map_cons, List.sum_cons, sum_sizes frames, List.flatMap_cons, List.length_append,
      Frame.length_format]
    rfl

/-- If all frames are handled, the answered chunk has been the end of the message: bytes that come
behind it are as many as the frames take. -/
theorem Completes.whole {t' t'' : Session} {op : Op} {ops : List Op} {data : Bytes} {found : Option Bytes}
    (h : Completes sha1 m t op data found t') (hopening : t.Opening sha1 m frames) (hrun : t'.run sha1 ops = some t'')
    (hbytes : t''.bytes = []) (hall : t''.HandledAll frames) :
    t.stream.buffer.live ++ data = m.format ∧ happened (handshakeEvents sha1 t.stream found) = [.handshake true] := by
  obtain ⟨fed, ⟨more, htrace, hsize⟩, hfed⟩ := Session.run_takes hrun
  obtain ⟨accepted, hevents⟩ := happened_handshakeEvents sha1 t.stream found
  have hfirst : happened t'.stream.trace = [.handshake accepted] := by
    rw [h.answered.trace, happened, List.filter_append, ← hevents]
    show happened t.stream.trace ++ _ = _
    rw [hopening.happened]
    rfl
  rw [hall.happened, hfirst, List.singleton_append, List.cons.injEq] at htrace
  obtain ⟨haccepted, hmore⟩ := htrace
  rw [← hmore] at hsize
  have hsum := hsize fun e he => by
    obtain ⟨f, hf, rfl⟩ := List.mem_map.1 he
    exact Frame.not_wraps (hopening.proper f hf)
  rw [sum_sizes, ← Buffer.length_live, hall.live, ← Buffer.length_live, h.answered.live, List.length_nil] at hsum
  have hlen : t'.bytes.length = (frames.flatMap Frame.format).length := by
    rw [hfed, hbytes, List.length_nil]
    omega
  have hbytes' := hopening.bytes
  rw [h.bytes, ← List.append_assoc] at hbytes'
  exact ⟨(List.append_inj' hbytes' hlen).1, by rw [hevents, ← haccepted]⟩

theorem Session.Opening.of_handledAll : ∀ {ops : List Op} {t t' : Session}, t.Opening sha1 m frames →
    t.run sha1 ops = some t' → t'.bytes = [] → t'.HandledAll frames →
      t.Along sha1 (Separate m) ops ∧ ∀ l ∈ m.before, ¬ l.NameStarts (handshakeHeader t.stream.clientRole)
  | [], t, t', h, hrun, _, hall => by
    cases hrun
    exact absurd hall.status h.status
  | op :: ops, t, t', h, hrun, hbytes, hall => by
    obtain ⟨u, hu, -, hphase⟩ := h.step op
    rw [Session.run, hu, Option.bind_some] at hrun
    have hnext : ∀ u', t.step sha1 op = some u' → u' = u := fun u' hu' => by
      rw [hu] at hu'
      exact (Option.some.inj hu').symm
    rcases hphase with hwaits | ⟨data, found, hcompletes⟩
    · obtain ⟨halong, hbefore⟩ := of_handledAll hwaits.opening hrun hbytes hall
      exact ⟨⟨hwaits.separate, fun u' hu' => hnext u' hu' ▸ halong⟩, hwaits.clientRole ▸ hbefore⟩
    · obtain ⟨hwhole, haccepted⟩ := hcompletes.whole h hrun hbytes hall
      have hbefore : ∀ l ∈ m.before, ¬ l.NameStarts (handshakeHeader t.stream.clientRole) := fun l hl hstarts => by
        have hfound := hcompletes.found_eq hwhole
        rw [h.addressed.hidden (handshakeHeader_noColon _) ⟨l, hl, hstarts⟩] at hfound
        obtain rfl := Option.some.inj hfound
        cases haccepted
      have hrunning := (hcompletes.running h hwhole hbefore).1
      exact ⟨⟨hcompletes.separate.2 hwhole, fun u' hu' => hnext u' hu' ▸ hrunning.along ops⟩, hbefore⟩

/-- Whatever the chunks and the calls that read them all: the stream becomes ready and handles exactly
the frames behind the handshake message, if and only if no chunk of the handshake holds more than the
end of the message, nor is read as the end of it before it is, and no header in front of the key has a
longer name that starts so. -/
theorem frames_handled_iff (sha1 : Sha1) {t : Session} {m : HandshakeMessage} {frames : List Frame}
    (h : t.Opening sha1 m frames) {ops : List Op} (hall : ∀ t', t.run sha1 ops = some t' → t'.bytes = []) :
    (∃ t', t.run sha1 ops = some t' ∧ t'.HandledAll frames) ↔
      t.Along sha1 (Separate m) ops ∧ ∀ l ∈ m.before, ¬ l.NameStarts (handshakeHeader t.stream.clientRole) := by
  constructor
  · rintro ⟨t', hrun, hhandled⟩
    exact h.of_handledAll hrun (hall t' hrun) hhandled
  · rintro ⟨hseparate, hbefore⟩
    obtain ⟨t', hrun, hphase⟩ := h.run hbefore hseparate
    have hbytes := hall t' hrun
    refine ⟨t', hrun, ?_⟩
    rcases hphase with hopening | hrunning
    · have hlen := congrArg List.length hopening.bytes
      have hbegun := hopening.begun
      rw [hbytes, List.append_nil, List.length_append] at hlen
      omega
    · exact hrunning.handledAll hbytes

end Runs

/-! ## A request and a frame -/

/-- A request with nothing but a key. -/
def keyRequest : HandshakeMessage where
  startLine := text "GET / HTTP/1.1"
  before := []
  key := ⟨text "Sec-WebSocket-Key", text " x", by decide, by decide, by decide⟩
  after := []
  word := text "x"
  onLine := by decide
  graph := by decide
  keyValue := ⟨[0x20], [], by decide, by decide, by decide⟩

/-- A PONG frame without a payload. -/
def pongFrame : Frame := ⟨true, wsOpcodePong, some (Vector.replicate 4 1), []⟩

/-- A fresh server with chunks to come. -/
def freshServer (supply : List Chunk) : Session := ⟨streamWsInit (Vector.replicate 4096 0), supply, [], []⟩

theorem freshServer_opening (sha1 : Sha1) (supply : List Chunk) (h : bytesOf supply = keyRequest.format ++ pongFrame.format) :
    (freshServer supply).Opening sha1 keyRequest [pongFrame] where
  status := fun hs => by cases hs
  cache := rfl
  happened := rfl
  bytes := by
    rw [List.flatMap_cons, List.flatMap_nil, List.append_nil]
    exact h
  begun := List.length_pos_of_ne_nil keyRequest.format_ne_nil
  addressed := ⟨rfl, fun l hl => by cases hl⟩
  accepted := fun hrole => by cases hrole
  proper := by
    rintro f hf
    obtain rfl := List.mem_singleton.1 hf
    exact ⟨by decide, by decide⟩
  unmasked := fun hrole => by cases hrole

def requestChunk : Chunk := ⟨keyRequest.format, by decide +kernel, by decide +kernel⟩
def pongChunk : Chunk := ⟨pongFrame.format, by decide +kernel, by decide +kernel⟩
def requestPongChunk : Chunk := ⟨keyRequest.format ++ pongFrame.format, by decide +kernel, by decide +kernel⟩

/-- Behind the request in the same chunk, the frame is lost. -/
theorem frame_lost : ¬ ∀ (sha1 : Sha1) (t : Session) (m : HandshakeMessage) (frames : List Frame) (ops : List Op),
    t.Opening sha1 m frames → (∀ t', t.run sha1 ops = some t' → t'.bytes = []) →
      ∃ t', t.run sha1 ops = some t' ∧ t'.HandledAll frames := by
  intro h
  have hopening := freshServer_opening (fun _ => Vector.replicate 20 0) [requestPongChunk] (List.append_nil _)
  obtain ⟨t', ht', hsupply, hphase⟩ := hopening.step (.peek (.at 0) 1 .again)
  have hrun : (freshServer [requestPongChunk]).run (fun _ => Vector.replicate 20 0) [.peek (.at 0) 1 .again] = some t' := by
    rw [Session.run, ht']
    rfl
  have hbytes : t'.bytes = [] := by
    rw [Session.bytes, hsupply]
    rfl
  obtain ⟨t'', ht'', hall⟩ := h _ _ _ _ _ hopening fun u hu => by
    rw [hrun] at hu
    cases hu
    exact hbytes
  rw [hrun] at ht''
  cases ht''
  rcases hphase with hwaits | ⟨data, found, hcompletes⟩
  · exact hwaits.opening.status hall.status
  · obtain ⟨hwhole, -⟩ := @Completes.whole _ _ _ _ _ _ _ [] _ _ hcompletes hopening rfl hbytes hall
    have hdata := hcompletes.bytes
    rw [hbytes, List.append_nil] at hdata
    have hlen := congrArg List.length hwhole
    rw [← hdata] at hlen
    revert hlen
    decide +kernel

/-- In a chunk of its own, the frame is handled. -/
theorem frame_handled : ∃ t', (freshServer [requestChunk, pongChunk]).run (fun _ => Vector.replicate 20 0)
    [.peek (.at 0) 1 .again, .doRead (.at 0) 1 .again 10] = some t' ∧ t'.HandledAll [pongFrame] := by
  have hopening := freshServer_opening (fun _ => Vector.replicate 20 0) [requestChunk, pongChunk]
    (by simp [bytesOf, requestChunk, pongChunk])
  obtain ⟨t₁, ht₁, hsupply, hphase⟩ := hopening.step (.peek (.at 0) 1 .again)
  have hsupply₁ : t₁.supply = [pongChunk] := hsupply
  have hbytes₁ : t₁.bytes = pongFrame.format := by rw [Session.bytes, hsupply₁]; exact List.append_nil _
  -- the first chunk completes the handshake, since the frame is what is left
  obtain ⟨data, found, hcompletes⟩ : ∃ data found, Completes (fun _ => Vector.replicate 20 0) keyRequest
      (freshServer [requestChunk, pongChunk]) (.peek (.at 0) 1 .again) data found t₁ := by
    refine hphase.resolve_left fun hleft => ?_
    have hbytes := hleft.opening.bytes
    rw [hbytes₁, List.flatMap_cons, List.flatMap_nil, List.append_nil] at hbytes
    have hbegun := hleft.opening.begun
    rw [List.append_cancel_right hbytes] at hbegun
    exact lt_irrefl _ hbegun
  have hdata : data = keyRequest.format := by
    have hall := hcompletes.bytes
    rw [hbytes₁] at hall
    have hall' : keyRequest.format ++ pongFrame.format = data ++ pongFrame.format := by
      rw [← hall]
      simp [Session.bytes, freshServer, bytesOf, requestChunk, pongChunk]
    exact (List.append_cancel_right hall').symm
  have hwhole : (freshServer [requestChunk, pongChunk]).stream.buffer.live ++ data = keyRequest.format := hdata
  obtain ⟨hrunning, hcache₁, -⟩ := hcompletes.running hopening hwhole fun l hl => by cases hl
  have hstatus₁ : t₁.stream.status = .ready := by
    obtain ⟨done, pending, -, hawaits, -⟩ := hrunning
    exact hawaits.status
  obtain ⟨s₂, hchunk, hd⟩ := receiveChunk_frames (fun _ => Vector.replicate 20 0) (.at 0) hstatus₁ hcompletes.answered.live
    hopening.proper (by rw [hcompletes.answered.clientRole]; exact fun hrole => by cases hrole)
  have hcache₂ : s₂.cache = [] := by
    rw [hd.cache, hcache₁]
    rfl
  have hread := @doRead_chunk (fun _ => Vector.replicate 20 0) 0 _ _ pongChunk (by rw [StreamWs.waiting, hcache₁]; rfl)
    hchunk 10
  have htake : t₁.supply.take 1 = [pongChunk] := by rw [hsupply₁]; rfl
  rw [← htake] at hread
  obtain ⟨t₂, ht₂, hbytes₂⟩ : ∃ t₂, t₁.step (fun _ => Vector.replicate 20 0) (.doRead (.at 0) 1 .again 10) = some t₂ ∧
      t₂.bytes = [] := by
    refine ⟨_, step_doRead hread, ?_⟩
    rw [Session.bytes, hsupply₁]
    rfl
  have hrun : (freshServer [requestChunk, pongChunk]).run (fun _ => Vector.replicate 20 0)
      [.peek (.at 0) 1 .again, .doRead (.at 0) 1 .again 10] = some t₂ := by
    rw [Session.run, ht₁, Option.bind_some, Session.run, ht₂]
    rfl
  refine (frames_handled_iff _ hopening fun u hu => ?_).2
    ⟨⟨hcompletes.separate.2 hwhole, fun u hu => ?_⟩, fun l hl => by cases hl⟩
  · rw [hrun] at hu
    cases hu
    exact hbytes₂
  · rw [ht₁] at hu
    cases hu
    exact hrunning.along _

end CMx.Ws
