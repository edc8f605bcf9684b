/-
A client and a server that open a connection: what `stream_ws_connect` writes is a request, the
server answers it with a response that has the accept key, and the client knows this key, whatever
the headers of the application in front of the key, as long as none of them is taken for it.
-/
import CMx.StreamWs.Opening

namespace CMx.Ws

open Mqtt (Bytes CString StreamStatus ReadEnd Errno)

/-! ## The messages -/

theorem onLine_of_graph {str : Bytes} (h : ∀ c ∈ str, isgraph c = true) : OnLine str := by
  intro c hc
  have hgraph := h c hc
  refine ⟨?_, ?_, ?_⟩ <;> rintro rfl <;> revert hgraph <;> decide

theorem onLine_append {str str' : Bytes} (h : OnLine str) (h' : OnLine str') : OnLine (str ++ str') := by
  intro c hc
  rcases List.mem_append.1 hc with hc | hc
  · exact h c hc
  · exact h' c hc

/-- A line "name: value". -/
def headerLine (name value : Bytes) (hname : name ≠ []) (hgraph : ∀ c ∈ name, isgraph c = true ∧ c ≠ 0x3A)
    (hvalue : OnLine value) : HeaderLine where
  name := name
  value := text " " ++ value
  nonempty := hname
  graph := hgraph
  onLine := onLine_append (by decide) hvalue

def upgradeLine : HeaderLine := headerLine (text "Upgrade") (text "websocket") (by decide) (by decide) (by decide)
def connectionLine : HeaderLine := headerLine (text "Connection") (text "Upgrade") (by decide) (by decide) (by decide)
def versionLine : HeaderLine := headerLine (text "Sec-WebSocket-Version") (text "13") (by decide) (by decide) (by decide)

section Messages

variable {uri key : Bytes} (huri : OnLine uri) (lines : List HeaderLine) (hkey : ∀ c ∈ key, isgraph c = true)

/-- The request of `stream_ws_connect`, with the headers of the application. -/
def requestMessage : HandshakeMessage where
  startLine := text "GET " ++ uri ++ text " HTTP/1.1"
  before := lines ++ [upgradeLine, connectionLine, versionLine]
  key := headerLine secWebSocketKey key (by decide) (by decide) (onLine_of_graph hkey)
  after := []
  word := key
  onLine := onLine_append (onLine_append (by decide) huri) (by decide)
  graph := hkey
  keyValue := ⟨text " ", [], by rw [List.append_nil]; rfl, by decide, by decide⟩

/-- The response of a server. -/
def responseMessage : HandshakeMessage where
  startLine := text "HTTP/1.1 101 Switching Protocols"
  before := [upgradeLine, connectionLine]
  key := headerLine secWebSocketAccept key (by decide) (by decide) (onLine_of_graph hkey)
  after := []
  word := key
  onLine := by decide
  graph := hkey
  keyValue := ⟨text " ", [], by rw [List.append_nil]; rfl, by decide, by decide⟩

/-- The fixed headers of a request, up to its key. -/
theorem requestLines :
    text "Upgrade: websocket\r\nConnection: Upgrade\r\nSec-WebSocket-Version: 13\r\nSec-WebSocket-Key: " =
      headerLines [upgradeLine, connectionLine, versionLine] ++ (secWebSocketKey ++ 0x3A :: text " ") := by decide +kernel

theorem format_requestMessage :
    (requestMessage huri lines hkey).format = handshakeRequest uri (headerLines lines) key := by
  have hversion : text " HTTP/1.1\r\n" = text " HTTP/1.1" ++ httpLineEnd := by decide
  have hend : text "\r\n\r\n" = httpLineEnd ++ httpLineEnd := by decide
  rw [handshakeRequest, hversion, requestLines, hend]
  simp [HandshakeMessage.format, requestMessage, headerLines, HeaderLine.line, headerLine]

theorem length_handshakeRequest (uri header key : Bytes) :
    (handshakeRequest uri header key).length = 106 + uri.length + header.length + key.length := by
  have hmiddle : (headerLines [upgradeLine, connectionLine, versionLine] ++ (secWebSocketKey ++ 0x3A :: text " ")).length =
      87 := by decide
  have hfront : (text "GET ").length = 4 ∧ (text " HTTP/1.1\r\n").length = 11 ∧ (text "\r\n\r\n").length = 4 := by decide
  rw [← requestLines] at hmiddle
  simp only [handshakeRequest, List.length_append]
  omega

theorem format_responseMessage : (responseMessage hkey).format = handshakeResponse key := by
  have hlines :
      text "HTTP/1.1 101 Switching Protocols\r\nUpgrade: websocket\r\nConnection: Upgrade\r\nSec-WebSocket-Accept: " =
      text "HTTP/1.1 101 Switching Protocols" ++ (httpLineEnd ++ (headerLines [upgradeLine, connectionLine] ++
        (secWebSocketAccept ++ 0x3A :: text " "))) := by decide +kernel
  have hend : text "\r\n\r\n" = httpLineEnd ++ httpLineEnd := by decide
  rw [handshakeResponse, hlines, hend]
  simp [HandshakeMessage.format, responseMessage, headerLines, HeaderLine.line, headerLine]

/-- No header of the application is taken for the key. -/
theorem requestMessage_before (h : ∀ l ∈ lines, ¬ l.NameStarts secWebSocketKey) :
    ∀ l ∈ (requestMessage huri lines hkey).before, ¬ l.NameStarts secWebSocketKey := by
  have hfixed : ∀ l ∈ [upgradeLine, connectionLine, versionLine], ¬ l.NameStarts secWebSocketKey := by decide
  exact List.forall_mem_append.2 ⟨h, hfixed⟩

theorem responseMessage_before : ∀ l ∈ (responseMessage hkey).before, ¬ l.NameStarts secWebSocketAccept := by
  show ∀ l ∈ [upgradeLine, connectionLine], ¬ l.NameStarts secWebSocketAccept
  decide

theorem not_named_of_not_nameStarts {l : HeaderLine} {name : Bytes} (h : ¬ l.NameStarts name) :
    ¬ l.Named name := fun hnamed => by
  refine h ?_
  rw [HeaderLine.NameStarts, show l.name.map tolower = name.map tolower from hnamed]

end Messages

/-! ## Two streams -/

/-- A client and a server, each with the chunks on their way to it. -/
structure Pair where
  client : Session
  server : Session

/-- A peek of one of them, while `available` chunks have arrived and then the reads end as `last` says. -/
structure Call where
  clientSide : Bool
  env : Env
  available : Nat
  last : ReadEnd

/-- The bytes that are written between two states of a stream. -/
def sent (s s' : StreamWs) : Bytes := ((s'.trace.drop s.trace.length).filterMap Event.written).flatten

/-- A fresh client and a fresh server after `stream_ws_connect`; the transport cuts into chunks what is
written. -/
def streamWsConnected (cut : Bytes → List Chunk) (env : Env) (client server : StreamWs)
    (uri key header : Option CString) : Pair where
  client := ⟨streamWsConnect env client uri key header, [], [], []⟩
  server := ⟨server, cut (sent client (streamWsConnect env client uri key header)), [], []⟩

namespace Pair

/-- The stream of a call, with the chunks on their way to it. -/
def side (p : Pair) (call : Call) : Session := if call.clientSide then p.client else p.server

variable (sha1 : Sha1) (cut : Bytes → List Chunk)

/-- `none` where the call crashes or does not come back. -/
def step (p : Pair) (call : Call) : Option Pair :=
  ((p.side call).step sha1 (.peek call.env call.available call.last)).map fun t =>
    let chunks := cut (sent (p.side call).stream t.stream)
    if call.clientSide then ⟨t, { p.server with supply := p.server.supply ++ chunks }⟩
    else ⟨{ p.client with supply := p.client.supply ++ chunks }, t⟩

def run : Pair → List Call → Option Pair
  | p, [] => some p
  | p, call :: calls => (p.step sha1 cut call).bind fun p => run p calls

/-- While the stream of the call is not ready, there is a NUL behind the bytes in its buffer. -/
def Terminates (p : Pair) (call : Call) : Prop :=
  (p.side call).stream.status ≠ .ready → ∀ chunk, ((p.side call).supply.take call.available).head? = some chunk →
    Terminated ((p.side call).stream.append chunk.data).buffer call.env

def TerminatesAlong : Pair → List Call → Prop
  | _, [] => True
  | p, call :: calls => p.Terminates call ∧ ∀ p', p.step sha1 cut call = some p' → TerminatesAlong p' calls

/-- Whether a call finds a chunk. -/
def finds (p : Pair) (call : Call) : Nat := min (min call.available 1) (p.side call).supply.length

/-- How many of the calls find a chunk. -/
def found : Pair → List Call → Nat
  | _, [] => 0
  | p, call :: calls => p.finds call + (p.step sha1 cut call).elim 0 fun p => found p calls

end Pair

section Step

variable {sha1 : Sha1} {cut : Bytes → List Chunk} {p : Pair} {call : Call} {t : Session}

theorem Pair.step_server (hside : call.clientSide = false)
    (h : p.server.step sha1 (.peek call.env call.available call.last) = some t) :
    p.step sha1 cut call = some ⟨{ p.client with supply := p.client.supply ++ cut (sent p.server.stream t.stream) }, t⟩ := by
  have hp : p.side call = p.server := by rw [side, hside]; rfl
  rw [step, hp, h, hside]
  rfl

theorem Pair.step_client (hside : call.clientSide = true)
    (h : p.client.step sha1 (.peek call.env call.available call.last) = some t) :
    p.step sha1 cut call = some ⟨t, { p.server with supply := p.server.supply ++ cut (sent p.client.stream t.stream) }⟩ := by
  have hp : p.side call = p.client := by rw [side, hside]; rfl
  rw [step, hp, h, hside]
  rfl

end Step

/-! ## One call -/

/-- Nothing is on its way to the stream, and nothing waits in it. -/
structure Session.Idle (t : Session) : Prop where
  supply : t.supply = []
  cache : t.stream.cache = []

theorem Session.Idle.step (sha1 : Sha1) {t : Session} (h : t.Idle) (env : Env) (available : Nat) (last : ReadEnd) :
    t.step sha1 (.peek env available last) = some t := by
  obtain ⟨result, hpeek⟩ := peekFrame_nil sha1 env h.cache last
  rw [Session.step, h.supply, List.take_nil, hpeek, Option.map_some, List.drop_nil]
  show some { t with supply := [] } = some t
  rw [← h.supply]

theorem bytesOf_eq_nil : ∀ {reads : List Chunk}, bytesOf reads = [] ↔ reads = []
  | [] => by simp [bytesOf]
  | chunk :: reads => by
    have hnonempty := chunk.nonempty
    simp [bytesOf, hnonempty]

theorem sent_eq {s s' : StreamWs} {events : List Event} (h : s'.trace = s.trace ++ events) :
    sent s s' = (events.filterMap Event.written).flatten := by
  rw [sent, h, List.drop_left' rfl]

/-- A chunk whose string ends with it is read for what it is. -/
theorem Session.Opening.separate {sha1 : Sha1} {t : Session} {m : HandshakeMessage} (h : t.Opening sha1 m []) {env : Env}
    {available : Nat} (last : ReadEnd) (hterminated : t.stream.status ≠ .ready →
      ∀ chunk, (t.supply.take available).head? = some chunk → Terminated (t.stream.append chunk.data).buffer env) :
    Separate m t (.peek env available last) := by
  intro hs chunk hchunk
  refine or_iff_not_imp_left.2 fun hpart => ?_
  obtain ⟨rest, hrest⟩ : ∃ rest, t.bytes = chunk.data ++ rest := by
    obtain ⟨reads, hreads⟩ : ∃ reads, t.supply.take available = chunk :: reads := ⟨_, List.eq_cons_of_mem_head? hchunk⟩
    refine ⟨bytesOf reads ++ bytesOf (t.supply.drop available), ?_⟩
    rw [t.bytes_split available, hreads]
    simp [bytesOf]
  have hbegin : t.stream.buffer.live ++ chunk.data <+: m.format := by
    have hall := h.bytes
    rw [hrest, List.flatMap_nil, List.append_nil, ← List.append_assoc] at hall
    exact ⟨rest, hall⟩
  have hlen : (t.stream.buffer.live ++ chunk.data).length < m.format.length := by
    refine lt_of_le_of_ne hbegin.length_le fun heq => hpart (hbegin.eq_of_length heq)
  have hstring := string_of_terminated (hterminated hs chunk hchunk) (by
    rw [live_append]
    exact fun hm => m.format_noNul (hbegin.subset hm))
  rw [hstring, live_append]
  exact m.incomplete hbegin hlen

/-- A message with nothing behind it, in strings that end with it: a peek takes a chunk of it, or
answers it. -/
theorem Session.Opening.peek {sha1 : Sha1} {t : Session} {m : HandshakeMessage} (h : t.Opening sha1 m [])
    (hbefore : ∀ l ∈ m.before, ¬ l.NameStarts (handshakeHeader t.stream.clientRole)) {env : Env} {available : Nat}
    (last : ReadEnd) (hterminated : t.stream.status ≠ .ready → ∀ chunk, (t.supply.take available).head? = some chunk →
      Terminated (t.stream.append chunk.data).buffer env) :
    ∃ t', t.step sha1 (.peek env available last) = some t' ∧ t'.supply = t.supply.drop (min available 1) ∧
      (t'.Opening sha1 m [] ∧ t'.stream.clientRole = t.stream.clientRole ∧ t'.stream.trace = t.stream.trace ∨
        t'.Idle ∧ t'.stream.status = .ready ∧
          t'.stream.trace = t.stream.trace ++ handshakeEvents sha1 t.stream (some m.word)) := by
  obtain ⟨t', ht', hsupply, hphase⟩ := h.step (.peek env available last)
  refine ⟨t', ht', hsupply, ?_⟩
  rcases hphase with hwaits | ⟨data, found, hcompletes⟩
  · exact Or.inl ⟨hwaits.opening, hwaits.clientRole, hwaits.trace⟩
  · have hwhole := hcompletes.separate.1 (h.separate last hterminated)
    obtain ⟨⟨done, pending, -, hawaits, -⟩, hcache, htrace⟩ := hcompletes.running h hwhole hbefore
    exact Or.inr ⟨⟨bytesOf_eq_nil.1 (hcompletes.bytes_eq h hwhole), hcache⟩, hawaits.status, htrace⟩

/-- An opening stream has something to wait for. -/
theorem Session.Opening.supply_ne_nil {sha1 : Sha1} {t : Session} {m : HandshakeMessage} (h : t.Opening sha1 m []) :
    t.supply ≠ [] := fun hnil => by
  have hlen := congrArg List.length h.bytes
  have hbegun := h.begun
  rw [Session.bytes, hnil, bytesOf_eq_nil.2 rfl, List.append_nil, List.flatMap_nil, List.append_nil] at hlen
  omega

/-! ## The handshake -/

/-- The client has sent a request with the key. -/
structure StreamWs.Connected (s : StreamWs) (key : CString) : Prop where
  clientRole : s.clientRole = true
  key : s.key = some key
  status : s.status ≠ .ready
  happened : happened s.trace = []
  live : s.buffer.live = []

/-- How far the handshake of a client and a server has come: the server waits for the request, or the
client waits for the response, or both are ready. -/
inductive Pair.Opens (sha1 : Sha1) (request : HandshakeMessage) (key : CString) : Pair → Prop where
  | requested {p : Pair} : p.server.Opening sha1 request [] → p.server.stream.clientRole = false →
      p.client.stream.Connected key → p.client.Idle → Opens sha1 request key p
  | answered {p : Pair} : p.server.Idle → p.server.stream.status = .ready →
      p.client.Opening sha1 (responseMessage (@acceptKey_graph sha1 key.bytes)) [] →
      p.client.stream.clientRole = true → Opens sha1 request key p
  | ready {p : Pair} : p.server.Idle → p.server.stream.status = .ready → p.client.Idle → p.client.stream.status = .ready →
      Opens sha1 request key p

/-- The chunks that are still to be found: those on their way, and those of the response. -/
def Pair.left (cut : Bytes → List Chunk) (response : Bytes) (p : Pair) : Nat :=
  p.server.supply.length + p.client.supply.length + if p.server.stream.status = .ready then 0 else (cut response).length

/-- A call goes on with the handshake, by as many chunks as it finds. -/
def Pair.GoesOn (sha1 : Sha1) (cut : Bytes → List Chunk) (request : HandshakeMessage) (key : CString) (p : Pair)
    (call : Call) : Prop :=
  ∃ p', p.step sha1 cut call = some p' ∧ p'.Opens sha1 request key ∧
    p.finds call + p'.left cut (handshakeResponse (acceptKey sha1 key.bytes)) =
      p.left cut (handshakeResponse (acceptKey sha1 key.bytes))

section Handshake

variable {sha1 : Sha1} {cut : Bytes → List Chunk} (hcut : ∀ bytes, bytesOf (cut bytes) = bytes)
  {request : HandshakeMessage} {key : CString} {p : Pair}
include hcut

theorem cut_nil : cut [] = [] := bytesOf_eq_nil.1 (hcut [])

/-- A call of an idle stream does nothing. -/
theorem Pair.step_idle {call : Call} (h : (p.side call).Idle) : p.step sha1 cut call = some p ∧ p.finds call = 0 := by
  have hsent : cut (sent (p.side call).stream (p.side call).stream) = [] := by
    rw [sent_eq (List.append_nil _).symm, List.filterMap_nil, List.flatten_nil, cut_nil hcut]
  refine ⟨?_, by rw [Pair.finds, h.supply]; exact Nat.min_zero _⟩
  rw [Pair.step, h.step, Option.map_some, hsent]
  simp only [List.append_nil]
  cases hside : call.clientSide <;> simp [Pair.side, hside]

theorem Pair.goesOn_idle {call : Call} (h : p.Opens sha1 request key) (hidle : (p.side call).Idle) :
    p.GoesOn sha1 cut request key call := by
  obtain ⟨hstep, hfinds⟩ := @Pair.step_idle sha1 cut hcut p call hidle
  exact ⟨p, hstep, h, by rw [hfinds, Nat.zero_add]⟩

/-- The server takes a chunk of the request, or answers it. -/
theorem Pair.goesOn_server {call : Call} (hside : call.clientSide = false) (hrequest : request.word = key.bytes)
    (hbefore : ∀ l ∈ request.before, ¬ l.NameStarts secWebSocketKey) (hterminates : p.Terminates call)
    (hserver : p.server.Opening sha1 request []) (hrole : p.server.stream.clientRole = false)
    (hclient : p.client.stream.Connected key) (hidle : p.client.Idle) : p.GoesOn sha1 cut request key call := by
  have hp : p.side call = p.server := by rw [Pair.side, hside]; rfl
  rw [Pair.Terminates, hp] at hterminates
  obtain ⟨t', ht', hsupply, hphase⟩ := hserver.peek (by rw [hrole]; exact hbefore) call.last hterminates
  have hlen := congrArg List.length hsupply
  rw [List.length_drop] at hlen
  refine ⟨_, Pair.step_server hside ht', ?_⟩
  rw [Pair.finds, hp, Pair.left, Pair.left, hidle.supply, if_neg hserver.status, List.length_nil, List.nil_append]
  rcases hphase with ⟨hopening, hrole', htrace⟩ | ⟨hidle', hready, htrace⟩
  · -- the request is not complete yet
    have hsent : sent p.server.stream t'.stream = [] := by
      rw [@sent_eq _ _ [] (by rw [htrace, List.append_nil])]
      rfl
    rw [hsent, cut_nil hcut, if_neg hopening.status, hlen, List.length_nil]
    exact ⟨.requested hopening (hrole'.trans hrole) hclient ⟨rfl, hidle.cache⟩, by omega⟩
  · -- the response is on its way
    have hsent : sent p.server.stream t'.stream = handshakeResponse (acceptKey sha1 key.bytes) := by
      rw [sent_eq htrace, hrequest]
      simp [handshakeEvents, hrole, Event.written]
    rw [hidle'.supply, List.length_nil] at hlen
    rw [hsent, if_pos hready, hidle'.supply, List.length_nil]
    refine ⟨.answered hidle' hready ⟨hclient.status, hidle.cache, hclient.happened, ?_, ?_, ?_,
      fun _ => ⟨key, hclient.key, rfl⟩, fun f hf => (by cases hf), fun _ f hf => (by cases hf)⟩ hclient.clientRole, ?_⟩
    · rw [List.flatMap_nil, List.append_nil, format_responseMessage, hclient.live, List.nil_append]
      exact hcut _
    · rw [hclient.live]
      exact List.length_pos_of_ne_nil (HandshakeMessage.format_ne_nil _)
    · rw [hclient.clientRole]
      exact ⟨rfl, fun l hl => not_named_of_not_nameStarts (responseMessage_before _ l hl)⟩
    · show _ + (0 + (cut (handshakeResponse (acceptKey sha1 key.bytes))).length + 0) = _
      omega

/-- The client takes a chunk of the response, or finds its key confirmed. -/
theorem Pair.goesOn_client {call : Call} (hside : call.clientSide = true) (hterminates : p.Terminates call)
    (hserver : p.server.Idle) (hready : p.server.stream.status = .ready)
    (hclient : p.client.Opening sha1 (responseMessage (@acceptKey_graph sha1 key.bytes)) [])
    (hrole : p.client.stream.clientRole = true) : p.GoesOn sha1 cut request key call := by
  have hp : p.side call = p.client := by rw [Pair.side, hside]; rfl
  rw [Pair.Terminates, hp] at hterminates
  obtain ⟨t', ht', hsupply, hphase⟩ := hclient.peek (by rw [hrole]; exact responseMessage_before _) call.last hterminates
  have hlen := congrArg List.length hsupply
  rw [List.length_drop] at hlen
  have hsent : sent p.client.stream t'.stream = [] := by
    rcases hphase with ⟨-, -, htrace⟩ | ⟨-, -, htrace⟩
    · rw [@sent_eq _ _ [] (by rw [htrace, List.append_nil])]
      rfl
    · rw [sent_eq htrace]
      simp [handshakeEvents, hrole, Event.written]
  have hstep : p.step sha1 cut call = some ⟨t', p.server⟩ := by
    rw [Pair.step_client hside ht', hsent, cut_nil hcut, List.append_nil]
  refine ⟨_, hstep, ?_⟩
  rw [Pair.finds, hp, Pair.left, Pair.left]
  simp only [if_pos hready, hlen]
  rcases hphase with ⟨hopening, hrole', -⟩ | ⟨hidle', hready', -⟩
  · exact ⟨.answered hserver hready hopening (hrole'.trans hrole), by omega⟩
  · exact ⟨.ready hserver hready hidle' hready', by omega⟩

theorem Pair.Opens.step (hrequest : request.word = key.bytes)
    (hbefore : ∀ l ∈ request.before, ¬ l.NameStarts secWebSocketKey) (h : p.Opens sha1 request key) (call : Call)
    (hterminates : p.Terminates call) : p.GoesOn sha1 cut request key call := by
  cases hside : call.clientSide with
  | false =>
    have hp : p.side call = p.server := by rw [Pair.side, hside]; rfl
    cases h with
    | requested hserver hrole hclient hidle =>
      exact goesOn_server hcut hside hrequest hbefore hterminates hserver hrole hclient hidle
    | answered hserver hready hclient hrole => exact goesOn_idle hcut (.answered hserver hready hclient hrole) (hp ▸ hserver)
    | ready hserver hready hclient hready' => exact goesOn_idle hcut (.ready hserver hready hclient hready') (hp ▸ hserver)
  | true =>
    have hp : p.side call = p.client := by rw [Pair.side, hside]; rfl
    cases h with
    | requested hserver hrole hclient hidle => exact goesOn_idle hcut (.requested hserver hrole hclient hidle) (hp ▸ hidle)
    | answered hserver hready hclient hrole => exact goesOn_client hcut hside hterminates hserver hready hclient hrole
    | ready hserver hready hclient hready' => exact goesOn_idle hcut (.ready hserver hready hclient hready') (hp ▸ hclient)

theorem Pair.Opens.run (hrequest : request.word = key.bytes)
    (hbefore : ∀ l ∈ request.before, ¬ l.NameStarts secWebSocketKey) :
    ∀ {calls : List Call} {p : Pair}, p.Opens sha1 request key → p.TerminatesAlong sha1 cut calls →
      ∃ p', p.run sha1 cut calls = some p' ∧ p'.Opens sha1 request key ∧
        p.found sha1 cut calls + p'.left cut (handshakeResponse (acceptKey sha1 key.bytes)) =
          p.left cut (handshakeResponse (acceptKey sha1 key.bytes))
  | [], p, h, _ => ⟨p, rfl, h, Nat.zero_add _⟩
  | call :: calls, p, h, hterminates => by
    obtain ⟨p', hp', hopens, hleft⟩ := h.step hcut hrequest hbefore call hterminates.1
    obtain ⟨p'', hp'', hopens', hleft'⟩ := run hrequest hbefore hopens (hterminates.2 p' hp')
    refine ⟨p'', by rw [Pair.run, hp']; exact hp'', hopens', ?_⟩
    rw [Pair.found, hp', Option.elim_some]
    omega

end Handshake

/-! ## Connecting -/

/-- A stream that has neither seen a handshake message nor received any bytes. -/
structure StreamWs.Unopened (s : StreamWs) : Prop where
  status : s.status ≠ .ready
  cache : s.cache = []
  happened : happened s.trace = []
  live : s.buffer.live = []

section Connect

variable (sha1 : Sha1) {cut : Bytes → List Chunk} (hcut : ∀ bytes, bytesOf (cut bytes) = bytes) (env : Env)
  {client server : StreamWs} (hclient : client.Unopened) (hserver : server.Unopened) (hrole : server.clientRole = false)
  {uri key header : Option CString} {lines : List HeaderLine}

/-- The request that `stream_ws_connect` formats. -/
def connectRequest (env : Env) (uri key header : Option CString) : Bytes :=
  handshakeRequest (uri.elim (text "/") (·.bytes)) (header.elim [] (·.bytes)) (key.getD (randomKey env)).bytes

theorem sent_connect (h : (connectRequest env uri key header).length < wsMessageBufferSize) :
    sent client (streamWsConnect env client uri key header) = connectRequest env uri key header := by
  have htrace : (streamWsConnect env client uri key header).trace =
      client.trace ++ [.write (snprintf wsMessageBufferSize (connectRequest env uri key header))] := rfl
  rw [sent_eq htrace, snprintf_eq h]
  exact List.append_nil _

/-- What is on its way to the server. -/
theorem supply_connected (h : (connectRequest env uri key header).length < wsMessageBufferSize) :
    (streamWsConnected cut env client server uri key header).server.supply = cut (connectRequest env uri key header) :=
  congrArg cut (sent_connect env h)

include hcut hserver hrole

/-- The server has a request to come, however it is cut. -/
theorem server_opening {m : HandshakeMessage} (hformat : m.format = connectRequest env uri key header)
    (hfor : m.For secWebSocketKey) (hfits : (connectRequest env uri key header).length < wsMessageBufferSize) :
    (streamWsConnected cut env client server uri key header).server.Opening sha1 m [] where
  status := hserver.status
  cache := hserver.cache
  happened := hserver.happened
  bytes := by
    show server.buffer.live ++ bytesOf (cut (sent client _)) = _
    rw [hserver.live, sent_connect env hfits, hcut, hformat]
    exact (List.append_nil _).symm
  begun := by
    show server.buffer.live.length < _
    rw [hserver.live]
    exact List.length_pos_of_ne_nil m.format_ne_nil
  addressed := by
    show m.For (handshakeHeader server.clientRole)
    rw [hrole]
    exact hfor
  accepted := by
    show server.clientRole = true → _
    rw [hrole]
    exact fun hc => by cases hc
  proper := fun f hf => by cases hf
  unmasked := fun _ f hf => by cases hf

include hclient

/-- After `stream_ws_connect`, with headers of the application none of which has a name that starts as
the key's, in whatever way the transport cuts the request and the response and the streams are asked:
both are ready, or one of them finds another chunk; and no more chunks are found than there are. -/
theorem connect_bothReady (huri : ∀ u, uri = some u → OnLine u.bytes)
    (hkey : ∀ k, key = some k → ∀ c ∈ k.bytes, isgraph c = true) (hheader : header.elim [] (·.bytes) = headerLines lines)
    (hlines : ∀ l ∈ lines, ¬ l.NameStarts secWebSocketKey)
    (hfits : (connectRequest env uri key header).length < wsMessageBufferSize) {calls : List Call}
    (hterminates : (streamWsConnected cut env client server uri key header).TerminatesAlong sha1 cut calls) :
    ∃ p, (streamWsConnected cut env client server uri key header).run sha1 cut calls = some p ∧
      (p.server.stream.status = .ready ∧ p.client.stream.status = .ready ∨ p.server.supply ≠ [] ∨ p.client.supply ≠ []) ∧
      (streamWsConnected cut env client server uri key header).found sha1 cut calls + p.server.supply.length +
          p.client.supply.length ≤
        (cut (connectRequest env uri key header)).length +
          (cut (handshakeResponse (acceptKey sha1 (key.getD (randomKey env)).bytes))).length := by
  have huri' : OnLine (uri.elim (text "/") (·.bytes)) := by
    cases uri with
    | none => decide
    | some u => exact huri u rfl
  have hkey' : ∀ c ∈ (key.getD (randomKey env)).bytes, isgraph c = true := by
    cases key with
    | none => exact base64EncodeLoop_graph _
    | some k => exact hkey k rfl
  have hformat : (requestMessage huri' lines hkey').format = connectRequest env uri key header := by
    rw [format_requestMessage, connectRequest, hheader]
  have hsupply : cut (sent client (streamWsConnect env client uri key header)) = cut (connectRequest env uri key header) := by
    rw [sent_connect env hfits]
  have hopens : (streamWsConnected cut env client server uri key header).Opens sha1 (requestMessage huri' lines hkey')
      (key.getD (randomKey env)) := by
    refine .requested (server_opening sha1 hcut env hserver hrole hformat ⟨rfl, fun l hl => ?_⟩ hfits) hrole
      ⟨rfl, rfl, hclient.status, ?_, hclient.live⟩ ⟨rfl, hclient.cache⟩
    · exact not_named_of_not_nameStarts (requestMessage_before huri' lines hkey' hlines l hl)
    · show happened (client.trace ++ _) = []
      rw [happened, List.filter_append]
      show happened client.trace ++ [] = []
      rw [hclient.happened, List.append_nil]
  obtain ⟨p, hrun, hopens', hleft⟩ := hopens.run hcut rfl (requestMessage_before huri' lines hkey' hlines) hterminates
  -- a side that is not ready has something left to find
  refine ⟨p, hrun, ?_, ?_⟩
  · cases hopens' with
    | requested hserver' _ _ _ => exact Or.inr (Or.inl hserver'.supply_ne_nil)
    | answered _ _ hclient' _ => exact Or.inr (Or.inr hclient'.supply_ne_nil)
    | ready _ hready _ hready' => exact Or.inl ⟨hready, hready'⟩
  · have hstart : (streamWsConnected cut env client server uri key header).left cut
        (handshakeResponse (acceptKey sha1 (key.getD (randomKey env)).bytes)) =
        (cut (connectRequest env uri key header)).length +
          (cut (handshakeResponse (acceptKey sha1 (key.getD (randomKey env)).bytes))).length := by
      show (cut (sent client _)).length + 0 + (if server.status = .ready then 0 else _) = _
      rw [hsupply, if_neg hserver.status, Nat.add_zero]
    rw [hstart, Pair.left] at hleft
    omega

end Connect

/-! ## Two fresh streams -/

def byteChunk (c : UInt8) : Chunk := ⟨[c], List.cons_ne_nil _ _, Nat.le_of_ble_eq_true rfl⟩

/-- A transport that keeps together what one read can take. -/
def keepTogether (bytes : Bytes) : List Chunk :=
  if h : bytes ≠ [] ∧ bytes.length ≤ wsMessageBufferSize then [⟨bytes, h.1, h.2⟩] else bytes.map byteChunk

theorem bytesOf_byteChunks : ∀ bytes : Bytes, bytesOf (bytes.map byteChunk) = bytes
  | [] => rfl
  | c :: bytes => congrArg (c :: ·) (bytesOf_byteChunks bytes)

theorem bytesOf_keepTogether (bytes : Bytes) : bytesOf (keepTogether bytes) = bytes := by
  unfold keepTogether
  split
  · exact List.append_nil _
  · exact bytesOf_byteChunks bytes

theorem keepTogether_one {bytes : Bytes} (h : bytes ≠ [] ∧ bytes.length ≤ wsMessageBufferSize) :
    ∃ chunk : Chunk, keepTogether bytes = [chunk] ∧ chunk.data = bytes := ⟨⟨bytes, h.1, h.2⟩, dif_pos h, rfl⟩

/-- Cleared memory goes on behind a chunk. -/
theorem terminated_cleared {s : StreamWs} {size : Nat} (h : s.buffer = bufferInit (List.replicate size 0)) {data : Bytes}
    (hlen : data.length < size) (env : Env) : Terminated (s.append data).buffer env := by
  obtain ⟨k, hk⟩ : ∃ k, size - data.length = k + 1 := ⟨size - data.length - 1, by omega⟩
  have halloc : (s.append data).buffer.alloc = data ++ List.replicate (k + 1) 0 := by
    show (bufferAppend s.buffer data).alloc = _
    rw [alloc_bufferAppend, h]
    simp [bufferInit, Buffer.live, hk]
  have hdata : (s.append data).buffer.data + (s.append data).buffer.length = data.length := by
    show 0 + (s.buffer.length + data.length) = _
    rw [h]
    simp [bufferInit]
  rw [Terminated, halloc, hdata, List.drop_left' rfl]
  rfl

/-- A hash that keeps the first bytes. -/
def firstBytes : Sha1 := fun bytes => Vector.ofFn fun i => bytes.getD i 0

def freshStream : StreamWs := streamWsInit (Vector.replicate 4096 0)

theorem freshStream_unopened : freshStream.Unopened := ⟨fun hs => (by cases hs), rfl, rfl, rfl⟩

theorem freshStream_role : freshStream.clientRole = false := rfl

theorem freshStream_buffer : freshStream.buffer = bufferInit (List.replicate 4096 0) :=
  congrArg bufferInit Vector.toList_replicate

def xKey : CString := ⟨text "x", by decide⟩

def serverCall : Call := ⟨false, .at 0, 1, .again⟩
def clientCall : Call := ⟨true, .at 0, 1, .again⟩

/-- The pair after `stream_ws_connect` with a header of the application, or none. -/
def freshPair (header : Option CString) : Pair :=
  streamWsConnected keepTogether (.at 0) freshStream freshStream none (some xKey) header

theorem length_freshRequest (header : Option CString) :
    (connectRequest (.at 0) none (some xKey) header).length = 108 + (header.elim [] (·.bytes)).length := by
  have hfixed : (text "/").length = 1 ∧ xKey.bytes.length = 1 := by decide
  rw [connectRequest, length_handshakeRequest, Option.getD_some, Option.elim_none]
  omega

/-- A request that one read takes comes in one chunk. -/
theorem freshPair_supply {header : Option CString}
    (h : (connectRequest (.at 0) none (some xKey) header).length < wsMessageBufferSize) :
    ∃ chunk : Chunk, keepTogether (connectRequest (.at 0) none (some xKey) header) = [chunk] ∧
      chunk.data = connectRequest (.at 0) none (some xKey) header ∧ (freshPair header).server.supply = [chunk] := by
  have hnonempty : connectRequest (.at 0) none (some xKey) header ≠ [] := fun hnil => by
    have hlen := length_freshRequest header
    rw [hnil, List.length_nil] at hlen
    omega
  obtain ⟨chunk, hkeep, hdata⟩ := keepTogether_one ⟨hnonempty, h.le⟩
  exact ⟨chunk, hkeep, hdata, by rw [freshPair, supply_connected _ h, hkeep]⟩

theorem freshPair_terminates {header : Option CString}
    (h : (connectRequest (.at 0) none (some xKey) header).length < wsMessageBufferSize) :
    (freshPair header).Terminates serverCall := by
  rintro - chunk hchunk
  obtain ⟨chunk', -, hdata, hsupply⟩ := freshPair_supply h
  have hhead : ((freshPair header).server.supply.take 1).head? = some chunk := hchunk
  rw [hsupply] at hhead
  cases hhead
  exact terminated_cleared freshStream_buffer (by rw [hdata]; exact h) _

/-- The server answers the key that it reads. -/
theorem freshPair_answered {header : Option CString} {m : HandshakeMessage}
    (hopening : (freshPair header).server.Opening firstBytes m []) (hbefore : ∀ l ∈ m.before, ¬ l.NameStarts secWebSocketKey)
    (hfits : (connectRequest (.at 0) none (some xKey) header).length < wsMessageBufferSize) :
    ∃ c t, (freshPair header).step firstBytes keepTogether serverCall = some ⟨c, t⟩ ∧ t.Idle ∧
      c.stream = (freshPair header).client.stream ∧
      c.supply = keepTogether (handshakeResponse (acceptKey firstBytes m.word)) := by
  obtain ⟨chunk, -, -, hsupply⟩ := freshPair_supply hfits
  obtain ⟨t, ht, hleft, hphase⟩ :=
    @Session.Opening.peek _ _ _ hopening hbefore (.at 0) 1 .again (freshPair_terminates hfits)
  rw [hsupply] at hleft
  have hidle := hphase.resolve_left fun hwaits => hwaits.1.supply_ne_nil hleft
  have hsent : sent (freshPair header).server.stream t.stream = handshakeResponse (acceptKey firstBytes m.word) := by
    rw [sent_eq hidle.2.2]
    exact List.append_nil _
  have hnone : (freshPair header).client.supply = [] := rfl
  refine ⟨_, t, Pair.step_server rfl ht, hidle.1, rfl, ?_⟩
  rw [hsent, hnone, List.nil_append]

/-- So does a response. -/
theorem keepTogether_response (key : Bytes) : ∃ chunk : Chunk,
    keepTogether (handshakeResponse (acceptKey firstBytes key)) = [chunk] ∧
      chunk.data = handshakeResponse (acceptKey firstBytes key) ∧ chunk.data.length < 4096 := by
  have hlen : (handshakeResponse (acceptKey firstBytes key)).length = 129 := by
    rw [length_handshakeResponse, length_acceptKey]
  obtain ⟨chunk, hkeep, hdata⟩ := @keepTogether_one (handshakeResponse (acceptKey firstBytes key))
    ⟨List.ne_nil_of_length_pos (by omega), by rw [hlen]; decide⟩
  exact ⟨chunk, hkeep, hdata, by rw [hdata, hlen]; decide⟩

theorem freshPair_client {header : Option CString} {c : Session} (hc : c.stream = (freshPair header).client.stream)
    {key : Bytes} (hsupply : c.supply = keepTogether (handshakeResponse (acceptKey firstBytes key))) :
    ∀ chunk, (c.supply.take 1).head? = some chunk → Terminated (c.stream.append chunk.data).buffer (.at 0) := by
  intro chunk hchunk
  obtain ⟨chunk', hkeep, -, hlen⟩ := keepTogether_response key
  rw [hsupply, hkeep] at hchunk
  cases hchunk
  exact terminated_cleared (by rw [hc]; exact freshStream_buffer) hlen _

def protocolLine : HeaderLine := headerLine (text "Sec-WebSocket-Protocol") (text "mqtt") (by decide) (by decide) (by decide)

def protocolHeader : CString := ⟨text "Sec-WebSocket-Protocol: mqtt\r\n", by decide⟩

theorem protocolHeader_eq : protocolHeader.bytes = headerLines [protocolLine] := by decide

theorem protocol_fits : (connectRequest (.at 0) none (some xKey) (some protocolHeader)).length < wsMessageBufferSize := by
  rw [length_freshRequest]
  decide

/-- The request with the header of the application in front of its own. -/
def protocolRequest : HandshakeMessage := @requestMessage (text "/") xKey.bytes (by decide) [protocolLine] (by decide)

theorem protocolRequest_before : ∀ l ∈ protocolRequest.before, ¬ l.NameStarts secWebSocketKey :=
  requestMessage_before _ _ _ (by decide)

theorem protocolRequest_opening : (freshPair (some protocolHeader)).server.Opening firstBytes protocolRequest [] := by
  refine server_opening firstBytes bytesOf_keepTogether (.at 0) freshStream_unopened rfl ?_ ⟨rfl, fun l hl => ?_⟩ protocol_fits
  · rw [protocolRequest, format_requestMessage, ← protocolHeader_eq]
    rfl
  · exact not_named_of_not_nameStarts (protocolRequest_before l hl)

/-- With a header of the application, the server is asked once, then the client. -/
theorem connect_bothReady_protocol : ∃ p,
    (freshPair (some protocolHeader)).run firstBytes keepTogether [serverCall, clientCall] = some p ∧
      p.server.stream.status = .ready ∧ p.client.stream.status = .ready := by
  obtain ⟨c, t, hstep, -, hstream, hsupply⟩ :=
    freshPair_answered protocolRequest_opening protocolRequest_before protocol_fits
  have halong : (freshPair (some protocolHeader)).TerminatesAlong firstBytes keepTogether [serverCall, clientCall] := by
    refine ⟨freshPair_terminates protocol_fits, fun p' hp' => ?_⟩
    rw [hstep] at hp'
    cases hp'
    exact ⟨fun _ => freshPair_client hstream hsupply, fun _ _ => trivial⟩
  obtain ⟨p, hrun, hend, hfound⟩ := @connect_bothReady firstBytes keepTogether bytesOf_keepTogether (.at 0) freshStream
    freshStream freshStream_unopened freshStream_unopened freshStream_role none (some xKey) (some protocolHeader)
    [protocolLine] (fun u hu => by cases hu) (fun k hk => by cases hk; decide) protocolHeader_eq (by decide) protocol_fits
    [serverCall, clientCall] halong
  refine ⟨p, hrun, ?_⟩
  -- the two calls find the request and the response, so nothing is on its way behind them
  obtain ⟨request, hrequest, -, hserver⟩ := freshPair_supply protocol_fits
  obtain ⟨response, hresponse, -, -⟩ := keepTogether_response xKey.bytes
  have hword : protocolRequest.word = xKey.bytes := rfl
  have htwo : 2 ≤ (freshPair (some protocolHeader)).found firstBytes keepTogether [serverCall, clientCall] := by
    have hfirst : (freshPair (some protocolHeader)).finds serverCall = 1 := by
      show min (min 1 1) (freshPair (some protocolHeader)).server.supply.length = 1
      rw [hserver]
      rfl
    have hsecond : Pair.finds ⟨c, t⟩ clientCall = 1 := by
      show min (min 1 1) c.supply.length = 1
      rw [hsupply, hword, hresponse]
      rfl
    rw [Pair.found, hfirst, hstep, Option.elim_some, Pair.found, hsecond]
    omega
  rw [hrequest, Option.getD_some, hresponse] at hfound
  change 2 ≤ Pair.found firstBytes keepTogether (streamWsConnected keepTogether (.at 0) freshStream freshStream none
    (some xKey) (some protocolHeader)) [serverCall, clientCall] at htwo
  simp only [List.length_singleton] at hfound
  rcases hend with hready | hleft | hleft
  · exact hready
  · have hpos := List.length_pos_iff.2 hleft
    omega
  · have hpos := List.length_pos_iff.2 hleft
    omega

def lowerCaseLine : HeaderLine := headerLine (text "sec-websocket-key") (text "other") (by decide) (by decide) (by decide)

def lowerCaseHeader : CString := ⟨text "sec-websocket-key: other\r\n", by decide⟩

theorem lowerCaseHeader_eq : lowerCaseHeader.bytes = headerLines [lowerCaseLine] := by decide

theorem lowerCase_fits : (connectRequest (.at 0) none (some xKey) (some lowerCaseHeader)).length < wsMessageBufferSize := by
  rw [length_freshRequest]
  decide

/-- What a server reads in the request: the key is that of the first line. -/
def lowerCaseRequest : HandshakeMessage where
  startLine := text "GET " ++ text "/" ++ text " HTTP/1.1"
  before := []
  key := lowerCaseLine
  after := [upgradeLine, connectionLine, versionLine,
    headerLine secWebSocketKey xKey.bytes (by decide) (by decide) (by decide)]
  word := text "other"
  onLine := by decide
  graph := by decide
  keyValue := ⟨text " ", [], by decide, by decide, by decide⟩

theorem format_lowerCaseRequest :
    lowerCaseRequest.format = connectRequest (.at 0) none (some xKey) (some lowerCaseHeader) := by
  have hformat := @format_requestMessage (text "/") xKey.bytes (by decide) [lowerCaseLine] (by decide)
  rw [← lowerCaseHeader_eq] at hformat
  rw [connectRequest, Option.elim_none, Option.elim_some, Option.getD_some, ← hformat]
  simp only [HandshakeMessage.format, lowerCaseRequest, requestMessage, List.nil_append, List.cons_append]

theorem lowerCaseRequest_opening : (freshPair (some lowerCaseHeader)).server.Opening firstBytes lowerCaseRequest [] :=
  server_opening firstBytes bytesOf_keepTogether (.at 0) freshStream_unopened rfl format_lowerCaseRequest
    ⟨by decide, fun l hl => by cases hl⟩ lowerCase_fits

/-- The pair after `stream_ws_connect` with the header. -/
def lowerCasePair : Pair := freshPair (some lowerCaseHeader)

/-- The server answers the key of the first line. -/
theorem lowerCase_answered : lowerCasePair.Terminates serverCall ∧ ∃ c t,
    lowerCasePair.step firstBytes keepTogether serverCall = some ⟨c, t⟩ ∧ t.Idle ∧ c.stream = lowerCasePair.client.stream ∧
      c.supply = keepTogether (handshakeResponse (acceptKey firstBytes (text "other"))) := by
  have hword : lowerCaseRequest.word = text "other" := rfl
  rw [← hword]
  exact ⟨freshPair_terminates lowerCase_fits,
    freshPair_answered lowerCaseRequest_opening (fun l hl => by cases hl) lowerCase_fits⟩

/-- The first character of an accept key. -/
theorem acceptKey_head (sha1 : Sha1) (key : Bytes) :
    (acceptKey sha1 key).head? = some (base64Char ((sha1 (key ++ wsGuid))[0] >>> 2)) := by
  have hlen : (sha1 (key ++ wsGuid)).toList.length = 20 := Vector.length_toList
  have hget : (sha1 (key ++ wsGuid)).toList[0] = (sha1 (key ++ wsGuid))[0] := Vector.getElem_toList _
  unfold acceptKey
  match hlist : (sha1 (key ++ wsGuid)).toList, hlen with
  | a :: b :: c :: rest, _ =>
    simp only [hlist, List.getElem_cons_zero] at hget
    rw [← hget]
    rfl

theorem acceptKey_differs : ¬ acceptKey firstBytes (text "other") <+: acceptKey firstBytes xKey.bytes := by
  rintro ⟨rest, hrest⟩
  have hhead := congrArg List.head? hrest
  rw [List.head?_append, acceptKey_head, acceptKey_head, Option.some_or] at hhead
  revert hhead
  decide

/-- A client with a key that the response does not confirm refuses it. -/
theorem lowerCase_refused {c : Session} (hc : c.stream = lowerCasePair.client.stream)
    (hsupply : c.supply = keepTogether (handshakeResponse (acceptKey firstBytes (text "other")))) :
    (∀ chunk, (c.supply.take 1).head? = some chunk → Terminated (c.stream.append chunk.data).buffer (.at 0)) ∧
      ∃ t, c.step firstBytes (.peek (.at 0) 1 .again) = some t ∧ t.supply = [] ∧ t.stream.status ≠ .ready ∧
        sent c.stream t.stream = [] := by
  have hgraph := @acceptKey_graph firstBytes (text "other")
  have hterminates := freshPair_client hc hsupply
  obtain ⟨chunk, hkeep, hdata, -⟩ := keepTogether_response (text "other")
  rw [hkeep] at hsupply
  have hbuffer : c.stream.buffer = bufferInit (List.replicate 4096 0) := by rw [hc]; exact freshStream_buffer
  have hstatus : c.stream.status ≠ .ready := by rw [hc]; exact freshStream_unopened.status
  have hcache : c.stream.cache = [] := by rw [hc]; rfl
  have hrole : c.stream.clientRole = true := by rw [hc]; rfl
  have hkey : c.stream.key = some xKey := by rw [hc]; rfl
  have hlive : (c.stream.append chunk.data).buffer.live = (responseMessage hgraph).format := by
    have hnone : (bufferInit (List.replicate 4096 0)).live = [] := List.take_zero ..
    rw [live_append, hbuffer, hdata, format_responseMessage, hnone, List.nil_append]
  have hterminated : Terminated (c.stream.append chunk.data).buffer (.at 0) :=
    hterminates chunk (by rw [hsupply]; rfl)
  -- the word of the response is the accept key of the other key
  have hword : handshakeWord (c.stream.append chunk.data) ((c.stream.append chunk.data).string (.at 0)) =
      some (some (acceptKey firstBytes (text "other"))) := by
    rw [string_of_terminated hterminated (by rw [hlive]; exact HandshakeMessage.format_noNul _), hlive]
    unfold handshakeWord
    rw [if_pos (show (c.stream.append chunk.data).clientRole = true from hrole)]
    exact HandshakeMessage.For.word ⟨rfl, fun l hl => not_named_of_not_nameStarts (responseMessage_before hgraph l hl)⟩
      (by decide) (responseMessage_before hgraph)
  have hevents : handshakeEvents firstBytes (c.stream.append chunk.data) (some (acceptKey firstBytes (text "other"))) =
      [.handshake false] := by
    unfold handshakeEvents
    rw [show (c.stream.append chunk.data).clientRole = true from hrole,
      show (c.stream.append chunk.data).key = some xKey from hkey]
    simp [acceptKey_differs]
  have hanswered := handleHandshake_answered firstBytes (.at 0) hword
  have htake : c.supply.take 1 = [chunk] := by rw [hsupply]; rfl
  have hpeek := @peekFrame_handshake _ _ _ _ _ [] _ hcache
    (receiveChunk_handshake firstBytes (.at 0) hstatus chunk.data) .again
  rw [← htake] at hpeek
  obtain ⟨t, cache, ht, hs, -, hleft⟩ := @Session.step_peeks _ _ (.peek (.at 0) 1 .again) _ _ _ rfl _ _ _ hpeek
  refine ⟨hterminates, t, ht, ?_, ?_, ?_⟩
  · rw [hleft, hsupply]
    rfl
  · rw [hs]
    show (streamWsHandleHandshake firstBytes (.at 0) (c.stream.append chunk.data)).2.status ≠ .ready
    rw [hanswered.status, hevents, if_neg (by simp)]
    exact hstatus
  · have htrace : t.stream.trace = c.stream.trace ++ [.handshake false] := by
      rw [hs, ← hevents]
      exact hanswered.trace
    rw [sent_eq htrace]
    rfl

/-- Not only the names as they are written count: the server reads a header in lower case as the key. -/
theorem connect_lowerCaseKey : ¬ ∀ (sha1 : Sha1) (cut : Bytes → List Chunk) (env : Env) (client server : StreamWs)
    (uri key header : Option CString) (lines : List HeaderLine) (calls : List Call), (∀ bytes, bytesOf (cut bytes) = bytes) →
    client.Unopened → server.Unopened → server.clientRole = false → (∀ u, uri = some u → OnLine u.bytes) →
    (∀ k, key = some k → k.bytes ≠ [] ∧ ∀ c ∈ k.bytes, isgraph c = true) → header.elim [] (·.bytes) = headerLines lines →
    (∀ l ∈ lines, ¬ secWebSocketKey <+: l.name) → (connectRequest env uri key header).length < wsMessageBufferSize →
    (streamWsConnected cut env client server uri key header).TerminatesAlong sha1 cut calls →
      ∃ p, (streamWsConnected cut env client server uri key header).run sha1 cut calls = some p ∧
        (p.server.stream.status = .ready ∧ p.client.stream.status = .ready ∨
          p.server.supply ≠ [] ∨ p.client.supply ≠ []) := by
  intro h
  obtain ⟨hterminates₁, c₁, s, hstep₁, hidle, hstream, hsupply⟩ := lowerCase_answered
  obtain ⟨hterminates₂, c, hc, hleft, hstatus, hsent⟩ := lowerCase_refused hstream hsupply
  have hstep₂ := @Pair.step_client firstBytes keepTogether ⟨c₁, s⟩ clientCall c rfl hc
  rw [hsent, show keepTogether [] = [] from rfl, List.append_nil] at hstep₂
  have halong : lowerCasePair.TerminatesAlong firstBytes keepTogether [serverCall, clientCall] := by
    refine ⟨hterminates₁, fun p' hp' => ?_⟩
    rw [hstep₁] at hp'
    cases hp'
    exact ⟨fun _ => hterminates₂, fun _ _ => trivial⟩
  have hrun' : lowerCasePair.run firstBytes keepTogether [serverCall, clientCall] = some ⟨c, s⟩ := by
    rw [Pair.run, hstep₁, Option.bind_some, Pair.run, hstep₂]
    rfl
  obtain ⟨p, hrun, hend⟩ := h firstBytes keepTogether (.at 0) freshStream freshStream none (some xKey) (some lowerCaseHeader)
    [lowerCaseLine] [serverCall, clientCall] bytesOf_keepTogether freshStream_unopened freshStream_unopened freshStream_role
    (fun u hu => by cases hu) (fun k hk => by cases hk; exact ⟨by decide, by decide⟩) lowerCaseHeader_eq
    (by decide) lowerCase_fits halong
  rw [← freshPair, ← lowerCasePair, hrun'] at hrun
  cases hrun
  rcases hend with ⟨-, hready⟩ | hserver | hclient
  · exact hstatus hready
  · exact hserver hidle.supply
  · exact hclient hleft

end CMx.Ws
