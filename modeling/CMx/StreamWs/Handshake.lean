/-
The opening handshake: what the handlers make of the string in the receive buffer. A client accepts
every beginning of its accept key, and since a string does not end where the live range does, what
the stale bytes behind it say may count.
-/
import CMx.StreamWs.State

namespace CMx.Ws

open Mqtt (Bytes CString StreamStatus ReadEnd Errno)

/-! ## The handlers -/

theorem secWebSocketKey_line : 0x0D ∉ secWebSocketKey.map tolower := by decide
theorem secWebSocketAccept_line : 0x0D ∉ secWebSocketAccept.map tolower := by decide

/-- What fits is not cut off. -/
theorem snprintf_eq {size : Nat} {formatted : Bytes} (h : formatted.length < size) : snprintf size formatted = formatted :=
  List.take_of_length_le (by omega)

theorem length_handshakeResponse (key : Bytes) : (handshakeResponse key).length = 101 + key.length := by
  simp only [handshakeResponse, List.length_append]
  have hfront : (text
      "HTTP/1.1 101 Switching Protocols\r\nUpgrade: websocket\r\nConnection: Upgrade\r\nSec-WebSocket-Accept: ").length =
        97 := by
    decide +kernel
  have hback : (text "\r\n\r\n").length = 4 := by decide
  omega

/-- `strncmp` with the length of the word looks for the word at the front of the key. -/
theorem strneq_word {key : Bytes} (value : Bytes) :
    strneq key (value.take (xstrWordLen value)) (xstrWordLen value) = true ↔ word value <+: key := by
  have hlen : (word value).length = xstrWordLen value := rfl
  rw [take_xstrWordLen, strneq, decide_eq_true_iff, ← hlen, List.take_length, List.prefix_iff_eq_take]
  exact eq_comm

section Handlers

variable (sha1 : Sha1) (env : Env) (s : StreamWs)

/-- A request is answered as soon as its headers are complete. -/
theorem handleHandshakeRequest_eq :
    streamWsHandleHandshakeRequest sha1 env s =
      match headerValue secWebSocketKey (s.string env) with
      | none => (.error .again, s)
      | some none => streamWsRefuse s
      | some (some value) =>
        (.error .again, streamWsAccept env
          ((streamWsEndWord env s value).log (.write (handshakeResponse (acceptKey sha1 (word value)))))
          wsKeepAliveServerTimeout) := by
  unfold streamWsHandleHandshakeRequest headerValue
  cases httpViewParse (s.string env) with
  | none => rfl
  | some view =>
    simp only [Option.map_some]
    cases httpHeaderFind view.headers secWebSocketKey with
    | none => rfl
    | some found =>
      have hkey := @wsCalculateAcceptKey_eq sha1 (word found.2) wsKeyBufferSize (by decide)
      have hfits : (handshakeResponse (acceptKey sha1 (word found.2))).length < wsMessageBufferSize := by
        rw [length_handshakeResponse, length_acceptKey]
        decide
      simp only [Option.map_some, take_xstrWordLen, hkey, snprintf_eq hfits]
      rfl

/-- A response is accepted if its word is at the front of the accept key. -/
theorem handleHandshakeAccept_eq :
    streamWsHandleHandshakeAccept sha1 env s =
      match headerValue secWebSocketAccept (s.string env), s.key with
      | none, _ => (.error .again, s)
      | some _, none => streamWsRefuse s
      | some none, some _ => streamWsRefuse s
      | some (some value), some ownKey =>
        if word value <+: acceptKey sha1 ownKey.bytes then
          (.error .again, { streamWsAccept env (streamWsEndWord env s value) wsKeepAliveClientTimeout with key := none })
        else streamWsRefuse (streamWsEndWord env s value) := by
  unfold streamWsHandleHandshakeAccept headerValue
  cases httpViewParse (s.string env) with
  | none => rfl
  | some view =>
    simp only [Option.map_some]
    cases s.key with
    | none => rfl
    | some ownKey =>
      simp only
      cases httpHeaderFind view.headers secWebSocketAccept with
      | none => rfl
      | some found =>
        have hkey := @wsCalculateAcceptKey_eq sha1 ownKey.bytes wsKeyBufferSize (by decide)
        simp only [Option.map_some, hkey, strneq_word]

end Handlers

/-! ## The string in the buffer -/

theorem drop_data (b : Buffer) : b.alloc.drop b.data = b.live ++ b.alloc.drop (b.data + b.length) := by
  rw [← List.drop_drop]
  exact (List.take_append_drop b.length (b.alloc.drop b.data)).symm

/-- A text without a NUL is read to its end, and then what is behind it. -/
theorem takeWhile_noNul {front : Bytes} (h : 0 ∉ front) (rest : Bytes) :
    (front ++ rest).takeWhile (· ≠ 0) = front ++ rest.takeWhile (· ≠ 0) := by
  refine List.takeWhile_append_of_pos fun c hc => ?_
  have hne : c ≠ 0 := fun he => h (he ▸ hc)
  simpa using hne

/-- With a NUL, a text is all that is read. -/
theorem takeWhile_nul {front : Bytes} (h : 0 ∈ front) (rest : Bytes) :
    (front ++ rest).takeWhile (· ≠ 0) = front.takeWhile (· ≠ 0) :=
  Search.takeWhile_append_of_stop ⟨0, h, by simp⟩ rest

/-- The live range is followed by a NUL. -/
def Terminated (b : Buffer) (env : Env) : Prop :=
  (b.alloc.drop (b.data + b.length) ++ env.behind.bytes).head?.getD 0 = 0

theorem string_of_terminated {s : StreamWs} {env : Env} (h : Terminated s.buffer env) (hlive : 0 ∉ s.buffer.live) :
    s.string env = s.buffer.live := by
  unfold Terminated at h
  rw [StreamWs.string, drop_data, List.append_assoc, takeWhile_noNul hlive]
  cases hbehind : s.buffer.alloc.drop (s.buffer.data + s.buffer.length) ++ env.behind.bytes with
  | nil => simp
  | cons c rest =>
    rw [hbehind] at h
    have hc : c = 0 := h
    simp [hc]

/-- The string of a fresh stream behind its first chunk. -/
theorem string_bufferInit {s : StreamWs} {fresh data : Bytes} (h : s.buffer = bufferAppend (bufferInit fresh) data)
    (env : Env) : s.string env = (data ++ (fresh.drop data.length ++ env.behind.bytes)).takeWhile (· ≠ 0) := by
  have halloc : s.buffer.alloc = data ++ fresh.drop data.length := by
    rw [h, alloc_bufferAppend]
    simp [bufferInit, Buffer.live]
  have hdata : s.buffer.data = 0 := by rw [h]; rfl
  rw [StreamWs.string, halloc, hdata, List.drop_zero, List.append_assoc]

/-- In cleared memory, the first chunk is the string. -/
theorem string_cleared {s : StreamWs} {size : Nat} {data : Bytes}
    (h : s.buffer = bufferAppend (bufferInit (List.replicate size 0)) data) (hlen : data.length < size) (hnul : 0 ∉ data)
    (env : Env) : s.string env = data := by
  obtain ⟨k, hk⟩ : ∃ k, size - data.length = k + 1 := ⟨size - data.length - 1, by omega⟩
  rw [string_bufferInit h, List.drop_replicate, hk, takeWhile_noNul hnul, List.replicate_succ, List.cons_append,
    List.takeWhile_cons_of_neg (by decide), List.append_nil]

/-! ## The key in a response -/

/-- The word in the response is the accept key for the client's key. -/
def KeyConfirmed (sha1 : Sha1) (env : Env) (s : StreamWs) : Prop :=
  ∃ ownKey word, s.key = some ownKey ∧ headerWord secWebSocketAccept (s.string env) = some (some word) ∧
    wsCalculateAcceptKey sha1 ownKey.bytes wsKeyBufferSize = some word

/-- The word in the response is a beginning of the accept key that is not the whole of it. -/
def KeyCutShort (sha1 : Sha1) (env : Env) (s : StreamWs) : Prop :=
  ∃ ownKey word acceptKey, s.key = some ownKey ∧ headerWord secWebSocketAccept (s.string env) = some (some word) ∧
    wsCalculateAcceptKey sha1 ownKey.bytes wsKeyBufferSize = some acceptKey ∧ word <+: acceptKey ∧ word ≠ acceptKey

/-- A client becomes ready if and only if the word is a beginning of its accept key. -/
theorem status_handleHandshakeAccept {sha1 : Sha1} {env : Env} {s : StreamWs} (h : s.status ≠ .ready) :
    (streamWsHandleHandshakeAccept sha1 env s).2.status = .ready ↔
      ∃ ownKey word, s.key = some ownKey ∧ headerWord secWebSocketAccept (s.string env) = some (some word) ∧
        word <+: acceptKey sha1 ownKey.bytes := by
  rw [handleHandshakeAccept_eq, headerWord]
  cases headerValue secWebSocketAccept (s.string env) with
  | none => simpa using h
  | some found =>
    cases s.key with
    | none => simpa [streamWsRefuse, StreamWs.log] using h
    | some ownKey =>
      cases found with
      | none => simpa [streamWsRefuse, StreamWs.log] using h
      | some value =>
        simp only [Option.map_some, Option.some.injEq]
        split
        · rename_i hword
          simpa [streamWsAccept, StreamWs.startKeepAliveTimer] using hword
        · rename_i hword
          simpa [streamWsRefuse, StreamWs.log, streamWsEndWord, hword] using h

/-- A client that becomes ready has seen its accept key, unless the word was a part of it. -/
theorem accept_keyConfirmed_iff (sha1 : Sha1) (env : Env) (s : StreamWs) (h : s.status ≠ .ready) :
    ((streamWsHandleHandshakeAccept sha1 env s).2.status = .ready → KeyConfirmed sha1 env s) ↔ ¬ KeyCutShort sha1 env s := by
  have hcalc : ∀ ownKey : CString,
      wsCalculateAcceptKey sha1 ownKey.bytes wsKeyBufferSize = some (acceptKey sha1 ownKey.bytes) :=
    fun ownKey => wsCalculateAcceptKey_eq sha1 ownKey.bytes (by decide)
  rw [status_handleHandshakeAccept h]
  constructor
  · rintro hconfirmed ⟨ownKey, word, key, hkey, hword, hkeyEq, hbegin, hne⟩
    rw [hcalc] at hkeyEq
    cases hkeyEq
    obtain ⟨ownKey', word', hkey', hword', heq⟩ := hconfirmed ⟨ownKey, word, hkey, hword, hbegin⟩
    rw [hkey] at hkey'
    rw [hword] at hword'
    cases hkey'
    cases hword'
    rw [hcalc] at heq
    exact hne (Option.some.inj heq).symm
  · rintro hcut ⟨ownKey, word, hkey, hword, hbegin⟩
    refine ⟨ownKey, word, hkey, hword, ?_⟩
    by_contra hne
    rw [hcalc, Option.some.injEq] at hne
    exact hcut ⟨ownKey, word, _, hkey, hword, hcalc ownKey, hbegin, fun he => hne he.symm⟩

/-- A client with a key, behind a response with its accept key for a digest of zeros. -/
def confirmedAccept : StreamWs :=
  { streamWsInit (Vector.replicate 4096 0) with
    clientRole := true
    key := some ⟨text "eCDgYLpsqZzkcWAvbvEcUg==", by decide⟩
    buffer := bufferAppend (bufferInit (List.replicate 4096 0))
      (text "HTTP/1.1 101 x\r\nSec-WebSocket-Accept: AAAAAAAAAAAAAAAAAAAAAAAAAAA=\r\nUpgrade: websocket\r\n\r\n") }

theorem accept_keyConfirmed_zeros :
    let sha1 : Sha1 := fun _ => Vector.replicate 20 0
    (streamWsHandleHandshakeAccept sha1 (.at 0) confirmedAccept).2.status = .ready ∧
      KeyConfirmed sha1 (.at 0) confirmedAccept := by
  intro sha1
  have hword : headerWord secWebSocketAccept (confirmedAccept.string (.at 0)) =
      some (some (text "AAAAAAAAAAAAAAAAAAAAAAAAAAA=")) := by
    rw [confirmedAccept, string_cleared rfl (by decide +kernel) (by decide +kernel)]
    decide +kernel
  have hkey : acceptKey sha1 (text "eCDgYLpsqZzkcWAvbvEcUg==") = text "AAAAAAAAAAAAAAAAAAAAAAAAAAA=" := by
    decide +kernel
  have hready : (streamWsHandleHandshakeAccept sha1 (.at 0) confirmedAccept).2.status = .ready :=
    (status_handleHandshakeAccept (by decide)).2 ⟨_, _, rfl, hword, by rw [hkey]⟩
  refine ⟨hready, (accept_keyConfirmed_iff sha1 (.at 0) confirmedAccept (by decide)).2 ?_ hready⟩
  rintro ⟨ownKey, word, key, hown, hword', hcalc, -, hne⟩
  cases hown
  rw [wsCalculateAcceptKey_eq _ _ (by decide), hkey] at hcalc
  rw [hword] at hword'
  exact hne ((Option.some.inj (Option.some.inj hword')).symm.trans (Option.some.inj hcalc))

/-- A client with a key, behind a response whose accept key is empty. -/
def emptyAccept : StreamWs :=
  { streamWsInit (Vector.replicate 4096 0) with
    clientRole := true
    key := some ⟨text "dGhlIHNhbXBsZSBub25jZQ==", by decide⟩
    buffer := bufferAppend (bufferInit (List.replicate 4096 0)) (text "HTTP/1.1 101 x\r\nSec-WebSocket-Accept: \r\n\r\n") }

theorem string_emptyAccept (env : Env) :
    emptyAccept.string env = text "HTTP/1.1 101 x\r\nSec-WebSocket-Accept: \r\n\r\n" :=
  string_cleared rfl (by decide +kernel) (by decide +kernel) env

/-- The empty word is at the front of every accept key. -/
theorem accept_emptyWord : ¬ ∀ (sha1 : Sha1) (env : Env) (s : StreamWs), s.status ≠ .ready →
    (streamWsHandleHandshakeAccept sha1 env s).2.status = .ready → KeyConfirmed sha1 env s := by
  intro h
  have hword : headerWord secWebSocketAccept (emptyAccept.string (.at 0)) = some (some []) := by
    rw [string_emptyAccept]
    decide +kernel
  have hready := (@status_handleHandshakeAccept (fun _ => Vector.replicate 20 0) (.at 0) emptyAccept (by decide)).2
    ⟨_, [], rfl, hword, List.nil_prefix⟩
  obtain ⟨ownKey, word, -, hword', hkey⟩ := h _ _ _ (by decide) hready
  rw [hword] at hword'
  cases hword'
  rw [wsCalculateAcceptKey_eq _ _ (by decide), Option.some.injEq] at hkey
  have hlen := length_acceptKey (fun _ => Vector.replicate 20 0) ownKey.bytes
  rw [hkey] at hlen
  cases hlen

/-! ## Stale bytes -/

/-- The buffers differ only outside of their live ranges. -/
structure Buffer.Alike (b b' : Buffer) : Prop where
  data : b'.data = b.data
  length : b'.length = b.length
  size : b'.alloc.length = b.alloc.length
  live : b'.live = b.live

/-- The states differ only in the bytes of the receive buffer outside of its live range. -/
def Alike (s s' : StreamWs) : Prop := ∃ b, Buffer.Alike s.buffer b ∧ s' = { s with buffer := b }

/-- What is seen of a chunk: what the call returns, the status, the bytes that are written, and
the live range. -/
structure Seen where
  result : Option (Except Errno Nat)
  status : StreamStatus
  written : List Bytes
  live : Bytes

def seen (outcome : Option (Except Errno Nat) × StreamWs) : Seen :=
  ⟨outcome.1, outcome.2.status, outcome.2.trace.filterMap Event.written, outcome.2.buffer.live⟩

/-- Stale bytes do not matter for a chunk. -/
def Insensitive (sha1 : Sha1) (s : StreamWs) (chunk : Chunk) : Prop :=
  ∀ env s₁ s₂, Alike s s₁ → Alike s s₂ →
    (streamWsReceiveChunk sha1 env s₁ chunk.data).map seen = (streamWsReceiveChunk sha1 env s₂ chunk.data).map seen

/-- The front of the allocation behind an append, as far as the live range determines it: its bytes
and the new ones, and the copies of its bytes that it has left behind on its way to the front. -/
def determined (b : Buffer) (data : Bytes) : Bytes :=
  b.live ++ data ++ if b.data ≤ b.length + data.length then b.live.drop (b.length + data.length - b.data) else []

/-- The determined bytes decide: they hold a NUL or the end of the headers, or fill the allocation. -/
def Decided (b : Buffer) (data : Bytes) : Prop :=
  0 ∈ determined b data ∨ httpHeadersEnd <:+: determined b data ∨ b.alloc.length ≤ (determined b data).length

section Determined

variable {b b' : Buffer}

theorem length_determined (b : Buffer) (data : Bytes) : (determined b data).length =
    if b.data ≤ b.length + data.length then max (b.length + data.length) (b.data + b.length) else b.length + data.length := by
  unfold determined
  split <;> simp only [List.length_append, List.length_drop, Buffer.length_live, List.length_nil] <;> omega

/-- What the live range determines of an allocation, and what is behind that. -/
theorem alloc_bufferAppend_alike (h : Buffer.Alike b b') (data : Bytes) :
    (bufferAppend b' data).alloc = determined b data ++
      if b.data ≤ b.length + data.length then b'.alloc.drop (max (b.length + data.length) (b.data + b.length))
      else b'.alloc.drop (b.length + data.length) := by
  rw [alloc_bufferAppend, h.live, h.length, determined]
  split
  · rename_i hle
    have hsplit : b'.alloc.drop (b.length + data.length) =
        b.live.drop (b.length + data.length - b.data) ++
          b'.alloc.drop (max (b.length + data.length) (b.data + b.length)) := by
      have hdrop := drop_data b'
      rw [h.data, h.length, h.live] at hdrop
      calc b'.alloc.drop (b.length + data.length)
          = (b'.alloc.drop b.data).drop (b.length + data.length - b.data) := by
            rw [List.drop_drop]
            congr 1
            omega
        _ = b.live.drop (b.length + data.length - b.data) ++
            (b'.alloc.drop (b.data + b.length)).drop (b.length + data.length - b.data - b.length) := by
            rw [hdrop, List.drop_append, Buffer.length_live]
        _ = _ := by
            rw [List.drop_drop]
            congr 2
            omega
    rw [hsplit, List.append_assoc]
    simp
  · rw [List.append_nil]

/-- The same live range among copies of one byte. -/
def filled (b : Buffer) (c : UInt8) : Buffer where
  alloc := List.replicate b.data c ++ b.live ++ List.replicate (b.alloc.length - (b.data + b.length)) c
  data := b.data
  length := b.length
  fits := by
    simp only [List.length_append, List.length_replicate, Buffer.length_live]
    omega

theorem filled_alike (b : Buffer) (c : UInt8) : Buffer.Alike b (filled b c) where
  data := rfl
  length := rfl
  size := by
    have h := b.fits
    simp only [filled, List.length_append, List.length_replicate, Buffer.length_live]
    omega
  live := by
    unfold Buffer.live filled
    simp only
    rw [List.append_assoc, List.drop_left' List.length_replicate, List.take_left' (Buffer.length_live b)]
    rfl

/-- Where the determined bytes do not fill the allocation, the byte behind them is a stale one. -/
theorem alloc_filled {data : Bytes} (h : (determined b data).length < b.alloc.length) (c : UInt8) :
    ∃ rest, (bufferAppend (filled b c) data).alloc = determined b data ++ c :: rest ∧ ∀ x ∈ rest, x = c ∨ x ∈ b.live := by
  have hfits := b.fits
  have hlen := length_determined b data
  have hall : ∀ (l : Bytes) (k : Nat), l = (filled b c).alloc.drop k → ∀ x ∈ l, x = c ∨ x ∈ b.live := by
    rintro l k rfl x hx
    have hmem := List.mem_of_mem_drop hx
    simp only [filled, List.mem_append, List.mem_replicate] at hmem
    rcases hmem with (⟨-, hc⟩ | hlive) | ⟨-, hc⟩
    · exact Or.inl hc
    · exact Or.inr hlive
    · exact Or.inl hc
  rw [alloc_bufferAppend_alike (filled_alike b c)]
  split
  · rename_i hle
    rw [if_pos hle] at hlen
    have hdrop : (filled b c).alloc.drop (max (b.length + data.length) (b.data + b.length)) =
        List.replicate (b.alloc.length - max (b.length + data.length) (b.data + b.length)) c := by
      have hfront : (List.replicate b.data c ++ b.live).length ≤ max (b.length + data.length) (b.data + b.length) := by
        simp only [List.length_append, List.length_replicate, Buffer.length_live]
        omega
      simp only [filled]
      rw [List.drop_append, List.drop_of_length_le hfront, List.nil_append, List.drop_replicate]
      congr 1
      simp only [List.length_append, List.length_replicate, Buffer.length_live]
      omega
    obtain ⟨k, hk⟩ : ∃ k, b.alloc.length - max (b.length + data.length) (b.data + b.length) = k + 1 :=
      ⟨b.alloc.length - max (b.length + data.length) (b.data + b.length) - 1, by omega⟩
    rw [hk, List.replicate_succ] at hdrop
    exact ⟨_, by rw [hdrop], fun x hx => Or.inl (List.eq_of_mem_replicate hx)⟩
  · rename_i hgt
    have hget : (filled b c).alloc.drop (b.length + data.length) =
        c :: (filled b c).alloc.drop (b.length + data.length + 1) := by
      have hlt : b.length + data.length < (filled b c).alloc.length := by
        rw [(filled_alike b c).size]
        omega
      rw [List.drop_eq_getElem_cons hlt]
      congr 1
      simp only [filled, List.append_assoc]
      rw [List.getElem_append_left (by rw [List.length_replicate]; omega), List.getElem_replicate]
    exact ⟨_, congrArg (determined b data ++ ·) hget, hall _ _ rfl⟩

end Determined

section Insensitive

variable {sha1 : Sha1} {env : Env}

/-- The word that the handler for the role of the stream looks for. -/
def handshakeWord (s : StreamWs) (str : Bytes) : Option (Option Bytes) :=
  headerWord (if s.clientRole then secWebSocketAccept else secWebSocketKey) str

theorem handshakeWord_append (s : StreamWs) {str : Bytes} (h : httpHeadersEnd <:+: str) (rest : Bytes) :
    handshakeWord s (str ++ rest) = handshakeWord s str := by
  unfold handshakeWord
  split
  · exact headerWord_append secWebSocketAccept_line h rest
  · exact headerWord_append secWebSocketKey_line h rest

/-- What is seen of a request depends on its word and, while it is incomplete, on the live range. -/
def Seen.ofRequest (sha1 : Sha1) (s : StreamWs) : Option (Option Bytes) → Seen
  | none => ⟨some (.error .again), s.status, s.trace.filterMap Event.written, s.buffer.live⟩
  | some none => ⟨some (.ok 0), s.status, s.trace.filterMap Event.written, []⟩
  | some (some word) => ⟨some (.error .again), .ready,
      s.trace.filterMap Event.written ++ [handshakeResponse (acceptKey sha1 word)], []⟩

/-- So it is for a response. -/
def Seen.ofResponse (sha1 : Sha1) (s : StreamWs) : Option (Option Bytes) → Seen
  | none => ⟨some (.error .again), s.status, s.trace.filterMap Event.written, s.buffer.live⟩
  | some none => ⟨some (.ok 0), s.status, s.trace.filterMap Event.written, []⟩
  | some (some word) =>
    if s.key.any (fun key => word <+: acceptKey sha1 key.bytes) then
      ⟨some (.error .again), .ready, s.trace.filterMap Event.written, []⟩
    else ⟨some (.ok 0), s.status, s.trace.filterMap Event.written, []⟩

def Seen.ofHandshake (sha1 : Sha1) (s : StreamWs) (found : Option (Option Bytes)) : Seen :=
  if s.clientRole then .ofResponse sha1 s found else .ofRequest sha1 s found

theorem seen_handleHandshake (s : StreamWs) :
    seen ((some (streamWsHandleHandshake sha1 env s).1, (streamWsHandleHandshake sha1 env s).2)) =
      Seen.ofHandshake sha1 s (handshakeWord s (s.string env)) := by
  unfold streamWsHandleHandshake Seen.ofHandshake handshakeWord headerWord
  by_cases hrole : s.clientRole = true
  · rw [if_pos hrole, if_pos hrole, if_pos hrole, handleHandshakeAccept_eq]
    cases headerValue secWebSocketAccept (s.string env) with
    | none => rfl
    | some found =>
      cases hkey : s.key with
      | none => 
        cases found <;> simp [Seen.ofResponse, hkey, seen, streamWsRefuse, StreamWs.log, Event.written]
      | some ownKey =>
        cases found with
        | none => simp [Seen.ofResponse, seen, streamWsRefuse, StreamWs.log, Event.written]
        | some value =>
          by_cases hword : word value <+: acceptKey sha1 ownKey.bytes
          · simp [Seen.ofResponse, hkey, hword, seen, streamWsAccept, streamWsEndWord, StreamWs.startKeepAliveTimer,
              StreamWs.log, Event.written]
          · simp [Seen.ofResponse, hkey, hword, seen, streamWsRefuse, streamWsEndWord, StreamWs.log, Event.written]
  · rw [if_neg hrole, if_neg hrole, if_neg hrole, handleHandshakeRequest_eq]
    cases headerValue secWebSocketKey (s.string env) with
    | none => rfl
    | some found =>
      cases found with
      | none => simp [Seen.ofRequest, seen, streamWsRefuse, StreamWs.log, Event.written]
      | some value =>
        simp [Seen.ofRequest, seen, streamWsAccept, streamWsEndWord, StreamWs.startKeepAliveTimer, StreamWs.log,
          Event.written]

/-- The live range is lost with a complete message, and only then. -/
theorem live_ofHandshake (s : StreamWs) (found : Option (Option Bytes)) :
    (Seen.ofHandshake sha1 s found).live = if found.isSome then [] else s.buffer.live := by
  unfold Seen.ofHandshake Seen.ofResponse Seen.ofRequest
  split <;> split <;> first | rfl | (split <;> rfl)

/-- A chunk in the handshake, for a state with other stale bytes. -/
theorem seen_receiveChunk {s s' : StreamWs} (hs : s.status ≠ .ready) (h : Alike s s') (data : Bytes) :
    (streamWsReceiveChunk sha1 env s' data).map seen =
      some (Seen.ofHandshake sha1 { s with buffer := bufferAppend s.buffer data }
        (handshakeWord s (((bufferAppend s'.buffer data).alloc ++ env.behind.bytes).takeWhile (· ≠ 0)))) := by
  obtain ⟨b, hb, rfl⟩ := h
  have hlive : (bufferAppend b data).live = (bufferAppend s.buffer data).live := by
    rw [live_bufferAppend, live_bufferAppend, hb.live]
  unfold streamWsReceiveChunk
  simp only
  rw [if_pos hs, Option.map_some, seen_handleHandshake]
  simp only [Seen.ofHandshake, Seen.ofResponse, Seen.ofRequest, hlive]
  rfl

theorem decided_insensitive {s : StreamWs} {chunk : Chunk} (hs : s.status ≠ .ready) (h : Decided s.buffer chunk.data) :
    Insensitive sha1 s chunk := by
  rintro env s₁ s₂ h₁ h₂
  rw [seen_receiveChunk hs h₁, seen_receiveChunk hs h₂]
  have hread : ∀ {s' : StreamWs}, Alike s s' → ∃ rest : Bytes, (bufferAppend s'.buffer chunk.data).alloc =
      determined s.buffer chunk.data ++ rest ∧
        (s.buffer.alloc.length ≤ (determined s.buffer chunk.data).length → rest = []) := by
    rintro s' ⟨b, hb, rfl⟩
    refine ⟨_, alloc_bufferAppend_alike hb chunk.data, fun hfill => ?_⟩
    have hlen := length_determined s.buffer chunk.data
    rw [hlen] at hfill
    split at hfill
    · rename_i hle
      rw [if_pos hle, List.drop_of_length_le (by rw [hb.size]; exact hfill)]
    · rename_i hgt
      rw [if_neg hgt, List.drop_of_length_le (by rw [hb.size]; exact hfill)]
  obtain ⟨rest₁, halloc₁, hfill₁⟩ := hread h₁
  obtain ⟨rest₂, halloc₂, hfill₂⟩ := hread h₂
  rw [halloc₁, halloc₂]
  rcases h with hnul | hend | hfill
  · rw [List.append_assoc, List.append_assoc, takeWhile_nul hnul, takeWhile_nul hnul]
  · by_cases hnul : 0 ∈ determined s.buffer chunk.data
    · rw [List.append_assoc, List.append_assoc, takeWhile_nul hnul, takeWhile_nul hnul]
    · rw [List.append_assoc, List.append_assoc, takeWhile_noNul hnul, takeWhile_noNul hnul,
        handshakeWord_append s hend, handshakeWord_append s hend]
  · rw [hfill₁ hfill, hfill₂ hfill]

/-- Stale bytes do not matter for a chunk of the handshake if and only if the determined bytes decide. -/
theorem insensitive_iff (sha1 : Sha1) (s : StreamWs) (chunk : Chunk) (hs : s.status ≠ .ready) :
    Insensitive sha1 s chunk ↔ Decided s.buffer chunk.data := by
  refine ⟨fun h => ?_, decided_insensitive hs⟩
  by_contra hopen
  unfold Decided at hopen
  rw [not_or, not_or, not_le] at hopen
  obtain ⟨hnul, hend, hfill⟩ := hopen
  -- the memory behind the allocation holds what the message lacks
  let env : Env := { Env.at 0 with behind := ⟨httpHeadersEnd, by decide⟩ }
  have alike : ∀ c, Alike s { s with buffer := filled s.buffer c } := fun c => ⟨_, filled_alike s.buffer c, rfl⟩
  have hlive : 0 ∉ s.buffer.live := fun hm => hnul (by
    rw [determined, List.append_assoc]
    exact List.mem_append_left _ hm)
  have hsame := h env _ _ (alike 0) (alike 0x20)
  rw [seen_receiveChunk hs (alike 0), seen_receiveChunk hs (alike 0x20)] at hsame
  obtain ⟨rest, halloc, -⟩ := alloc_filled hfill 0
  obtain ⟨rest', halloc', hrest'⟩ := alloc_filled hfill 0x20
  have hshort : ((bufferAppend (filled s.buffer 0) chunk.data).alloc ++ env.behind.bytes).takeWhile (· ≠ 0) =
      determined s.buffer chunk.data := by
    rw [halloc, List.append_assoc, takeWhile_noNul hnul]
    simp
  have hlong : ((bufferAppend (filled s.buffer 0x20) chunk.data).alloc ++ env.behind.bytes).takeWhile (· ≠ 0) =
      determined s.buffer chunk.data ++ 0x20 :: rest' ++ httpHeadersEnd := by
    have hnul' : 0 ∉ determined s.buffer chunk.data ++ 0x20 :: rest' := by
      rw [List.mem_append, List.mem_cons]
      rintro (hm | hm | hm)
      · exact hnul hm
      · exact absurd hm (by decide)
      · rcases hrest' 0 hm with hx | hx
        · exact absurd hx (by decide)
        · exact hlive hx
    rw [halloc', takeWhile_noNul hnul']
    rfl
  have hinfix : httpHeadersEnd <:+: determined s.buffer chunk.data ++ 0x20 :: rest' ++ httpHeadersEnd :=
    (List.suffix_append _ _).isInfix
  have hnone : handshakeWord s (determined s.buffer chunk.data) = none := headerWord_eq_none_iff.2 hend
  have hsome : (handshakeWord s (determined s.buffer chunk.data ++ 0x20 :: rest' ++ httpHeadersEnd)).isSome = true := by
    rw [Option.isSome_iff_ne_none]
    exact fun he => headerWord_eq_none_iff.1 he hinfix
  rw [hshort, hlong] at hsame
  have hgone := congrArg Seen.live (Option.some.inj hsame)
  rw [live_ofHandshake, live_ofHandshake, hnone, hsome, live_bufferAppend] at hgone
  exact chunk.nonempty (List.append_eq_nil_iff.1 hgone).2

/-- A complete request is read alike whatever is behind it. -/
theorem insensitive_request :
    Insensitive (fun _ => Vector.replicate 20 0) (streamWsInit (Vector.replicate 4096 0))
      ⟨text "GET / HTTP/1.1\r\nSec-WebSocket-Key: x\r\n\r\n", by decide +kernel, by decide +kernel⟩ := by
  refine (insensitive_iff _ _ _ (by decide)).2 (Or.inr (Or.inl ?_))
  exact ⟨text "GET / HTTP/1.1\r\nSec-WebSocket-Key: x", [], by decide +kernel⟩

/-- The memory of a fresh stream in which a line end and an empty line happen to be. -/
def staleLineEnds : Buffer := bufferInit (text " \r\n\r\n" ++ List.replicate 4091 0)

/-- Behind the first byte of a request, the stale bytes are the end of its headers or they are not. -/
theorem fresh_sensitive : ¬ ∀ (sha1 : Sha1) (s : StreamWs) (chunk : Chunk), s.status ≠ .ready → Insensitive sha1 s chunk := by
  intro h
  let s := streamWsInit (Vector.replicate 4096 0)
  have hsize : s.buffer.alloc = List.replicate 4096 0 := Vector.toList_replicate
  have hself : Alike s s := ⟨_, ⟨rfl, rfl, rfl, rfl⟩, rfl⟩
  have hstale : Alike s { s with buffer := staleLineEnds } := by
    refine ⟨staleLineEnds, ⟨rfl, rfl, ?_, rfl⟩, rfl⟩
    rw [hsize, List.length_replicate, staleLineEnds, bufferInit, List.length_append, List.length_replicate]
    rfl
  have hsame := h (fun _ => Vector.replicate 20 0) s ⟨text "G", by decide, by decide⟩ (by decide) (.at 0) _ _ hself hstale
  rw [seen_receiveChunk (by decide) hself, seen_receiveChunk (by decide) hstale] at hsame
  have hshort : ((bufferAppend s.buffer (text "G")).alloc ++ (Env.at 0).behind.bytes).takeWhile (· ≠ 0) = text "G" := by
    rw [alloc_bufferAppend, hsize, List.drop_replicate, List.append_assoc]
    show List.takeWhile _ (text "G" ++ (List.replicate (4094 + 1) 0 ++ _)) = _
    rw [takeWhile_noNul (by decide), List.replicate_succ, List.cons_append, List.takeWhile_cons_of_neg (by decide),
      List.append_nil]
  have hlong : ((bufferAppend staleLineEnds (text "G")).alloc ++ (Env.at 0).behind.bytes).takeWhile (· ≠ 0) =
      text "G\r\n\r\n" := by
    rw [alloc_bufferAppend]
    show List.takeWhile _ (text "G" ++ (text "\r\n\r\n" ++ List.replicate (4090 + 1) 0) ++ []) = _
    rw [List.append_nil, ← List.append_assoc, takeWhile_noNul (by decide), List.replicate_succ,
      List.takeWhile_cons_of_neg (by decide), List.append_nil]
    rfl
  rw [hshort, hlong] at hsame
  have hgone := congrArg Seen.live (Option.some.inj hsame)
  rw [live_ofHandshake, live_ofHandshake, live_bufferAppend] at hgone
  revert hgone
  decide +kernel

end Insensitive

end CMx.Ws
