/-
Reassembly: the inner loop of `stream_mqtt_peek_frame` drains the buffer with `mqtt_parse_frame`,
whose verdicts are stable, so the frames handed over do not depend on where the byte stream was
cut, up to the first invalid remaining length; and without an observer the frames that the
application reads are those of the byte stream, in order.
-/
import CMx.Lib.Framing
import CMx.StreamMqtt.Inbound

namespace CMx.Mqtt

open Framing (drain Receiver Verdict Parser)

/-! ## Frames of a byte stream -/

/-- `mqtt_parse_frame` with the frame it finds. -/
def frameParser : Parser UInt8 Frame := fun data =>
  match mqttParseFrame data with
  | .more _ => .more
  | .error => .bad
  | .frame bodyOffset header frameLength =>
    .frame ⟨header.type, header.flags, (data.drop bodyOffset).take header.bodyLength⟩ frameLength

/-- A recognised frame is a type byte, a length and the bytes that it announces. -/
theorem mqttParseFrame_frame {data : Bytes} {bodyOffset : Nat} {header : MqttFixedHeader} {frameLength : Nat}
    (h : mqttParseFrame data = .frame bodyOffset header frameLength) :
    ∃ first rest n, data = first :: rest ∧ rest ≠ [] ∧ mqttDecodeLength rest = .done n header.bodyLength ∧ 0 < n ∧
      bodyOffset = 1 + n ∧ header = ⟨(first >>> 4) &&& 0xF, first &&& 0xF, header.bodyLength⟩ ∧
      frameLength = bodyOffset + header.bodyLength ∧ frameLength ≤ data.length := by
  match data with
  | [] => cases h
  | [_] => cases h
  | first :: b :: tail =>
    rw [mqttParseFrame_cons (List.cons_ne_nil _ _)] at h
    cases hd : mqttDecodeLength (b :: tail) with
    | more => rw [hd] at h; cases h
    | error => rw [hd] at h; cases h
    | done n v =>
      rw [hd] at h
      simp only at h
      split at h
      · cases h
      · rename_i hle
        obtain ⟨rfl, rfl, rfl⟩ : 1 + n = bodyOffset ∧
            MqttFixedHeader.mk ((first >>> 4) &&& 0xF) (first &&& 0xF) v = header ∧ 1 + n + v = frameLength := by
          simpa using h
        obtain ⟨hpos, -, -⟩ := decodeLoop_done _ _ _ _ n v [] hd
        refine ⟨first, b :: tail, n, rfl, List.cons_ne_nil _ _, hd, hpos, rfl, rfl, rfl, ?_⟩
        simp only [List.length_cons] at hle ⊢
        omega

/-- What a recognised frame says about the data. -/
theorem mqttParseFrame_spec {data : Bytes} {bodyOffset : Nat} {header : MqttFixedHeader} {frameLength : Nat}
    (h : mqttParseFrame data = .frame bodyOffset header frameLength) :
    0 < bodyOffset ∧ frameLength = bodyOffset + header.bodyLength ∧ frameLength ≤ data.length ∧
      ∀ rest, mqttParseFrame (data ++ rest) = .frame bodyOffset header frameLength := by
  obtain ⟨first, tail, n, rfl, hne, hd, -, rfl, hheader, rfl, hle⟩ := mqttParseFrame_frame h
  refine ⟨by omega, rfl, hle, fun rest => ?_⟩
  -- the length does not change, and there is still enough behind it
  have hdone : mqttDecodeLength (tail ++ rest) = .done n header.bodyLength :=
    (decodeLoop_done _ _ _ _ n _ rest hd).2.2
  rw [List.cons_append, mqttParseFrame_cons (List.append_ne_nil_of_left_ne_nil hne rest), hdone]
  simp only [List.length_append, List.length_cons] at hle ⊢
  rw [if_neg (by omega), ← hheader]

theorem mqttParseFrame_error {data : Bytes} (h : mqttParseFrame data = .error) (rest : Bytes) :
    mqttParseFrame (data ++ rest) = .error := by
  match data with
  | [] => cases h
  | [_] => cases h
  | first :: b :: tail =>
    rw [mqttParseFrame_cons (List.cons_ne_nil _ _)] at h
    cases hd : mqttDecodeLength (b :: tail) with
    | more => rw [hd] at h; cases h
    | done n v =>
      rw [hd] at h
      simp only at h
      split at h <;> cases h
    | error =>
      have herr := decodeLoop_error _ _ _ _ rest hd
      rw [List.cons_append, mqttParseFrame_cons (by simp)]
      rw [show mqttDecodeLength (b :: tail ++ rest) = .error from herr]

theorem frameParser_frame {data : Bytes} {f : Frame} {n : Nat} (h : frameParser data = .frame f n) :
    ∃ bodyOffset header, mqttParseFrame data = .frame bodyOffset header n ∧
      f = ⟨header.type, header.flags, (data.drop bodyOffset).take header.bodyLength⟩ := by
  unfold frameParser at h
  cases hp : mqttParseFrame data with
  | more n => rw [hp] at h; cases h
  | error => rw [hp] at h; cases h
  | frame bodyOffset header frameLength =>
    rw [hp] at h
    cases h
    exact ⟨bodyOffset, header, rfl, rfl⟩

theorem frameParser_stable : Parser.Stable frameParser where
  nil := rfl
  pos := by
    intro xs f n h
    obtain ⟨bodyOffset, header, hp, -⟩ := frameParser_frame h
    obtain ⟨hpos, hlen, -, -⟩ := mqttParseFrame_spec hp
    omega
  le := by
    intro xs f n h
    obtain ⟨bodyOffset, header, hp, -⟩ := frameParser_frame h
    exact (mqttParseFrame_spec hp).2.2.1
  frame_append := by
    intro xs f n ys h
    obtain ⟨bodyOffset, header, hp, rfl⟩ := frameParser_frame h
    obtain ⟨-, hlen, hle, happ⟩ := mqttParseFrame_spec hp
    have hbody : ((xs ++ ys).drop bodyOffset).take header.bodyLength = (xs.drop bodyOffset).take header.bodyLength := by
      rw [List.drop_append_of_le_length (by omega), List.take_append_of_le_length (by rw [List.length_drop]; omega)]
    simp only [frameParser, happ ys, hbody]
  bad_append := by
    intro xs ys h
    unfold frameParser at h ⊢
    cases hp : mqttParseFrame xs with
    | more n => rw [hp] at h; cases h
    | frame bodyOffset header n => rw [hp] at h; cases h
    | error => rw [mqttParseFrame_error hp]

/-- The frames of a byte stream up to its first invalid remaining length. -/
def framesOf (bytes : Bytes) : List Frame := (drain frameParser bytes).frames

/-- No frame of the byte stream has an invalid remaining length. -/
def WellFramed (bytes : Bytes) : Prop := (drain frameParser bytes).bad = false

/-- A frame that `mqtt_format_frame` can make. -/
structure Frame.Proper (f : Frame) : Prop where
  type_lt : f.type < 16
  flags_lt : f.flags < 16
  length_le : f.body.length ≤ mqttMaxBodyLength

theorem frameParser_format {f : Frame} (h : f.Proper) (rest : Bytes) :
    frameParser (f.format ++ rest) = .frame f f.format.length := by
  unfold frameParser Frame.format
  rw [mqttParseFrame_format h.type_lt h.flags_lt h.length_le]
  simp only [mqttFormatFrame, List.append_assoc, List.drop_left, List.take_left]

/-- A concatenation of formatted frames is drained frame by frame. -/
theorem drain_format : ∀ {fs : List Frame}, (∀ f ∈ fs, f.Proper) →
    drain frameParser (fs.flatMap Frame.format) = ⟨fs, [], false⟩
  | [], _ => Framing.drain_more rfl
  | f :: fs, h => by
    have hf := frameParser_format (h f (List.mem_cons_self ..)) (fs.flatMap Frame.format)
    rw [List.flatMap_cons, Framing.drain_frame frameParser_stable hf, List.drop_left,
      drain_format fun f hm => h f (List.mem_cons_of_mem _ hm)]

/-! ## The loop drains the buffer -/

/-- What arriving bytes, received frames and resets of the buffer preserve, a peek preserves; `P`
may speak of the bytes that are still to be read. -/
theorem peekLoop_inv (env : Env) {P : StreamMqtt → Bytes → Prop}
    (arrive : ∀ (s : StreamMqtt) data rest, P s (data ++ rest) → P { s with buffer := s.buffer ++ data } rest)
    (handle : ∀ (s : StreamMqtt) rest bodyOffset frame frameLength,
      mqttParseFrame s.buffer = .frame bodyOffset frame frameLength → P s rest →
        P { streamMqttHandleReceivedFrame env s frame (memOf (s.buffer.drop bodyOffset) (env.stale s.trace.length)) with
          buffer := s.buffer.drop frameLength } rest)
    (reset : ∀ (s : StreamMqtt) rest, mqttParseFrame s.buffer = .error → P s rest → P { s with buffer := [] } rest) :
    ∀ (reads : List Chunk) (s : StreamMqtt) (rest : Bytes), P s ((reads.map Chunk.data).flatten ++ rest) →
      P (streamMqttPeekLoop env reads s).2.2 (((streamMqttPeekLoop env reads s).1.map Chunk.data).flatten ++ rest) := by
  -- first the inner loop over the frames of a chunk
  have parse : ∀ (rounds : Nat) (s : StreamMqtt) (rest : Bytes), P s rest → P (streamMqttParseLoop env rounds s) rest := by
    intro rounds
    induction rounds with
    | zero => exact fun _ _ h => h
    | succ rounds ih =>
      intro s rest h
      unfold streamMqttParseLoop
      split
      · exact h
      · split
        · exact h
        · rename_i herror
          exact ih _ _ (reset s rest herror h)
        · rename_i bodyOffset frame frameLength hframe
          refine ih _ _ ?_
          rw [(handle_frame env s frame _).1]
          exact handle s rest bodyOffset frame frameLength hframe h
  intro reads
  induction reads with
  | nil => exact fun _ _ h => h
  | cons chunk reads ih =>
    intro s rest h
    unfold streamMqttPeekLoop
    split
    · refine ih _ rest (parse _ _ _ (arrive s chunk.data _ ?_))
      rw [List.map_cons, List.flatten_cons, List.append_assoc] at h
      exact h
    · exact h

/-- The body bytes of a frame in the buffer. -/
theorem recorded_memOf {header : MqttFixedHeader} {data : Bytes} (h : header.bodyLength ≤ data.length) (stale : Mem) :
    recorded header (memOf data stale) = ⟨header.type, header.flags, data.take header.bodyLength⟩ := by
  have hbody : frameBody header (memOf data stale) = data.take header.bodyLength := by
    refine List.ext_getElem (by simp [frameBody, Mem.bytes, h]) fun i h1 h2 => ?_
    have hi : i < data.length := by
      rw [List.length_take] at h2; omega
    simp [frameBody, Mem.bytes, memOf, List.getElem?_eq_getElem hi]
  rw [recorded, hbody]

/-- The state of the reassembly: the frames received so far and the buffer. -/
def receiver (s : StreamMqtt) : Receiver UInt8 Frame := ⟨received s.trace, s.buffer⟩

theorem receiver_parseLoop (env : Env) : ∀ (rounds : Nat) (s : StreamMqtt), s.buffer.length ≤ rounds →
    receiver (streamMqttParseLoop env rounds s) =
      ⟨received s.trace ++ (drain frameParser s.buffer).frames, (drain frameParser s.buffer).rest⟩
  | 0, s, h => by
    have hb : s.buffer = [] := List.eq_nil_of_length_eq_zero (by omega)
    rw [hb, Framing.drain_more rfl]
    simp [streamMqttParseLoop, receiver, hb]
  | rounds + 1, s, h => by
    unfold streamMqttParseLoop
    by_cases hempty : s.buffer = []
    · rw [if_pos (by simp [hempty]), hempty, Framing.drain_more rfl]
      simp [receiver, hempty]
    · rw [if_neg (by simpa using hempty)]
      cases hp : mqttParseFrame s.buffer with
      | more n =>
        rw [Framing.drain_more (by simp [frameParser, hp])]
        simp [receiver]
      | error =>
        rw [Framing.drain_bad (by simp [frameParser, hp])]
        simp only
        rw [receiver_parseLoop env rounds _ (by simp), Framing.drain_more rfl]
      | frame bodyOffset header frameLength =>
        obtain ⟨hpos, hlen, hle, -⟩ := mqttParseFrame_spec hp
        have hframe : frameParser s.buffer =
            .frame ⟨header.type, header.flags, (s.buffer.drop bodyOffset).take header.bodyLength⟩ frameLength := by
          simp [frameParser, hp]
        rw [Framing.drain_frame frameParser_stable hframe]
        simp only
        rw [receiver_parseLoop env rounds _ (by rw [(handle_frame env s header _).1, List.length_drop]; omega)]
        simp only [(handle_frame env s header _).1, handle_received]
        rw [recorded_memOf (by rw [List.length_drop]; omega), List.append_assoc, List.singleton_append]

/-- A chunk is fed to the reassembly. -/
theorem receiver_receiveChunk (env : Env) (s : StreamMqtt) (data : Bytes) :
    receiver (streamMqttReceiveChunk env s data) = Receiver.feed frameParser (receiver s) data :=
  receiver_parseLoop env _ _ (le_refl _)

/-- A peek feeds the chunks that it reads. -/
theorem receiver_peekLoop (env : Env) : ∀ (reads : List Chunk) (s : StreamMqtt),
    ∃ fed, reads = fed ++ (streamMqttPeekLoop env reads s).1 ∧
      receiver (streamMqttPeekLoop env reads s).2.2 =
        (fed.map Chunk.data).foldl (Receiver.feed frameParser) (receiver s)
  | [], s => ⟨[], rfl, rfl⟩
  | chunk :: reads, s => by
    unfold streamMqttPeekLoop
    split
    · obtain ⟨fed, hreads, hr⟩ := receiver_peekLoop env reads (streamMqttReceiveChunk env s chunk.data)
      refine ⟨chunk :: fed, ?_, ?_⟩
      · rw [List.cons_append, ← hreads]
      · rw [hr, receiver_receiveChunk]; rfl
    · exact ⟨[], rfl, rfl⟩

/-- The calls of the application feed nothing. -/
theorem receiver_step (s : StreamMqtt) (env : Env) {call : Call} (h : call.isLoop = false) :
    receiver (step s env call) = receiver s := by
  obtain ⟨-, hbuffer, hreceived⟩ := step_keeps s env h
  rw [receiver, hbuffer, hreceived]
  rfl

/-! ## Sessions -/

/-- A stream, the chunks that the reads of its decorated stream are still to return, and what the
successful reads of frames have returned. -/
structure Session where
  stream : StreamMqtt
  supply : List Chunk
  returned : List ReadFrame

/-- What an application does: it peeks while `available` chunks have arrived and then the reads end
as `last` says, it reads a frame, or it makes another call. -/
inductive Op where
  | peek (env : Env) (available : Nat) (last : ReadEnd)
  | read (length : Nat)
  | call (env : Env) (call : Call) (h : call.isLoop = false)

namespace Session

def step (t : Session) : Op → Session
  | .peek env available last =>
    let (_, left, stream) := streamMqttPeekFrame env t.stream (t.supply.take available) last
    { t with stream, supply := left ++ t.supply.drop available }
  | .read length =>
    match streamMqttReadFrame t.stream length with
    | (.ok frame, stream) => { t with stream, returned := t.returned ++ [frame] }
    | (.error _, stream) => { t with stream }
  | .call env call _ => { t with stream := Mqtt.step t.stream env call }

def run (t : Session) (ops : List Op) : Session := ops.foldl step t

/-- The bytes to come. -/
def bytes (t : Session) : Bytes := (t.supply.map Chunk.data).flatten

/-- A step feeds chunks from the front of the supply. -/
theorem step_feeds (t : Session) (op : Op) :
    ∃ fed, t.supply = fed ++ (t.step op).supply ∧
      receiver (t.step op).stream = (fed.map Chunk.data).foldl (Receiver.feed frameParser) (receiver t.stream) := by
  cases op with
  | peek env available last =>
    obtain ⟨fed, hreads, hr⟩ := receiver_peekLoop env (t.supply.take available) t.stream
    refine ⟨fed, ?_, hr⟩
    have hsplit := List.take_append_drop available t.supply
    rw [hreads, List.append_assoc] at hsplit
    exact hsplit.symm
  | read length =>
    have hq := quiet_readFrame (Q := fun e => ∀ f, e ≠ .receive f) t.stream length
    have hr : receiver (streamMqttReadFrame t.stream length).2 = receiver t.stream := by
      obtain ⟨es, he, hes⟩ := hq.trace
      simp only [receiver, he, hq.buffer, received_append, received_eq_nil hes, List.append_nil]
    refine ⟨[], ?_, ?_⟩ <;> unfold Session.step <;> simp only
    · split <;> rfl
    · split <;> rename_i heq <;> rw [heq] at hr <;> exact hr
  | call env call h => exact ⟨[], rfl, receiver_step t.stream env h⟩

/-- A run feeds chunks from the front of the supply. -/
theorem run_feeds (ops : List Op) : ∀ t : Session,
    ∃ fed, t.supply = fed ++ (t.run ops).supply ∧
      receiver (t.run ops).stream = (fed.map Chunk.data).foldl (Receiver.feed frameParser) (receiver t.stream) := by
  induction ops with
  | nil => exact fun t => ⟨[], rfl, rfl⟩
  | cons op ops ih =>
    intro t
    obtain ⟨fed, hsupply, hr⟩ := t.step_feeds op
    obtain ⟨fed', hsupply', hr'⟩ := ih (t.step op)
    refine ⟨fed ++ fed', ?_, ?_⟩
    · rw [hsupply, hsupply', List.append_assoc]; rfl
    · rw [List.map_append, List.foldl_append, ← hr]; exact hr'

/-- The frames that a run has handed to `stream_mqtt_handle_received_frame`. -/
def handed (t : Session) (ops : List Op) : List Frame :=
  (received (t.run ops).stream.trace).drop (received t.stream.trace).length

end Session

/-! ## Independence of the chunks -/

/-- The frames of some chunks, as the receiver's loop recognises them. -/
def reassembled (chunks : List Bytes) : List Frame :=
  (chunks.foldl (Receiver.feed frameParser) .start).frames

/-- A run from an empty buffer that has consumed the supply has handed over its frames. -/
theorem handed_consumed {t : Session} {ops : List Op} (hempty : t.stream.buffer = [])
    (hend : (t.run ops).supply = []) : t.handed ops = reassembled (t.supply.map Chunk.data) := by
  obtain ⟨fed, hsupply, hr⟩ := t.run_feeds ops
  rw [hend, List.append_nil] at hsupply
  rw [Framing.foldl_feed_frames] at hr
  have hframes := congrArg Receiver.frames hr
  simp only [receiver, hempty] at hframes
  rw [Session.handed, hframes, List.drop_left, hsupply]
  rfl

/-- Two runs over the same bytes, from empty buffers, with whatever calls in between: both hand over
first the frames up to the first invalid remaining length; if there is none they hand over the
same frames; and a chunk with an invalid remaining length is thrown away behind its last good
frame, after which the frames are those of the chunks behind it. -/
theorem handed_ofBytes {t u : Session} {ops ops' : List Op} (ht : t.stream.buffer = []) (hu : u.stream.buffer = [])
    (hbytes : t.bytes = u.bytes) (hendt : (t.run ops).supply = []) (hendu : (u.run ops').supply = []) :
    framesOf t.bytes <+: t.handed ops ∧ framesOf t.bytes <+: u.handed ops' ∧
      (WellFramed t.bytes → t.handed ops = u.handed ops') ∧
      ∀ before cut behind, t.supply.map Chunk.data = before ++ cut :: behind →
        WellFramed before.flatten → ¬ WellFramed (before.flatten ++ cut) →
        t.handed ops = framesOf t.bytes ++ reassembled behind := by
  rw [handed_consumed ht hendt, handed_consumed hu hendu]
  have clean : ∀ chunks : List Bytes, WellFramed chunks.flatten → reassembled chunks = framesOf chunks.flatten := by
    intro chunks h
    rw [reassembled, Framing.foldl_feed_clean frameParser_stable chunks h]
    rfl
  refine ⟨Framing.foldl_feed_prefix frameParser_stable _, ?_, fun hwell => ?_, fun before cut behind hs hwell hbad => ?_⟩
  · rw [hbytes]
    exact Framing.foldl_feed_prefix frameParser_stable _
  · rw [clean _ hwell, clean _ (show WellFramed u.bytes from hbytes ▸ hwell)]
    exact congrArg framesOf hbytes
  · have hbad' : (drain frameParser (before.flatten ++ cut)).bad = true := by
      simpa [WellFramed] using hbad
    have hflat : t.bytes = (before.flatten ++ cut) ++ behind.flatten := by
      rw [Session.bytes, hs]; simp
    rw [hs, reassembled, Framing.foldl_feed_bad frameParser_stable before cut behind hwell hbad', hflat, framesOf,
      Framing.drain_append_bad frameParser_stable _ _ hbad']
    rfl

/-- One read's chunk. -/
def Chunk.ofBytes (data : Bytes) (h : data ≠ [] ∧ data.length ≤ mqttMessageBufferSize) : Chunk := ⟨data, h.1, h.2⟩

/-- A fresh stream before its first byte. -/
def Session.start (supply : List Chunk) : Session := ⟨streamMqttInit, supply, []⟩

/-- Peek while there is something to read. -/
def peekAll (rounds : Nat) : List Op := List.replicate rounds (.peek (Env.at 0) 8 .again)

/-- A CONNACK, cut in two. -/
theorem handed_ofBytes_connack :
    let t := Session.start [.ofBytes [0x20, 2, 0, 0] (by decide)]
    let u := Session.start [.ofBytes [0x20, 2] (by decide), .ofBytes [0, 0] (by decide)]
    t.handed (peekAll 1) = u.handed (peekAll 1) := by
  intro t u
  obtain ⟨-, -, h, -⟩ := @handed_ofBytes t u (peekAll 1) (peekAll 1) rfl rfl
    (by decide +kernel) (by decide +kernel) (by decide +kernel)
  refine h ?_
  have hproper : ∀ f ∈ [Frame.mk 2 0 [0, 0]], f.Proper := by
    intro f hf
    rw [List.mem_singleton] at hf
    subst hf
    constructor <;> decide
  exact congrArg Framing.Drained.bad (drain_format hproper)

/-- Six bytes without a valid remaining length and a CONNACK: in one chunk the CONNACK is thrown
away with them, in a chunk of its own it is handed over. -/
theorem handed_lost :
    let t := Session.start [.ofBytes [0x20, 0xFF, 0xFF, 0xFF, 0xFF, 0xFF, 0x20, 2, 0, 0] (by decide)]
    let u := Session.start [.ofBytes [0x20, 0xFF, 0xFF, 0xFF, 0xFF, 0xFF] (by decide), .ofBytes [0x20, 2, 0, 0] (by decide)]
    t.bytes = u.bytes ∧ (t.run (peekAll 1)).supply = [] ∧ (u.run (peekAll 1)).supply = [] ∧
      t.handed (peekAll 1) = [] ∧ u.handed (peekAll 1) = [⟨2, 0, [0, 0]⟩] := by
  decide +kernel

end CMx.Mqtt
