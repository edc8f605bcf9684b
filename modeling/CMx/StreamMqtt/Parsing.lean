/-
The inner loop of `stream_mqtt_peek_frame`: every round that does not stop takes a frame off the buffer or
empties it, so the loop ends, and what it leaves is no whole frame, nor the front of one that could be
parsed without more data.
-/
import CMx.Lib.Loop
import CMx.StreamMqtt.Reassembly

namespace CMx.Mqtt

open Framing (Receiver)

/-! ## A round -/

/-- One iteration of the loop, without a result where the loop stops. -/
def streamMqttParseRound (env : Env) (s : StreamMqtt) : Option StreamMqtt :=
  if s.buffer.isEmpty then none
  else
    match mqttParseFrame s.buffer with
    | .more _ => none
    | .error => some { s with buffer := [] }
    | .frame bodyOffset frame frameLength =>
      let body := memOf (s.buffer.drop bodyOffset) (env.stale s.trace.length)
      let s := streamMqttHandleReceivedFrame env s frame body
      some { s with buffer := s.buffer.drop frameLength }

/-- A frame has a type and a length. -/
theorem two_le_frameLength {data : Bytes} {bodyOffset : Nat} {header : MqttFixedHeader} {frameLength : Nat}
    (h : mqttParseFrame data = .frame bodyOffset header frameLength) : 2 ≤ frameLength := by
  obtain ⟨-, -, n, -, -, -, hpos, rfl, -, rfl, -⟩ := mqttParseFrame_frame h
  omega

/-- A round that does not stop removes at least two bytes, or empties the buffer. -/
theorem streamMqttParseRound_shrinks {env : Env} {s s' : StreamMqtt} (h : streamMqttParseRound env s = some s') :
    s'.buffer = [] ∨ s'.buffer.length + 2 ≤ s.buffer.length := by
  unfold streamMqttParseRound at h
  split at h
  · cases h
  · cases hp : mqttParseFrame s.buffer with
    | more n => rw [hp] at h; cases h
    | error =>
      rw [hp] at h
      cases h
      exact .inl rfl
    | frame bodyOffset frame frameLength =>
      have htwo := two_le_frameLength hp
      obtain ⟨-, -, hle, -⟩ := mqttParseFrame_spec hp
      rw [hp] at h
      cases h
      refine .inr ?_
      rw [(handle_frame env s frame _).1, List.length_drop]
      omega

/-- So it makes the buffer shorter. -/
theorem streamMqttParseRound_less {env : Env} (s s' : StreamMqtt) (h : streamMqttParseRound env s = some s') :
    s'.buffer.length < s.buffer.length := by
  have hne : s.buffer ≠ [] := by
    intro hnil
    rw [streamMqttParseRound, hnil] at h
    cases h
  have hpos := List.length_pos_iff.2 hne
  rcases streamMqttParseRound_shrinks h with hempty | hshort
  · rw [hempty]
    exact hpos
  · omega

/-! ## The loop -/

theorem streamMqttParseLoop_eq (env : Env) : ∀ (n : Nat) (s : StreamMqtt),
    streamMqttParseLoop env n s = Loop.rounds (streamMqttParseRound env) n s
  | 0, s => rfl
  | n + 1, s => by
    have ih := streamMqttParseLoop_eq env n
    unfold streamMqttParseLoop Loop.rounds streamMqttParseRound
    by_cases hempty : s.buffer.isEmpty
    · rw [if_pos hempty, if_pos hempty]
    · rw [if_neg hempty, if_neg hempty]
      cases hp : mqttParseFrame s.buffer with
      | more n => rfl
      | error => exact ih _
      | frame bodyOffset frame frameLength => exact ih _

/-- The loop ends in every state, where the bounded loop ends. -/
theorem eval_streamMqttParseRound (env : Env) (s : StreamMqtt) :
    StateTransition.eval (streamMqttParseRound env) s = Part.some (streamMqttParseLoop env s.buffer.length s) := by
  rw [streamMqttParseLoop_eq]
  exact Loop.eval_eq_rounds streamMqttParseRound_less (le_refl _)

/-! ## Between the calls -/

theorem frameParser_more {data : Bytes} (h : frameParser data = .more) : ∃ hint, mqttParseFrame data = .more hint := by
  unfold frameParser at h
  cases hp : mqttParseFrame data with
  | more hint => exact ⟨hint, rfl⟩
  | error => rw [hp] at h; cases h
  | frame bodyOffset header frameLength => rw [hp] at h; cases h

/-- A fresh stream that has read some chunks and keeps what they leave. -/
theorem frameParser_run (supply : List Chunk) (ops : List Op) :
    frameParser ((Session.start supply).run ops).stream.buffer = .more := by
  obtain ⟨fed, -, hr⟩ := (Session.start supply).run_feeds ops
  have hmore := Framing.parse_foldl_feed frameParser_stable
    (show frameParser (receiver (Session.start supply).stream).buffer = .more from rfl) (fed.map Chunk.data)
  rw [← hr] at hmore
  exact hmore

/-- The frames of the bytes that have been read, up to their first invalid remaining length, have been handed over. -/
theorem framesOf_prefix_received (supply : List Chunk) (ops : List Op) :
    ∃ fed, supply = fed ++ ((Session.start supply).run ops).supply ∧
      framesOf (fed.map Chunk.data).flatten <+: received ((Session.start supply).run ops).stream.trace := by
  obtain ⟨fed, hsupply, hr⟩ := (Session.start supply).run_feeds ops
  refine ⟨fed, hsupply, ?_⟩
  have hframes : received ((Session.start supply).run ops).stream.trace =
      ((fed.map Chunk.data).foldl (Receiver.feed frameParser) .start).frames := congrArg Receiver.frames hr
  rw [hframes]
  exact Framing.foldl_feed_prefix frameParser_stable _

/-- For any chunks that arrive and any calls of the application: between the calls the buffer is empty or a
string at which the parser wants more data, with no whole frame at its front, and the frames of what has been
read have been handed over. And in every state a round that does not stop removes at least two bytes or empties
the buffer, and the loop ends. -/
theorem streamMqttPeekFrame_parses (supply : List Chunk) (ops : List Op) :
    let t := (Session.start supply).run ops
    (t.stream.buffer = [] ∨ ∃ hint, mqttParseFrame t.stream.buffer = .more hint) ∧
      (∀ (f : Frame) (rest : Bytes), f.Proper → t.stream.buffer ≠ f.format ++ rest) ∧
      (∃ fed, supply = fed ++ t.supply ∧ framesOf (fed.map Chunk.data).flatten <+: received t.stream.trace) ∧
      ∀ (env : Env) (s : StreamMqtt),
        (∀ s', streamMqttParseRound env s = some s' → s'.buffer = [] ∨ s'.buffer.length + 2 ≤ s.buffer.length) ∧
          StateTransition.eval (streamMqttParseRound env) s =
            Part.some (streamMqttParseLoop env s.buffer.length s) := by
  intro t
  have hmore : frameParser t.stream.buffer = .more := frameParser_run supply ops
  refine ⟨.inr (frameParser_more hmore), fun f rest hproper hbuffer => ?_, framesOf_prefix_received supply ops, ?_⟩
  · rw [hbuffer, frameParser_format hproper] at hmore
    cases hmore
  · intro env s
    exact ⟨fun s' => streamMqttParseRound_shrinks, eval_streamMqttParseRound env s⟩

/-- A PINGRESP and the front of a CONNACK: the one has been handed over, of the other a byte is missing. -/
theorem streamMqttPeekFrame_parses_cut :
    let t := (Session.start [.ofBytes [0xD0, 0, 0x20, 2, 0] (by decide)]).run (peekAll 1)
    let s : StreamMqtt := { streamMqttInit with buffer := [0xD0, 0, 0x20, 2, 0] }
    t.stream.buffer = [0x20, 2, 0] ∧ (∀ rest, t.stream.buffer ≠ (Frame.mk 2 0 [0, 0]).format ++ rest) ∧
      ∃ s', streamMqttParseRound (Env.at 0) s = some s' ∧ (s'.buffer = [] ∨ s'.buffer.length + 2 ≤ 5) := by
  intro t s
  obtain ⟨-, hnone, -, hround⟩ := streamMqttPeekFrame_parses [.ofBytes [0xD0, 0, 0x20, 2, 0] (by decide)] (peekAll 1)
  refine ⟨by decide +kernel, fun rest => ?_, _, rfl, ?_⟩
  · exact hnone _ rest ⟨by decide, by decide, by decide⟩
  · exact (hround (Env.at 0) s).1 _ rfl

end CMx.Mqtt
