/-
Incremental framing of a byte stream, for any alphabet and any parser: a parser that looks at the
front of a buffer and either asks for more, rejects the buffer or recognises one frame of a known
length. Draining a buffer takes frames off its front until the parser stops. When a verdict never
changes as more input arrives (`Parser.Stable`), the frames drained from a stream do not depend on
where the stream was cut into chunks, up to the first rejected buffer.
-/
import Mathlib.Tactic

namespace Framing

variable {α β : Type}

/-! ## Parsers of one frame -/

/-- What a parser says about the front of a buffer. -/
inductive Verdict (β : Type) where
  | more
  | bad
  | frame (value : β) (length : Nat)

/-- A parser of one frame at the front of a buffer. -/
abbrev Parser (α β : Type) := List α → Verdict β

/-- A verdict other than "more" is about a prefix: it stays when more input arrives behind it, and
a recognised frame is nonempty and lies in the buffer. -/
structure Parser.Stable (parse : Parser α β) : Prop where
  nil : parse [] = .more
  pos : ∀ {xs b n}, parse xs = .frame b n → 0 < n
  le : ∀ {xs b n}, parse xs = .frame b n → n ≤ xs.length
  frame_append : ∀ {xs b n} (ys : List α), parse xs = .frame b n → parse (xs ++ ys) = .frame b n
  bad_append : ∀ {xs} (ys : List α), parse xs = .bad → parse (xs ++ ys) = .bad

/-! ## Draining a buffer -/

/-- The frames taken off a buffer, what is left of it, and whether the parser rejected it. -/
structure Drained (α β : Type) where
  frames : List β
  rest : List α
  bad : Bool

/-- Take frames off the front of a buffer while the parser recognises one; a rejected buffer is
thrown away. A frame of length zero would not shorten the buffer, so it counts as a rejection. -/
def drain (parse : Parser α β) (xs : List α) : Drained α β :=
  match parse xs with
  | .more => ⟨[], xs, false⟩
  | .bad => ⟨[], [], true⟩
  | .frame b n =>
    if _h : 0 < n ∧ n ≤ xs.length then
      let r := drain parse (xs.drop n)
      ⟨b :: r.frames, r.rest, r.bad⟩
    else ⟨[], [], true⟩
termination_by xs.length
decreasing_by simp only [List.length_drop]; omega

section Stable

variable {parse : Parser α β}

theorem drain_more {xs : List α} (h : parse xs = .more) : drain parse xs = ⟨[], xs, false⟩ := by
  rw [drain, h]

theorem drain_bad {xs : List α} (h : parse xs = .bad) : drain parse xs = ⟨[], [], true⟩ := by
  rw [drain, h]

theorem drain_frame (hp : Parser.Stable parse) {xs : List α} {b : β} {n : Nat} (h : parse xs = .frame b n) :
    drain parse xs = ⟨b :: (drain parse (xs.drop n)).frames, (drain parse (xs.drop n)).rest,
      (drain parse (xs.drop n)).bad⟩ := by
  rw [drain, h]
  simp only [hp.pos h, hp.le h, and_self, dite_true]

/-- Induction along the frames of a buffer. -/
theorem drain_induction (hp : Parser.Stable parse) {P : List α → Prop}
    (more : ∀ xs, parse xs = .more → P xs) (bad : ∀ xs, parse xs = .bad → P xs)
    (frame : ∀ xs b n, parse xs = .frame b n → P (xs.drop n) → P xs) (xs : List α) : P xs := by
  induction hn : xs.length using Nat.strong_induction_on generalizing xs with
  | _ len ih =>
    cases h : parse xs with
    | more => exact more xs h
    | bad => exact bad xs h
    | frame b n =>
      have hpos := hp.pos h
      have hle := hp.le h
      exact frame xs b n h (ih _ (by rw [← hn, List.length_drop]; omega) _ rfl)

/-- Input that arrives behind a cleanly drained buffer: the frames are those of the buffer, then
those of what was left together with the new input. -/
theorem drain_append (hp : Parser.Stable parse) (ys xs : List α) (hx : (drain parse xs).bad = false) :
    drain parse (xs ++ ys) =
      ⟨(drain parse xs).frames ++ (drain parse ((drain parse xs).rest ++ ys)).frames,
        (drain parse ((drain parse xs).rest ++ ys)).rest,
        (drain parse ((drain parse xs).rest ++ ys)).bad⟩ := by
  induction xs using drain_induction hp with
  | more xs h => rw [drain_more h]; simp
  | bad xs h => rw [drain_bad h] at hx; cases hx
  | frame xs b n h ih =>
    rw [drain_frame hp h] at hx ⊢
    have hd : (xs ++ ys).drop n = xs.drop n ++ ys := List.drop_append_of_le_length (hp.le h)
    rw [drain_frame hp (hp.frame_append ys h), hd, ih hx]
    rfl

/-- At what is left of a buffer the parser asks for more. -/
theorem parse_rest (hp : Parser.Stable parse) (xs : List α) : parse (drain parse xs).rest = .more := by
  induction xs using drain_induction hp with
  | more xs h => rw [drain_more h, h]
  | bad xs h => rw [drain_bad h, hp.nil]
  | frame xs b n h ih =>
    rw [drain_frame hp h]
    exact ih

/-- So what is left holds no whole frame. -/
theorem drain_rest (hp : Parser.Stable parse) (xs : List α) :
    drain parse (drain parse xs).rest = ⟨[], (drain parse xs).rest, false⟩ := drain_more (parse_rest hp xs)

/-- Input behind a rejected buffer changes neither the frames before the rejection nor it. -/
theorem drain_append_bad (hp : Parser.Stable parse) (ys xs : List α) (hx : (drain parse xs).bad = true) :
    drain parse (xs ++ ys) = drain parse xs := by
  induction xs using drain_induction hp with
  | more xs h => rw [drain_more h] at hx; cases hx
  | bad xs h => rw [drain_bad h, drain_bad (hp.bad_append ys h)]
  | frame xs b n h ih =>
    rw [drain_frame hp h] at hx ⊢
    have hd : (xs ++ ys).drop n = xs.drop n ++ ys := List.drop_append_of_le_length (hp.le h)
    rw [drain_frame hp (hp.frame_append ys h), hd, ih hx]

/-- A rejection leaves nothing in the buffer. -/
theorem drain_bad_rest (hp : Parser.Stable parse) (xs : List α) (hx : (drain parse xs).bad = true) :
    (drain parse xs).rest = [] := by
  induction xs using drain_induction hp with
  | more xs h => rw [drain_more h] at hx; cases hx
  | bad xs h => rw [drain_bad h]
  | frame xs b n h ih =>
    rw [drain_frame hp h] at hx ⊢
    exact ih hx

/-- A prefix of a clean stream is clean. -/
theorem drain_clean_prefix (hp : Parser.Stable parse) (ys xs : List α)
    (h : (drain parse (xs ++ ys)).bad = false) : (drain parse xs).bad = false := by
  cases hx : (drain parse xs).bad
  · rfl
  · rw [drain_append_bad hp ys xs hx, hx] at h; cases h

/-- The frames of a prefix come first. -/
theorem drain_frames_prefix (hp : Parser.Stable parse) (ys xs : List α) :
    (drain parse xs).frames <+: (drain parse (xs ++ ys)).frames := by
  cases hx : (drain parse xs).bad
  · rw [drain_append hp ys xs hx]; exact List.prefix_append _ _
  · rw [drain_append_bad hp ys xs hx]

end Stable

/-! ## Receiving in chunks -/

/-- A receiver: the frames it has recognised so far and the buffer it keeps. -/
structure Receiver (α β : Type) where
  frames : List β
  buffer : List α

/-- A chunk arrives: it goes behind the buffer, and the buffer is drained. -/
def Receiver.feed (parse : Parser α β) (r : Receiver α β) (chunk : List α) : Receiver α β :=
  ⟨r.frames ++ (drain parse (r.buffer ++ chunk)).frames, (drain parse (r.buffer ++ chunk)).rest⟩

/-- The receiver that has seen nothing. -/
def Receiver.start : Receiver α β := ⟨[], []⟩

section Receiver

variable {parse : Parser α β}

/-- A receiver that has received a clean stream holds exactly its drain, however it was cut. -/
theorem foldl_feed_clean (hp : Parser.Stable parse) (chunks : List (List α)) :
    (drain parse chunks.flatten).bad = false →
      chunks.foldl (Receiver.feed parse) .start =
        ⟨(drain parse chunks.flatten).frames, (drain parse chunks.flatten).rest⟩ := by
  induction chunks using List.reverseRecOn with
  | nil => intro _; simp [drain_more hp.nil, Receiver.start]
  | append_singleton chunks c ih =>
    intro h
    have hflat : (chunks ++ [c]).flatten = chunks.flatten ++ c := by simp
    rw [hflat] at h ⊢
    have hclean := drain_clean_prefix hp c chunks.flatten h
    rw [List.foldl_append, ih hclean, drain_append hp c _ hclean]
    rfl

/-- Whatever the cut, the frames of the stream up to its first rejection come first. -/
theorem foldl_feed_prefix (hp : Parser.Stable parse) (chunks : List (List α)) :
    (drain parse chunks.flatten).frames <+: (chunks.foldl (Receiver.feed parse) .start).frames := by
  induction chunks using List.reverseRecOn with
  | nil => simp [drain_more hp.nil, Receiver.start]
  | append_singleton chunks c ih =>
    have hflat : (chunks ++ [c]).flatten = chunks.flatten ++ c := by simp
    rw [hflat, List.foldl_append]
    cases hx : (drain parse chunks.flatten).bad
    · rw [foldl_feed_clean hp chunks hx, drain_append hp c _ hx]
      exact List.prefix_refl _
    · rw [drain_append_bad hp c _ hx]
      exact ih.trans (List.prefix_append _ _)

/-- Frames recognised earlier stay in front. -/
theorem foldl_feed_frames (chunks : List (List α)) (r : Receiver α β) :
    chunks.foldl (Receiver.feed parse) r =
      ⟨r.frames ++ (chunks.foldl (Receiver.feed parse) ⟨[], r.buffer⟩).frames,
        (chunks.foldl (Receiver.feed parse) ⟨[], r.buffer⟩).buffer⟩ := by
  induction chunks using List.reverseRecOn with
  | nil => simp
  | append_singleton chunks c ih =>
    rw [List.foldl_append, List.foldl_append, ih]
    simp [Receiver.feed, List.append_assoc]

/-- The parser asks for more at the buffer that a receiver keeps, whatever has arrived. -/
theorem parse_foldl_feed (hp : Parser.Stable parse) {r : Receiver α β} (h : parse r.buffer = .more)
    (chunks : List (List α)) : parse (chunks.foldl (Receiver.feed parse) r).buffer = .more := by
  induction chunks using List.reverseRecOn with
  | nil => exact h
  | append_singleton chunks c ih =>
    rw [List.foldl_append]
    exact parse_rest hp _

/-- The chunk in which a rejection happens is thrown away behind the frames before it, and the
receiver starts afresh with the next chunk. -/
theorem foldl_feed_bad (hp : Parser.Stable parse) (chunks : List (List α)) (c : List α) (behind : List (List α))
    (hclean : (drain parse chunks.flatten).bad = false) (hbad : (drain parse (chunks.flatten ++ c)).bad = true) :
    ((chunks ++ c :: behind).foldl (Receiver.feed parse) .start).frames =
      (drain parse (chunks.flatten ++ c)).frames ++ (behind.foldl (Receiver.feed parse) .start).frames := by
  have hrest := drain_bad_rest hp _ hbad
  have hcut := drain_append hp c chunks.flatten hclean
  rw [hcut] at hrest
  rw [List.foldl_append, List.foldl_cons, foldl_feed_clean hp chunks hclean, foldl_feed_frames, Receiver.feed, hcut]
  rw [show (drain parse ((drain parse chunks.flatten).rest ++ c)).rest = [] from hrest]
  rfl

end Receiver

/-! ## A channel to a receiver -/

/-- The receiver's buffer holds the beginning of a frame at most, and with the bytes that are on their way to it
it is whole frames. -/
structure Conveys (parse : Parser α β) (buffer channel : List α) (pending : List β) : Prop where
  begun : parse buffer = .more
  drained : drain parse (buffer ++ channel) = ⟨pending, [], false⟩

section Conveys

variable {parse : Parser α β} {buffer channel : List α} {pending : List β}

theorem Conveys.start (hp : Parser.Stable parse) : Conveys parse [] [] [] := ⟨hp.nil, drain_more hp.nil⟩

/-- Whole frames are put on the channel. -/
theorem Conveys.send (hp : Parser.Stable parse) (h : Conveys parse buffer channel pending) {bytes : List α}
    {frames : List β} (hframes : drain parse bytes = ⟨frames, [], false⟩) :
    Conveys parse buffer (channel ++ bytes) (pending ++ frames) := by
  refine ⟨h.begun, ?_⟩
  rw [← List.append_assoc, drain_append hp bytes _ (by rw [h.drained]), h.drained, List.nil_append, hframes]

/-- A chunk comes from the channel: the frames that it completes are the first of those that were pending. -/
theorem Conveys.receive (hp : Parser.Stable parse) {chunk : List α}
    (h : Conveys parse buffer (chunk ++ channel) pending) :
    (drain parse (buffer ++ chunk)).bad = false ∧
      ∃ rest, pending = (drain parse (buffer ++ chunk)).frames ++ rest ∧
        Conveys parse (drain parse (buffer ++ chunk)).rest channel rest := by
  have hall := h.drained
  rw [← List.append_assoc] at hall
  have hclean := drain_clean_prefix hp channel (buffer ++ chunk) (by rw [hall])
  have hsplit := drain_append hp channel _ hclean
  rw [hall] at hsplit
  injection hsplit with hpending hnil hgood
  refine ⟨hclean, _, hpending, parse_rest hp _, ?_⟩
  rw [hnil, hgood]

/-- With nothing on its way, nothing is pending, and the buffer is empty. -/
theorem Conveys.arrived (h : Conveys parse buffer [] pending) : buffer = [] ∧ pending = [] := by
  have hdrained := h.drained
  rw [List.append_nil, drain_more h.begun] at hdrained
  injection hdrained with hframes hrest _
  exact ⟨hrest, hframes.symm⟩

end Conveys

end Framing
