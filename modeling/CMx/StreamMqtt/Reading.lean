/-
Reading without an observer: however the bytes of valid frames are cut into chunks, and in whatever
order the application peeks and reads, the frames it reads are those that the byte stream has for
it, in order, and the reassembly buffer is empty in the end.
-/
import CMx.StreamMqtt.Incoming
import CMx.StreamMqtt.Reassembly

namespace CMx.Mqtt

open Framing (Receiver)

/-! ## What a byte stream has for the application -/

def MqttFrameItem.read (item : MqttFrameItem) : ReadFrame := ⟨item.type, item.flags, item.buffer⟩

/-- The items that a frame leaves in the incoming queue, behind the frames `past`: the frame itself,
a dummy byte for a DISCONNECT, and for a PUBREL the QoS 2 PUBLISH that it releases. -/
def appItems (past : List Frame) (f : Frame) : List MqttFrameItem :=
  match MqttPacketType.ofByte f.type with
  | some .connect => [mqttFrameItemNew .connect f.flags 0 f.body]
  | some .connack => [mqttFrameItemNew .connack f.flags 0 f.body]
  | some .subscribe => [mqttFrameItemNew .subscribe f.flags 0 f.body]
  | some .unsubscribe => [mqttFrameItemNew .unsubscribe f.flags 0 f.body]
  | some .suback => [mqttFrameItemNew .suback f.flags 0 f.body]
  | some .unsuback => [mqttFrameItemNew .unsuback f.flags 0 f.body]
  | some .publish =>
    if mqttQosFromFlags f.flags = mqttQos2 then [] else [mqttFrameItemNew .publish f.flags 0 f.body]
  | some .pubrel => (latestPublish past f.packetId).toList
  | some .disconnect => [mqttFrameItemNew .disconnect f.flags 0 [0]]
  | _ => []

/-- What the frames `fs` have for the application, behind the frames `past`. -/
def appFrames (past : List Frame) : List Frame → List ReadFrame
  | [] => []
  | f :: fs => (appItems past f).map MqttFrameItem.read ++ appFrames (past ++ [f]) fs

theorem appFrames_append : ∀ (past fs fs' : List Frame),
    appFrames past (fs ++ fs') = appFrames past fs ++ appFrames (past ++ fs) fs'
  | past, [], fs' => by simp [appFrames]
  | past, f :: fs, fs' => by
    rw [List.cons_append, appFrames, appFrames, appFrames_append, List.append_assoc, List.append_assoc]
    rfl

theorem appFrames_concat (fs : List Frame) (f : Frame) :
    appFrames [] (fs ++ [f]) = appFrames [] fs ++ (appItems fs f).map MqttFrameItem.read := by
  rw [appFrames_append, List.nil_append, appFrames, appFrames, List.append_nil]

/-! ## One frame -/

section Handle

variable (env : Env) {s : StreamMqtt} {header : MqttFixedHeader} {body : Mem}

/-- Without an observer all that is forwarded or released is queued. -/
theorem arrivals_none (hobserver : s.mqttObserver = none) (i : InboundInv s)
    (hv : (recorded header body).valid = true) :
    arrivals env s header body = appItems (received s.trace) (recorded header body) := by
  have htakes : ∀ es note, s.takes es note = false := by
    intro es note
    rw [StreamMqtt.takes, hobserver]
    rfl
  unfold arrivals forwardedNote appItems
  rw [show (recorded header body).type = header.type from rfl]
  simp only [htakes, Bool.not_false, Bool.and_true]
  cases ht : MqttPacketType.ofByte header.type with
  | none => rfl
  | some type =>
    cases type with
    | pubrel =>
      have hid : shortAt body 0 = (recorded header body).packetId := packetId_eq ht rfl hv
      obtain ⟨-, hunder⟩ := Slots.foldl_apply_spec MqttFrameItem.id (slotOps (received s.trace))
      rw [← i.slots] at hunder
      simp only [latestPublish, ← hunder, ← hid]
      rfl
    | publish =>
      simp only [show (recorded header body).flags = header.flags from rfl]
      by_cases hq2 : mqttQosFromFlags header.flags = mqttQos2
      · rw [if_pos hq2, if_pos hq2]
      · rw [if_neg hq2, if_neg hq2]
        by_cases hq1 : mqttQosFromFlags header.flags = mqttQos1
        · rw [if_pos hq1]
          rfl
        · rw [if_neg hq1]
          rfl
    | _ => rfl

/-- Which items a valid frame puts behind the incoming queue. -/
theorem incoming_handle (hobserver : s.mqttObserver = none) (i : InboundInv s)
    (hv : (recorded header body).valid = true) :
    (streamMqttHandleReceivedFrame env s header body).incoming =
      s.incoming ++ appItems (received s.trace) (recorded header body) := by
  obtain ⟨hnodup, -⟩ := Slots.foldl_apply_spec MqttFrameItem.id (slotOps (received s.trace))
  rw [← i.slots] at hnodup
  rw [handle_adds env ⟨i.publishes, hnodup⟩, arrivals_none env hobserver i hv]

end Handle

/-! ## Peeks and reads -/

/-- A stream without an observer that has received valid frames: what has been read and what is
waiting is what those frames have for the application. -/
structure ReadInv (returned : List ReadFrame) (s : StreamMqtt) : Prop where
  observer : s.mqttObserver = none
  inbound : InboundInv s
  frames : returned ++ s.incoming.map MqttFrameItem.read = appFrames [] (received s.trace)

theorem ReadInv.handle {returned : List ReadFrame} {s : StreamMqtt} (i : ReadInv returned s) (env : Env)
    {header : MqttFixedHeader} {body : Mem} (hv : (recorded header body).valid = true) :
    ReadInv returned (streamMqttHandleReceivedFrame env s header body) := by
  refine ⟨(handle_frame env s header body).2.1.trans i.observer, inboundInv_handle env i.inbound hv, ?_⟩
  rw [incoming_handle env i.observer i.inbound hv, handle_received, appFrames_concat, List.map_append,
    ← List.append_assoc, i.frames]

/-- As long as every received body is valid. -/
def Reads (t : Session) : Prop :=
  (∀ f ∈ received t.stream.trace, f.valid = true) → ReadInv t.returned t.stream

theorem reads_loops {returned : List ReadFrame} {s s' : StreamMqtt} (h : Loops s s') :
    ((∀ f ∈ received s.trace, f.valid = true) → ReadInv returned s) →
      (∀ f ∈ received s'.trace, f.valid = true) → ReadInv returned s' := by
  refine h.inv (P := fun s => (∀ f ∈ received s.trace, f.valid = true) → ReadInv returned s) ?_ ?_
  · intro s env header body ih hv
    rw [handle_received] at hv
    exact (ih fun f hf => hv f (List.mem_append_left _ hf)).handle env (hv _ (by simp))
  · intro s buffer ih hv
    obtain ⟨hobserver, hinbound, hframes⟩ := ih hv
    exact ⟨hobserver, hinbound.congr rfl rfl, hframes⟩

/-- A peek or a read. -/
def Op.isReading : Op → Bool
  | .peek .. | .read _ => true
  | .call .. => false

theorem reads_step {t : Session} (h : Reads t) {op : Op} (hop : op.isReading = true) : Reads (t.step op) := by
  cases op with
  | call env call _ => cases hop
  | peek env available last => exact reads_loops (loops_peekFrame env t.stream (t.supply.take available) last) h
  | read length =>
    unfold Session.step streamMqttReadFrame
    cases hin : t.stream.incoming with
    | nil => exact h
    | cons item incoming =>
      simp only
      by_cases hlen : item.buffer.length > length
      · -- the buffer is too small, and nothing is taken
        rw [if_pos hlen]
        exact h
      · rw [if_neg hlen]
        intro hv
        obtain ⟨hobserver, hinbound, hframes⟩ := h hv
        refine ⟨hobserver, hinbound.congr rfl rfl, ?_⟩
        rw [hin, List.map_cons] at hframes
        rw [List.append_assoc]
        exact hframes

theorem reads_run {t : Session} (h : Reads t) {ops : List Op} (hops : ∀ op ∈ ops, op.isReading = true) :
    Reads (t.run ops) :=
  List.foldlRecOn ops _ h fun _ ht op hm => reads_step ht (hops op hm)

/-- However the bytes of valid frames arrive, and in whatever order the application peeks and
reads, with buffers of any size: the frames read are those that the byte stream has for it, in
order and each once, up to some point; and when all bytes are consumed the reassembly buffer is
empty, and the frames read and those still waiting are all of them. -/
theorem read_exactly {fs : List Frame} (hproper : ∀ f ∈ fs, f.Proper) (hvalid : ∀ f ∈ fs, f.valid = true)
    {supply : List Chunk} (hbytes : (Session.start supply).bytes = fs.flatMap Frame.format) {ops : List Op}
    (hops : ∀ op ∈ ops, op.isReading = true) :
    let t := (Session.start supply).run ops
    t.returned <+: appFrames [] fs ∧
      (t.supply = [] → t.stream.buffer = [] ∧
        t.returned ++ t.stream.incoming.map MqttFrameItem.read = appFrames [] fs) := by
  intro t
  obtain ⟨fed, hsupply, hr⟩ : ∃ fed, supply = fed ++ t.supply ∧ receiver t.stream =
      (fed.map Chunk.data).foldl (Receiver.feed frameParser) .start := (Session.start supply).run_feeds ops
  have hdrain := drain_format hproper
  rw [← hbytes, Session.bytes, show (Session.start supply).supply = _ from hsupply, List.map_append,
    List.flatten_append] at hdrain
  -- the bytes consumed so far are those of some frames in front and a part of the next one
  have hclean := Framing.drain_clean_prefix frameParser_stable _ (fed.map Chunk.data).flatten (by rw [hdrain])
  rw [Framing.foldl_feed_clean frameParser_stable (fed.map Chunk.data) hclean, receiver,
    Receiver.mk.injEq] at hr
  obtain ⟨hreceived, hbuffer⟩ := hr
  have hfront := Framing.drain_frames_prefix frameParser_stable (t.supply.map Chunk.data).flatten
    (fed.map Chunk.data).flatten
  rw [hdrain, ← hreceived] at hfront
  obtain ⟨-, -, hframes⟩ : ReadInv t.returned t.stream :=
    reads_run (fun _ => ⟨rfl, ⟨rfl, by simp [Session.start, streamMqttInit]⟩, rfl⟩) hops
      fun f hf => hvalid f (hfront.subset hf)
  refine ⟨?_, fun hend => ?_⟩
  · obtain ⟨behind, rfl⟩ : received t.stream.trace <+: fs := hfront
    rw [appFrames_append, ← hframes, List.append_assoc]
    exact List.prefix_append _ _
  · rw [hend, List.map_nil, List.flatten_nil, List.append_nil] at hdrain
    rw [hdrain] at hreceived hbuffer
    exact ⟨hbuffer, by rw [hframes, hreceived]⟩

/-- A CONNACK, a QoS 2 PUBLISH and its PUBREL in three chunks, read with a buffer that is too small
at first. -/
theorem read_exactly_publish :
    let connack : Frame := ⟨2, 0, [0, 0]⟩
    let publish : Frame := ⟨3, 4, [0, 1, 0x61, 0, 7, 0x78]⟩
    let supply : List Chunk := [.ofBytes [0x20, 2, 0] (by decide), .ofBytes [0, 0x34, 6, 0, 1] (by decide),
      .ofBytes [0x61, 0, 7, 0x78, 0x62, 2, 0, 7] (by decide)]
    let ops : List Op := [.peek (Env.at 0) 2 .again, .read 1, .read 2, .peek (Env.at 0) 1 .again, .read 6]
    ((Session.start supply).run ops).returned = [⟨.connack, 0, connack.body⟩, ⟨.publish, 4, publish.body⟩] := by
  intro connack publish supply ops
  have hproper : ∀ f ∈ [connack, publish, ⟨6, 2, [0, 7]⟩], f.Proper := by
    intro f hf
    simp only [List.mem_cons, List.not_mem_nil, or_false] at hf
    rcases hf with rfl | rfl | rfl <;> constructor <;> decide
  obtain ⟨-, hend⟩ := @read_exactly _ hproper (by decide +kernel) supply (by decide +kernel) ops (by decide)
  obtain ⟨-, hall⟩ := hend (by decide +kernel)
  rw [show ((Session.start supply).run ops).stream.incoming = [] by decide +kernel, List.map_nil,
    List.append_nil] at hall
  rw [hall]
  decide +kernel

end CMx.Mqtt
