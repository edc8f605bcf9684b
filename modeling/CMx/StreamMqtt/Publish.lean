/-
The bytes of `stream_mqtt_publish`: one frame, from which the parsers read back what was
published. The length of the payload is a `size_t` in the header, but an `unsigned short` where
the payload is copied and where it is parsed, so this is so for payloads below 65536 bytes only.
-/
import CMx.Mqtt.Layout
import CMx.StreamMqtt.State

namespace CMx.Mqtt

/-! ## Fields that were put -/

/-- A short, byte by byte. -/
theorem shortAt_put {m : Mem} {o : Nat} {v : UInt16} (h0 : m o = ((v >>> 8) &&& 0xFF).toUInt8)
    (h1 : m (o + 1) = (v &&& 0xFF).toUInt8) : shortAt m o = v := by
  have hv := v.toNat_lt
  have h255 : ∀ n : Nat, n &&& 255 = n % 256 := fun n => Nat.and_two_pow_sub_one_eq_mod n 8
  have hor : ∀ a b : Nat, b < 2 ^ 8 → a * 2 ^ 8 ||| b = a * 2 ^ 8 + b := by
    intro a b hb
    rw [Nat.mul_comm, ← Nat.two_pow_add_eq_or_of_lt hb]
  have h8 : 2 ^ (8 % 16) = 256 := rfl
  have hhigh : v.toNat / 256 % 256 % 256 * 256 % 2 ^ 16 = v.toNat / 256 * 2 ^ 8 := by omega
  have hlow : v.toNat % 256 % 256 = v.toNat % 256 := by omega
  unfold shortAt
  rw [h0, h1]
  apply UInt16.toNat_inj.1
  simp only [UInt16.toNat_or, UInt16.toNat_shiftLeft, UInt8.toNat_toUInt16, UInt16.toNat_toUInt8, UInt16.toNat_and,
    UInt16.toNat_shiftRight, UInt16.reduceToNat, h255, Nat.shiftRight_eq_div_pow, Nat.shiftLeft_eq]
  rw [h8, hhigh, hlow, hor _ _ (by omega)]
  omega

/-- What lies behind a prefix of the data. -/
theorem memOf_append (pre data : Bytes) (stale : Mem) (i : Nat) :
    memOf (pre ++ data) stale (pre.length + i) = memOf data (fun j => stale (pre.length + j)) i := by
  simp [memOf, List.getElem?_append_right]

theorem shortAt_memOf_append (pre data : Bytes) (stale : Mem) (o : Nat) :
    shortAt (memOf (pre ++ data) stale) (pre.length + o) = shortAt (memOf data fun j => stale (pre.length + j)) o := by
  unfold shortAt
  rw [memOf_append, Nat.add_assoc, memOf_append]

theorem shortAt_mqttPutShort (v : UInt16) (rest : Bytes) (stale : Mem) :
    shortAt (memOf (mqttPutShort v ++ rest) stale) 0 = v :=
  shortAt_put (by simp [memOf, mqttPutShort]) (by simp [memOf, mqttPutShort])

@[simp] theorem length_mqttPutShort (v : UInt16) : (mqttPutShort v).length = 2 := rfl

theorem bytes_memOf (pre data rest : Bytes) (stale : Mem) :
    (memOf (pre ++ (data ++ rest)) stale).bytes pre.length data.length = data := by
  refine List.ext_getElem (by simp [Mem.bytes]) fun i h1 h2 => ?_
  simp only [Mem.bytes, List.getElem_map, List.getElem_range]
  rw [memOf_append]
  simp [memOf, List.getElem?_append_left h2, List.getElem?_eq_getElem h2]

/-- A string of at most 65535 bytes is put with its length. -/
theorem mqttPutString_eq {s : CString} (h : strlen s ≤ 65535) :
    mqttPutString s = mqttPutShort (UInt16.ofNat (strlen s)) ++ s.bytes ∧
      (UInt16.ofNat (strlen s)).toNat = strlen s := by
  have hlen : (UInt16.ofNat (strlen s)).toNat = strlen s := by
    rw [UInt16.toNat_ofNat']; omega
  refine ⟨?_, hlen⟩
  unfold mqttPutString
  simp only
  split
  · rw [mqttPutData, hlen, strlen, List.take_length]
  · rename_i hzero
    have : s.bytes = [] := List.eq_nil_of_length_eq_zero (by unfold strlen at hzero; omega)
    rw [this]

/-! ## Bodies with a topic -/

theorem length_mqttPutString {s : CString} (h : strlen s ≤ 65535) : (mqttPutString s).length = 2 + strlen s := by
  rw [(mqttPutString_eq h).1, List.length_append]
  rfl

theorem length_mqttFormatSubscribe (id : UInt16) {topic : CString} (h : strlen topic ≤ 65535) (qos : UInt8) :
    (mqttFormatSubscribe id topic qos).length = mqttEvalSubscribe topic := by
  unfold mqttFormatSubscribe mqttEvalSubscribe
  rw [List.length_append, List.length_append, length_mqttPutString h]
  rfl

theorem length_mqttFormatUnsubscribe (id : UInt16) {topic : CString} (h : strlen topic ≤ 65535) :
    (mqttFormatUnsubscribe id topic).length = mqttEvalUnsubscribe topic := by
  unfold mqttFormatUnsubscribe mqttEvalUnsubscribe
  rw [List.length_append, length_mqttPutString h]
  rfl

/-! ## Flags -/

/-- The flags of a PUBLISH fit in a nibble and carry its QoS. -/
theorem publishFlags_spec (retain dup : Bool) {qos : UInt8} (h : qos ≤ mqttQos2) :
    publishFlags retain dup qos < 16 ∧ mqttQosFromFlags (publishFlags retain dup qos) = qos := by
  have key : ∀ q : Fin 3, ∀ retain dup : Bool, publishFlags retain dup (UInt8.ofNat q) < 16 ∧
      mqttQosFromFlags (publishFlags retain dup (UInt8.ofNat q)) = UInt8.ofNat q := by decide
  have hlt : qos.toNat < 3 := by
    rw [UInt8.le_iff_toNat_le] at h
    have : mqttQos2.toNat = 2 := rfl
    omega
  have := key ⟨qos.toNat, hlt⟩ retain dup
  simpa using this

/-- Whatever the QoS byte, the flags fit in a nibble. -/
theorem publishFlags_lt (retain dup : Bool) (qos : UInt8) : publishFlags retain dup qos < 16 := by
  have key : ∀ (q : BitVec 8) (retain dup : Bool), publishFlags retain dup ⟨q⟩ < 16 := by decide +kernel
  exact key qos.toBitVec retain dup

/-! ## The body -/

section Body

variable (qos : UInt8) (id : UInt16) (topic : CString) (payload : Bytes)

/-- The id field of a PUBLISH body. -/
def publishIdField : Bytes := if qos > mqttQos0 then mqttPutShort id else []

variable {topic}

theorem mqttFormatPublish_eq (ht : strlen topic ≤ 65535) :
    mqttFormatPublish qos id topic payload =
      mqttPutShort (UInt16.ofNat (strlen topic)) ++ (topic.bytes ++ (publishIdField qos id ++
        payload.take (payload.length % 65536))) := by
  unfold mqttFormatPublish publishIdField mqttPutData
  rw [(mqttPutString_eq ht).1, UInt16.toNat_ofNat']
  simp only [List.append_assoc]

theorem length_publishIdField : (publishIdField qos id).length = if qos > mqttQos0 then 2 else 0 := by
  unfold publishIdField
  split <;> rfl

theorem length_mqttFormatPublish (ht : strlen topic ≤ 65535) :
    (mqttFormatPublish qos id topic payload).length + payload.length =
      mqttEvalPublish qos topic payload.length + payload.length % 65536 := by
  have hmod : payload.length % 65536 ≤ payload.length := Nat.mod_le _ _
  rw [mqttFormatPublish_eq qos id payload ht]
  simp only [List.length_append, length_mqttPutShort, length_publishIdField, List.length_take, mqttEvalPublish,
    mqttStrLengthSize, mqttPacketIdSize, strlen]
  omega

/-- The reach of the fields of a formatted body, its id and its payload. -/
theorem publishReach_format (ht : strlen topic ≤ 65535) (rest : Bytes) (stale : Mem) :
    publishReach (memOf (mqttFormatPublish qos id topic payload ++ rest) stale) qos =
      2 + strlen topic + (publishIdField qos id).length ∧
    shortAt (memOf (mqttFormatPublish qos id topic payload ++ rest) stale) 0 = UInt16.ofNat (strlen topic) ∧
    (qos > mqttQos0 → publishIdAt (memOf (mqttFormatPublish qos id topic payload ++ rest) stale) = id) := by
  have hlen := (mqttPutString_eq ht).2
  rw [mqttFormatPublish_eq qos id payload ht, List.append_assoc]
  have hzero := shortAt_mqttPutShort (UInt16.ofNat (strlen topic))
    ((topic.bytes ++ (publishIdField qos id ++ payload.take (payload.length % 65536))) ++ rest) stale
  refine ⟨?_, hzero, fun hq => ?_⟩
  · rw [publishReach, hzero, hlen, length_publishIdField]
  · rw [publishIdAt, hzero, hlen]
    have hpre : (mqttPutShort (UInt16.ofNat (strlen topic)) ++ topic.bytes).length = 2 + strlen topic := by
      simp [strlen]
    have hid := shortAt_memOf_append (mqttPutShort (UInt16.ofNat (strlen topic)) ++ topic.bytes)
      (mqttPutShort id ++ (payload.take (payload.length % 65536) ++ rest)) stale 0
    rw [hpre, shortAt_mqttPutShort] at hid
    simpa [publishIdField, hq] using hid

end Body

/-! ## Reading back -/

/-- The bytes of a message that a parser reports. -/
def Ptr.bytes (m : Mem) (len : UInt16) : Ptr → Bytes
  | .body offset => m.bytes offset len.toNat
  | _ => []

/-- `mqtt_parse_publish` takes a body of `n` bytes whole and reports the message. -/
structure ParsesAs (m : Mem) (n : Nat) (old : MqttPublish) (qos : UInt8) (id : UInt16) (topic : CString)
    (payload : Bytes) : Prop where
  returns : ((mqttParsePublish old n qos).value m).1 = n
  topicBytes : ((mqttParsePublish old n qos).value m).2.topic.bytes m
    ((mqttParsePublish old n qos).value m).2.topicLen = topic.bytes
  idRead : qos > mqttQos0 → ((mqttParsePublish old n qos).value m).2.id = id
  payloadBytes : ((mqttParsePublish old n qos).value m).2.payload.bytes m
    ((mqttParsePublish old n qos).value m).2.payloadLen = payload
  payloadLength : ((mqttParsePublish old n qos).value m).2.payloadLen.toNat = payload.length

/-- `buffer` is one frame, and its body reads back as the message. -/
def ReadsBack (buffer : Bytes) (qos : UInt8) (id : UInt16) (topic : CString) (payload : Bytes) : Prop :=
  ∃ bodyOffset header, mqttParseFrame buffer = .frame bodyOffset header buffer.length ∧
    mqttQosFromFlags header.flags = qos ∧
    ∀ (stale : Mem) (old : MqttPublish),
      ParsesAs (memOf (buffer.drop bodyOffset) stale) header.bodyLength old qos id topic payload

/-- A body of the right length reads back, whatever lies behind it. -/
theorem parse_format (qos : UInt8) (id : UInt16) {topic : CString} {payload : Bytes} (ht : strlen topic ≤ 65535)
    (hp : payload.length < 65536) (stale : Mem) (old : MqttPublish) :
    ParsesAs (memOf (mqttFormatPublish qos id topic payload) stale) (mqttFormatPublish qos id topic payload).length old
      qos id topic payload := by
  obtain ⟨hreach, htopic, hid⟩ := publishReach_format qos id payload ht [] stale
  have hlen := length_mqttFormatPublish qos id payload ht
  rw [Nat.mod_eq_of_lt hp] at hlen
  have heval : mqttEvalPublish qos topic payload.length =
      2 + strlen topic + (publishIdField qos id).length + payload.length := by
    rw [length_publishIdField]; rfl
  rw [List.append_nil] at hreach htopic hid
  have htopicLen := (mqttPutString_eq ht).2
  have hle : 2 + strlen topic + (publishIdField qos id).length ≤ (mqttFormatPublish qos id topic payload).length := by
    omega
  -- the payload is what the topic and the id leave of the body
  have hsize : (mqttFormatPublish qos id topic payload).length - (2 + strlen topic + (publishIdField qos id).length) =
      payload.length := by omega
  have htaken := payloadTaken_eq hle
  rw [hsize, Nat.mod_eq_of_lt hp] at htaken
  have hpayloadLen : (UInt16.ofNat (sizeSub (mqttFormatPublish qos id topic payload).length
      (2 + strlen topic + (publishIdField qos id).length))).toNat = payload.length := htaken
  have hvalue := value_mqttParsePublish old (mqttFormatPublish qos id topic payload).length qos
    (memOf (mqttFormatPublish qos id topic payload) stale)
  rw [hreach, htopic, htaken] at hvalue
  refine ⟨?_, ?_, fun hq => ?_, ?_, ?_⟩ <;> rw [hvalue]
  · simp only; omega
  · simp only [Ptr.bytes, htopicLen]
    rw [mqttFormatPublish_eq qos id payload ht]
    exact bytes_memOf (mqttPutShort _) topic.bytes _ stale
  · have hat := hid hq
    rw [publishIdAt, htopic] at hat
    simp only [if_pos hq, hat]
  · have hpre : (mqttPutShort (UInt16.ofNat (strlen topic)) ++ (topic.bytes ++ publishIdField qos id)).length =
        2 + strlen topic + (publishIdField qos id).length := by
      simp [strlen]; omega
    have hdata := bytes_memOf (mqttPutShort (UInt16.ofNat (strlen topic)) ++ (topic.bytes ++ publishIdField qos id))
      payload [] stale
    simp only [Ptr.bytes, hpayloadLen]
    rw [mqttFormatPublish_eq qos id payload ht, Nat.mod_eq_of_lt hp, List.take_length, ← hpre]
    simpa using hdata
  · exact hpayloadLen

section PublishBuffer

variable (retain dup : Bool) {qos : UInt8} (id : UInt16) {topic : CString} {payload : Bytes}

/-- What `mqtt_parse_frame` says: the header announces the whole payload, however much of it was written. -/
theorem mqttParseFrame_publishBuffer (hb : mqttEvalPublish qos topic payload.length ≤ mqttMaxBodyLength) :
    mqttParseFrame (publishBuffer retain dup qos id topic payload) =
      if (mqttFormatPublish qos id topic payload).length < mqttEvalPublish qos topic payload.length then
        .more ((mqttFormatFixedHeader MqttPacketType.publish.toByte (publishFlags retain dup qos)
          (mqttEvalPublish qos topic payload.length)).length + mqttEvalPublish qos topic payload.length)
      else
        .frame (mqttFormatFixedHeader MqttPacketType.publish.toByte (publishFlags retain dup qos)
            (mqttEvalPublish qos topic payload.length)).length
          ⟨MqttPacketType.publish.toByte, publishFlags retain dup qos, mqttEvalPublish qos topic payload.length⟩
          ((mqttFormatFixedHeader MqttPacketType.publish.toByte (publishFlags retain dup qos)
            (mqttEvalPublish qos topic payload.length)).length + mqttEvalPublish qos topic payload.length) :=
  mqttParseFrame_header (MqttPacketType.toByte_lt .publish) (publishFlags_lt retain dup qos) hb
    (mqttFormatPublish qos id topic payload)

/-- A payload whose length has more than 16 bits leaves the frame incomplete. -/
theorem length_of_readsBack (ht : strlen topic ≤ 65535)
    (hb : mqttEvalPublish qos topic payload.length ≤ mqttMaxBodyLength)
    (h : ReadsBack (publishBuffer retain dup qos id topic payload) qos id topic payload) : payload.length < 65536 := by
  obtain ⟨bodyOffset, header, hframe, -⟩ := h
  have hlen := length_mqttFormatPublish qos id payload ht
  by_contra hge
  have hmod := Nat.mod_lt payload.length (show 65536 > 0 by omega)
  rw [mqttParseFrame_publishBuffer retain dup id hb, if_pos (by omega)] at hframe
  cases hframe

/-- The bytes of `stream_mqtt_publish` read back as the message exactly if the length of the
payload has 16 bits. -/
theorem publishBuffer_readsBack_iff (hq : qos ≤ mqttQos2) (ht : strlen topic ≤ 65535)
    (hb : mqttEvalPublish qos topic payload.length ≤ mqttMaxBodyLength) :
    ReadsBack (publishBuffer retain dup qos id topic payload) qos id topic payload ↔ payload.length < 65536 := by
  constructor
  · exact length_of_readsBack retain dup id ht hb
  · intro hp
    have hlen := length_mqttFormatPublish qos id payload ht
    rw [Nat.mod_eq_of_lt hp] at hlen
    have hbody : (mqttFormatPublish qos id topic payload).length = mqttEvalPublish qos topic payload.length := by omega
    refine ⟨(mqttFormatFixedHeader MqttPacketType.publish.toByte (publishFlags retain dup qos)
        (mqttEvalPublish qos topic payload.length)).length,
      ⟨MqttPacketType.publish.toByte, publishFlags retain dup qos, mqttEvalPublish qos topic payload.length⟩,
      ?_, (publishFlags_spec retain dup hq).2, fun stale old => ?_⟩
    · rw [mqttParseFrame_publishBuffer retain dup id hb, if_neg (by omega), publishBuffer, List.length_append, hbody]
    · rw [publishBuffer, List.drop_left, ← hbody]
      exact parse_format qos id ht hp stale old

end PublishBuffer

/-- A message of one byte. -/
theorem publishBuffer_readsBack_one :
    ReadsBack (publishBuffer false true mqttQos2 7 ⟨[0x61], by decide⟩ [0x78]) mqttQos2 7 ⟨[0x61], by decide⟩ [0x78] :=
  (publishBuffer_readsBack_iff false true 7 (by decide) (by decide) (by decide)).2 (by decide)

/-- A payload of 65536 bytes: the header announces it, but none of it is written. -/
theorem publishBuffer_truncated : ¬ ∀ (retain dup : Bool) (qos : UInt8) (id : UInt16) (topic : CString)
    (payload : Bytes), qos ≤ mqttQos2 → strlen topic ≤ 65535 →
      mqttEvalPublish qos topic payload.length ≤ mqttMaxBodyLength →
        ReadsBack (publishBuffer retain dup qos id topic payload) qos id topic payload := by
  intro h
  have hlen : (List.replicate 65536 (0x78 : UInt8)).length = 65536 := List.length_replicate ..
  have hread := h false false mqttQos0 0 ⟨[0x61], by decide⟩ (List.replicate 65536 0x78) (by decide) (by decide)
    (by rw [hlen]; decide)
  have hlt := length_of_readsBack false false 0 (by decide) (by rw [hlen]; decide) hread
  rw [hlen] at hlt
  exact Nat.lt_irrefl _ hlt

end CMx.Mqtt
