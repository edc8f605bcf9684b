/-
The body of a CONNECT, formatted and parsed. Every field behind the fixed ones is a string or data
behind its two-byte length, so what `mqtt_parse_connect` makes of a body depends on how many such
fields the flags announce and how many were put. What it does not find it does not touch: an
absent field keeps what the result struct held before.
-/
import CMx.StreamMqtt.Publish

namespace CMx.Mqtt

/-! ## Memory that holds some bytes -/

/-- The memory from `o` on starts with `data`. -/
def Mem.Holds (m : Mem) (o : Nat) (data : Bytes) : Prop := ∀ i (h : i < data.length), m (o + i) = data[i]

section Holds

variable {m : Mem} {o : Nat}

theorem holds_memOf (data : Bytes) (stale : Mem) : (memOf data stale).Holds 0 data := by
  intro i h
  simp [memOf, List.getElem?_eq_getElem h]

theorem holds_append {a b : Bytes} : m.Holds o (a ++ b) ↔ m.Holds o a ∧ m.Holds (o + a.length) b := by
  constructor
  · intro h
    constructor
    · intro i hi
      rw [h i (by rw [List.length_append]; omega), List.getElem_append_left hi]
    · intro i hi
      rw [Nat.add_assoc, h (a.length + i) (by rw [List.length_append]; omega),
        List.getElem_append_right (Nat.le_add_right ..)]
      simp
  · rintro ⟨ha, hb⟩ i hi
    by_cases hlt : i < a.length
    · rw [ha i hlt, List.getElem_append_left hlt]
    · rw [List.length_append] at hi
      have hb := hb (i - a.length) (by omega)
      rw [show o + a.length + (i - a.length) = o + i by omega] at hb
      rw [hb, List.getElem_append_right (by omega)]

theorem Mem.Holds.bytes_eq {data : Bytes} (h : m.Holds o data) : m.bytes o data.length = data := by
  refine List.ext_getElem (length_bytes m o _) fun i h1 h2 => ?_
  simp [Mem.bytes, h i h2]

theorem Mem.Holds.shortAt_eq {v : UInt16} (h : m.Holds o (mqttPutShort v)) : shortAt m o = v :=
  shortAt_put (h 0 Nat.two_pos) (h 1 Nat.one_lt_two)

end Holds

/-! ## A field behind its length -/

/-- What `mqtt_put_string` writes for a string, and `mqtt_put_short` with `mqtt_put_data` for data. -/
def putField (data : Bytes) : Bytes := mqttPutShort (UInt16.ofNat data.length) ++ data

theorem length_putField (data : Bytes) : (putField data).length = 2 + data.length := by
  simp [putField]

theorem mqttPutString_putField {s : CString} (h : strlen s ≤ 65535) : mqttPutString s = putField s.bytes :=
  (mqttPutString_eq h).1

theorem mqttPutData_putField {data : Bytes} {len : UInt16} (h : data.length = len.toNat) :
    mqttPutShort len ++ mqttPutData data len = putField data := by
  rw [mqttPutData, putField, h, ← h, List.take_length, h, UInt16.ofNat_toNat]

/-- A field that was put is read back, its length first. -/
theorem Mem.Holds.putField {m : Mem} {o : Nat} {data : Bytes} (hlen : data.length ≤ 65535)
    (h : m.Holds o (putField data)) :
    (shortAt m o).toNat = data.length ∧ m.bytes (o + 2) (shortAt m o).toNat = data := by
  obtain ⟨hshort, hdata⟩ := holds_append.1 h
  have hto : (UInt16.ofNat data.length).toNat = data.length := by
    rw [UInt16.toNat_ofNat']; omega
  rw [hshort.shortAt_eq, hto]
  exact ⟨rfl, hdata.bytes_eq⟩

/-- A pointer of a message reports a value with its length, or it is `NULL` with length 0. -/
def Reports (m : Mem) (ptr : Ptr) (len : UInt16) : Option Bytes → Prop
  | some value => ∃ offset, ptr = .body offset ∧ len.toNat = value.length ∧ m.bytes offset len.toNat = value
  | none => ptr = .null ∧ len = 0

/-- The reach of as many strings as there are fields, or fewer. -/
theorem fieldsReach_putFields {m : Mem} : ∀ {k o : Nat} {datas : List Bytes}, (∀ d ∈ datas, d.length ≤ 65535) →
    m.Holds o (datas.flatMap CMx.Mqtt.putField) → k ≤ datas.length →
    fieldsReach m o (List.replicate k .string) = o + ((datas.take k).flatMap CMx.Mqtt.putField).length
  | 0, o, datas, _, _, _ => by simp [fieldsReach]
  | k + 1, o, [], _, _, hk => absurd hk (Nat.not_succ_le_zero k)
  | k + 1, o, d :: datas, hlen, h, hk => by
    rw [List.flatMap_cons, holds_append] at h
    obtain ⟨hd, hrest⟩ := h
    obtain ⟨hshort, -⟩ := hd.putField (hlen d (List.mem_cons_self ..))
    rw [length_putField] at hrest
    have ih := fieldsReach_putFields (fun d hd => hlen d (List.mem_cons_of_mem _ hd)) hrest (Nat.le_of_succ_le_succ hk)
    rw [List.replicate_succ, fieldsReach, hshort, Nat.add_assoc, ih, List.take_succ_cons, List.flatMap_cons,
      List.length_append, length_putField]
    omega

/-- The field behind the first `k`. -/
theorem reports_putFields {m : Mem} : ∀ {k o : Nat} {datas : List Bytes} {d : Bytes},
    (∀ d ∈ datas, d.length ≤ 65535) → m.Holds o (datas.flatMap CMx.Mqtt.putField) → datas[k]? = some d →
    Reports m (.body (fieldsReach m o (List.replicate k .string) + 2))
      (shortAt m (fieldsReach m o (List.replicate k .string))) (some d)
  | k, o, [], d, _, _, hk => by simp at hk
  | 0, o, e :: datas, d, hlen, h, hk => by
    rw [List.flatMap_cons, holds_append] at h
    cases hk
    obtain ⟨hshort, hbytes⟩ := h.1.putField (hlen e (List.mem_cons_self ..))
    exact ⟨o + 2, rfl, hshort, hbytes⟩
  | k + 1, o, e :: datas, d, hlen, h, hk => by
    rw [List.flatMap_cons, holds_append] at h
    obtain ⟨he, hrest⟩ := h
    obtain ⟨hshort, -⟩ := he.putField (hlen e (List.mem_cons_self ..))
    rw [length_putField, ← Nat.add_assoc] at hrest
    rw [List.replicate_succ, fieldsReach, hshort]
    exact reports_putFields (fun d hd => hlen d (List.mem_cons_of_mem _ hd)) hrest hk

/-! ## The arguments -/

/-- A length is that of the data it comes with, and strings and data have at most 65535 bytes. -/
structure MqttConnectArgs.WellFormed (a : MqttConnectArgs) : Prop where
  clientId : ∀ s, a.clientId = some s → strlen s ≤ 65535
  willTopic : ∀ s, a.willTopic = some s → strlen s ≤ 65535
  willMsg : ∀ d, a.willMsg = some d → d.length = a.willMsgLen.toNat
  willQos : a.willQos ≤ mqttQos2
  userName : ∀ s, a.userName = some s → strlen s ≤ 65535
  password : ∀ d, a.password = some d → d.length = a.passwordLen.toNat

/-- The optional fields that are put, in their order in the payload. -/
def MqttConnectArgs.optional (a : MqttConnectArgs) : List Bytes :=
  (a.willTopic.map CString.bytes).toList ++ a.willMsg.toList ++ (a.userName.map CString.bytes).toList
    ++ a.password.toList

/-- The variable header of a CONNECT. -/
def connectHeader (a : MqttConnectArgs) : Bytes :=
  putField mqttProtocolName.bytes ++ [mqttProtocolLevel] ++ [mqttConnectFlags a] ++ mqttPutShort a.keepAlive

theorem length_connectHeader (a : MqttConnectArgs) : (connectHeader a).length = 10 := rfl

theorem putOptional_eq {s : Option CString} : (∀ str, s = some str → strlen str ≤ 65535) →
    (match s with | some s => mqttPutString s | none => []) = (s.map CString.bytes).toList.flatMap putField := by
  intro h
  cases s with
  | none => rfl
  | some str => simp [mqttPutString_putField (h str rfl)]

theorem putData_eq {d : Option Bytes} {len : UInt16} : (∀ data, d = some data → data.length = len.toNat) →
    (match d with | some d => mqttPutShort len ++ mqttPutData d len | none => []) = d.toList.flatMap putField := by
  intro h
  cases d with
  | none => rfl
  | some data => simp [mqttPutData_putField (h data rfl)]

theorem mqttFormatConnect_eq {a : MqttConnectArgs} (w : a.WellFormed) :
    mqttFormatConnect a = a.clientId.map fun s =>
      connectHeader a ++ putField s.bytes ++ a.optional.flatMap putField := by
  unfold mqttFormatConnect MqttConnectArgs.optional
  cases hid : a.clientId with
  | none => rfl
  | some clientId =>
    have hheader : mqttPutString mqttProtocolName ++ mqttPutByte mqttProtocolLevel
        ++ mqttPutByte (mqttConnectFlags a) ++ mqttPutShort a.keepAlive ++ mqttPutString clientId =
          connectHeader a ++ putField clientId.bytes := by
      rw [mqttPutString_putField (w.clientId clientId hid)]
      rfl
    -- the parts of the body in the order in which they are put
    have hparts := congrArg₂ (· ++ ·) (congrArg₂ (· ++ ·) (congrArg₂ (· ++ ·)
      (congrArg₂ (· ++ ·) hheader (putOptional_eq w.willTopic)) (putData_eq w.willMsg)) (putOptional_eq w.userName))
      (putData_eq w.password)
    refine congrArg some (hparts.trans ?_)
    simp only [List.flatMap_append, List.append_assoc]

/-- What the flags byte says. -/
theorem mqttConnectFlags_spec (a : MqttConnectArgs) (w : a.willQos ≤ mqttQos2) :
    (mqttConnectFlags a &&& mqttConnectCleanSession ≠ 0 ↔ a.cleanSession = true) ∧
    (mqttConnectFlags a &&& mqttConnectWillFlag ≠ 0 ↔ a.willTopic.isSome = true ∧ a.willMsg.isSome = true) ∧
    (a.willTopic.isSome = true → a.willMsg.isSome = true →
      ((mqttConnectFlags a &&& mqttConnectWillRetain ≠ 0 ↔ a.willRetain = true) ∧
        (mqttConnectFlags a &&& mqttConnectWillQosMsk) >>> mqttConnectWillQosPos = a.willQos)) ∧
    (mqttConnectFlags a &&& mqttConnectUserName ≠ 0 ↔ a.userName.isSome = true) ∧
    (mqttConnectFlags a &&& mqttConnectPassword ≠ 0 ↔ a.password.isSome = true) := by
  have hq : a.willQos = 0 ∨ a.willQos = 1 ∨ a.willQos = 2 := by
    have hlt : a.willQos.toNat ≤ 2 := UInt8.le_iff_toNat_le.1 w
    rcases (by omega : a.willQos.toNat = 0 ∨ a.willQos.toNat = 1 ∨ a.willQos.toNat = 2) with h | h | h
    · exact Or.inl (UInt8.toNat_inj.1 h)
    · exact Or.inr (Or.inl (UInt8.toNat_inj.1 h))
    · exact Or.inr (Or.inr (UInt8.toNat_inj.1 h))
  unfold mqttConnectFlags
  generalize a.willTopic.isSome = topic
  generalize a.willMsg.isSome = msg
  generalize a.userName.isSome = user
  generalize a.password.isSome = password
  generalize a.cleanSession = clean
  generalize a.willRetain = retain
  rcases hq with h | h | h <;> rw [h] <;> revert topic msg user password clean retain <;> decide

/-! ## Parsing the optional fields -/

section Parse

variable (m : Mem) (payload : MqttConnect) (flags : UInt8) (o : Nat)

theorem value_parseWill :
    ((mqttParseConnectWill payload flags o).value m).2 =
      if flags &&& mqttConnectWillFlag ≠ 0 then
        { payload with
          willTopic := .body (o + 2), willTopicLen := shortAt m o,
          willMsg := .body (fieldsReach m o [.string] + 2), willMsgLen := shortAt m (fieldsReach m o [.string]) }
      else payload := by
  unfold mqttParseConnectWill
  split
  · simp only [Rd.value_bind, Rd.value_pure, value_mqttGetString, value_mqttGetShort, value_mqttGetData, fieldsReach,
      Nat.add_assoc]
  · rfl

theorem value_parseUserName :
    ((mqttParseConnectUserName payload flags o).value m).2 =
      if flags &&& mqttConnectUserName ≠ 0 then
        { payload with userName := .body (o + 2), userNameLen := shortAt m o }
      else payload := by
  unfold mqttParseConnectUserName
  split <;> rfl

theorem value_parsePassword :
    ((mqttParseConnectPassword payload flags o).value m).2 =
      if flags &&& mqttConnectPassword ≠ 0 then
        { payload with password := .body (o + 2), passwordLen := shortAt m o }
      else payload := by
  unfold mqttParseConnectPassword
  split <;> rfl

end Parse

/-- What `mqtt_parse_connect` reads in front of the optional fields, with the protocol level at `o`. -/
def fixedFields (old : MqttConnect) (m : Mem) (o : Nat) : MqttConnect :=
  { old with
    protocolName := .body 2, protocolNameLen := shortAt m 0, protocolLevel := m o,
    cleanSession := m (o + 1) &&& mqttConnectCleanSession ≠ 0,
    willRetain := m (o + 1) &&& mqttConnectWillRetain ≠ 0,
    willQos := (m (o + 1) &&& mqttConnectWillQosMsk) >>> mqttConnectWillQosPos,
    keepAlive := shortAt m (o + 1 + 1), clientId := .body (o + 1 + 1 + 2 + 2),
    clientIdLen := shortAt m (o + 1 + 1 + 2) }

/-- The message that `mqtt_parse_connect` makes of a body: the three optional parts one behind the
other, each where the fields before it end. -/
theorem value_mqttParseConnect (old : MqttConnect) (n : Nat) (m : Mem) {o ou op : Nat} (level : Nat) (flags : UInt8)
    (hlevel : level = 2 + (shortAt m 0).toNat) (hflags : flags = m (level + 1))
    (ho : o = level + 1 + 1 + 2 + (2 + (shortAt m (level + 1 + 1 + 2)).toNat))
    (hou : ou = fieldsReach m o (willFields flags)) (hop : op = fieldsReach m ou (userNameFields flags)) :
    ((mqttParseConnect old n).value m).2 =
      ((mqttParseConnectPassword ((mqttParseConnectUserName ((mqttParseConnectWill (fixedFields old m level)
        flags o).value m).2 flags ou).value m).2 flags op).value m).2 := by
  have hw := fun payload => (follows_will m payload flags o).1
  have hu := fun payload => (follows_userName m payload flags ou).1
  subst hlevel hflags ho
  rw [hop, ← hu, hou, ← hw]
  rfl

/-! ## A formatted body in memory -/

namespace MqttConnectArgs

variable (a : MqttConnectArgs)

/-- How many optional fields the flags announce for the will, the user name and the password. -/
def willCount : Nat := if a.willTopic.isSome = true ∧ a.willMsg.isSome = true then 2 else 0
def userNameCount : Nat := if a.userName.isSome = true then 1 else 0
def passwordCount : Nat := if a.password.isSome = true then 1 else 0

variable {a}

theorem WellFormed.optional_le (w : a.WellFormed) : ∀ d ∈ a.optional, d.length ≤ 65535 := by
  have hdata : ∀ (d : Bytes) (len : UInt16), d.length = len.toNat → d.length ≤ 65535 := by
    intro d len h
    have := len.toNat_lt
    omega
  intro d hd
  simp only [optional, List.mem_append, Option.mem_toList, Option.map_eq_some_iff] at hd
  rcases hd with ((⟨s, hs, rfl⟩ | hd) | ⟨s, hs, rfl⟩) | hd
  · exact w.willTopic s hs
  · exact hdata d _ (w.willMsg d hd)
  · exact w.userName s hs
  · exact hdata d _ (w.password d hd)

theorem WellFormed.fields (w : a.WellFormed) :
    willFields (mqttConnectFlags a) = List.replicate a.willCount .string ∧
    userNameFields (mqttConnectFlags a) = List.replicate a.userNameCount .string ∧
    passwordFields (mqttConnectFlags a) = List.replicate a.passwordCount .string := by
  obtain ⟨-, hwill, -, huser, hpassword⟩ := mqttConnectFlags_spec a w.willQos
  unfold willFields userNameFields passwordFields willCount userNameCount passwordCount
  simp only [hwill, huser, hpassword]
  refine ⟨?_, ?_, ?_⟩ <;> split <;> rfl

/-- The flags announce every optional field exactly if the will has both its parts or none. -/
theorem announced_le : a.willCount + a.userNameCount + a.passwordCount ≤ a.optional.length ∧
    (a.willCount + a.userNameCount + a.passwordCount = a.optional.length ↔
      a.willTopic.isSome = a.willMsg.isSome) := by
  unfold willCount userNameCount passwordCount optional
  cases a.willTopic <;> cases a.willMsg <;> cases a.userName <;> cases a.password <;> simp

end MqttConnectArgs

/-- Memory that holds the body of a CONNECT. -/
structure HoldsConnect (m : Mem) (a : MqttConnectArgs) (clientId : CString) : Prop where
  nameLen : (shortAt m 0).toNat = 4
  level : m 6 = mqttProtocolLevel
  flags : m 7 = mqttConnectFlags a
  keepAlive : shortAt m 8 = a.keepAlive
  clientLen : (shortAt m 10).toNat = strlen clientId
  clientBytes : m.bytes 12 (shortAt m 10).toNat = clientId.bytes
  optional : m.Holds (12 + strlen clientId) (a.optional.flatMap putField)

theorem holdsConnect {m : Mem} {a : MqttConnectArgs} {clientId : CString} (hlen : strlen clientId ≤ 65535)
    (h : m.Holds 0 (connectHeader a ++ putField clientId.bytes ++ a.optional.flatMap putField)) :
    HoldsConnect m a clientId := by
  obtain ⟨h, hoptional⟩ := holds_append.1 h
  obtain ⟨hheader, hclient⟩ := holds_append.1 h
  rw [List.length_append, length_connectHeader, length_putField] at hoptional
  rw [length_connectHeader] at hclient
  obtain ⟨hheader, hkeep⟩ := holds_append.1 hheader
  obtain ⟨hheader, hflags⟩ := holds_append.1 hheader
  obtain ⟨hname, hlevel⟩ := holds_append.1 hheader
  obtain ⟨hclientLen, hclientBytes⟩ := hclient.putField hlen
  refine ⟨(hname.putField (by decide)).1, hlevel 0 Nat.one_pos, hflags 0 Nat.one_pos, hkeep.shortAt_eq, hclientLen,
    hclientBytes, ?_⟩
  rw [show 12 + strlen clientId = 0 + (10 + (2 + clientId.bytes.length)) by unfold strlen; omega]
  exact hoptional

/-! ## Reading back -/

/-- `mqtt_parse_connect` takes a body of `n` bytes whole and reports every argument that was
supplied with its value and every other as absent; the QoS and the retain flag of a will are
those of a will that was supplied. -/
structure ParsesAsConnect (m : Mem) (n : Nat) (old : MqttConnect) (a : MqttConnectArgs) : Prop where
  returns : ((mqttParseConnect old n).value m).1 = n
  cleanSession : ((mqttParseConnect old n).value m).2.cleanSession = a.cleanSession
  keepAlive : ((mqttParseConnect old n).value m).2.keepAlive = a.keepAlive
  clientId : Reports m ((mqttParseConnect old n).value m).2.clientId ((mqttParseConnect old n).value m).2.clientIdLen
    (a.clientId.map CString.bytes)
  willTopic : Reports m ((mqttParseConnect old n).value m).2.willTopic
    ((mqttParseConnect old n).value m).2.willTopicLen (a.willTopic.map CString.bytes)
  willMsg : Reports m ((mqttParseConnect old n).value m).2.willMsg ((mqttParseConnect old n).value m).2.willMsgLen
    a.willMsg
  willRetain : a.willTopic.isSome = true → a.willMsg.isSome = true →
    ((mqttParseConnect old n).value m).2.willRetain = a.willRetain
  willQos : a.willTopic.isSome = true → a.willMsg.isSome = true →
    ((mqttParseConnect old n).value m).2.willQos = a.willQos
  userName : Reports m ((mqttParseConnect old n).value m).2.userName
    ((mqttParseConnect old n).value m).2.userNameLen (a.userName.map CString.bytes)
  password : Reports m ((mqttParseConnect old n).value m).2.password
    ((mqttParseConnect old n).value m).2.passwordLen a.password

/-- The client id is supplied, a will has both its parts or none, and the result struct held
`NULL` and 0 before for each field that is not supplied. -/
structure ConnectReadable (a : MqttConnectArgs) (old : MqttConnect) : Prop where
  clientId : a.clientId.isSome = true
  will : a.willTopic.isSome = a.willMsg.isSome
  willTopic : a.willTopic = none → old.willTopic = .null ∧ old.willTopicLen = 0
  willMsg : a.willMsg = none → old.willMsg = .null ∧ old.willMsgLen = 0
  userName : a.userName = none → old.userName = .null ∧ old.userNameLen = 0
  password : a.password = none → old.password = .null ∧ old.passwordLen = 0

section Back

variable {a : MqttConnectArgs} {clientId : CString} {m : Mem}

/-- What `mqtt_parse_connect` returns for a formatted body. -/
theorem returned_connect (w : a.WellFormed) (h : HoldsConnect m a clientId) (old : MqttConnect) (n : Nat) :
    ((mqttParseConnect old n).value m).1 =
      returned n (12 + strlen clientId +
        ((a.optional.take (a.willCount + a.userNameCount + a.passwordCount)).flatMap putField).length) := by
  obtain ⟨hwill, huser, hpassword⟩ := w.fields
  have hrun := congrArg Prod.fst (run_connect old n m)
  have hflags : connectFlags m = mqttConnectFlags a := by
    rw [connectFlags, h.nameLen]
    exact h.flags
  have hfixed : fieldsReach m 0 [.string, .byte, .byte, .short, .string] = 12 + strlen clientId := by
    simp only [fieldsReach, h.nameLen, Nat.zero_add, Nat.reduceAdd, h.clientLen]
  have hreach : fieldsReach m 0 ((BodyParser.connect old).fields m) = 12 + strlen clientId +
      ((a.optional.take (a.willCount + a.userNameCount + a.passwordCount)).flatMap putField).length := by
    simp only [BodyParser.fields, hflags, hwill, huser, hpassword, List.append_assoc, List.replicate_append_replicate]
    rw [fieldsReach_append, hfixed]
    exact fieldsReach_putFields w.optional_le h.optional MqttConnectArgs.announced_le.1
  rw [hreach] at hrun
  exact hrun

/-- It is the length of the body exactly if the flags announce every optional field. -/
theorem returned_connect_iff (w : a.WellFormed) (h : HoldsConnect m a clientId) (old : MqttConnect) :
    ((mqttParseConnect old (connectHeader a ++ putField clientId.bytes ++ a.optional.flatMap putField).length).value m).1 =
      (connectHeader a ++ putField clientId.bytes ++ a.optional.flatMap putField).length ↔
    a.willTopic.isSome = a.willMsg.isSome := by
  obtain ⟨hle, hcount⟩ := @MqttConnectArgs.announced_le a
  have hsplit := congrArg (fun l => (List.flatMap putField l).length)
    (List.take_append_drop (a.willCount + a.userNameCount + a.passwordCount) a.optional)
  simp only [List.flatMap_append, List.length_append] at hsplit
  have hlen : (connectHeader a ++ putField clientId.bytes ++ a.optional.flatMap putField).length =
      12 + strlen clientId + (a.optional.flatMap putField).length := by
    rw [List.length_append, List.length_append, length_connectHeader, length_putField]
    unfold strlen
    omega
  rw [returned_connect w h old, hlen, ← hcount]
  unfold returned
  constructor
  · intro heq
    by_contra hne
    -- a field that is put but not announced is at least two bytes long
    obtain ⟨d, hd⟩ : ∃ d, d ∈ a.optional.drop (a.willCount + a.userNameCount + a.passwordCount) :=
      List.exists_mem_of_length_pos (by rw [List.length_drop]; omega)
    have hpos : 2 ≤ ((a.optional.drop (a.willCount + a.userNameCount + a.passwordCount)).flatMap putField).length := by
      obtain ⟨s, t, hst⟩ := List.append_of_mem hd
      rw [hst, List.flatMap_append, List.flatMap_cons, List.length_append, List.length_append, length_putField]
      omega
    rw [if_pos (by omega)] at heq
    omega
  · intro heq
    rw [heq, List.take_length, if_neg (Nat.lt_irrefl _)]

end Back

/-- A pointer and its length as `mqtt_parse_connect` leaves them: into the `k`-th optional field if
the flags announce it, else as they were. -/
def FieldLeft (m : Mem) (o k : Nat) (announced : Prop) (ptr : Ptr) (len : UInt16) (oldPtr : Ptr) (oldLen : UInt16) :
    Prop :=
  (announced → ptr = .body (fieldsReach m o (List.replicate k .string) + 2) ∧
    len = shortAt m (fieldsReach m o (List.replicate k .string))) ∧
  (¬ announced → ptr = oldPtr ∧ len = oldLen)

/-- A field that is announced if it was put reports its value; one that was not put is absent
exactly if it was before. -/
theorem FieldLeft.reports_iff {m : Mem} {o k : Nat} {announced : Prop} {ptr oldPtr : Ptr} {len oldLen : UInt16}
    {datas : List Bytes} (f : FieldLeft m o k announced ptr len oldPtr oldLen) {value : Option Bytes}
    (hannounced : announced ↔ value.isSome = true) (hlen : ∀ d ∈ datas, d.length ≤ 65535)
    (h : m.Holds o (datas.flatMap putField)) (hk : ∀ d, value = some d → datas[k]? = some d) :
    Reports m ptr len value ↔ (value = none → oldPtr = .null ∧ oldLen = 0) := by
  cases value with
  | none =>
    obtain ⟨rfl, rfl⟩ := f.2 (by simp [hannounced])
    simp [Reports]
  | some d =>
    obtain ⟨rfl, rfl⟩ := f.1 (hannounced.2 rfl)
    have hreports := reports_putFields hlen h (hk d rfl)
    constructor
    · rintro - hnone
      cases hnone
    · rintro -
      exact hreports

/-- The message that `mqtt_parse_connect` makes of a formatted body. -/
structure ConnectMessage (m : Mem) (o : Nat) (a : MqttConnectArgs) (old msg : MqttConnect) : Prop where
  cleanSession : msg.cleanSession = a.cleanSession
  keepAlive : msg.keepAlive = a.keepAlive
  clientId : msg.clientId = .body 12 ∧ msg.clientIdLen = shortAt m 10
  willTopic : FieldLeft m o 0 (a.willTopic.isSome = true ∧ a.willMsg.isSome = true) msg.willTopic msg.willTopicLen
    old.willTopic old.willTopicLen
  willMsg : FieldLeft m o 1 (a.willTopic.isSome = true ∧ a.willMsg.isSome = true) msg.willMsg msg.willMsgLen
    old.willMsg old.willMsgLen
  will : a.willTopic.isSome = true → a.willMsg.isSome = true →
    msg.willRetain = a.willRetain ∧ msg.willQos = a.willQos
  userName : FieldLeft m o a.willCount (a.userName.isSome = true) msg.userName msg.userNameLen
    old.userName old.userNameLen
  password : FieldLeft m o (a.willCount + a.userNameCount) (a.password.isSome = true) msg.password msg.passwordLen
    old.password old.passwordLen

theorem message_connect {a : MqttConnectArgs} {clientId : CString} {m : Mem} (w : a.WellFormed)
    (h : HoldsConnect m a clientId) (old : MqttConnect) (n : Nat) :
    ConnectMessage m (12 + strlen clientId) a old ((mqttParseConnect old n).value m).2 := by
  obtain ⟨hclean, hwill, hretain, huser, hpassword⟩ := mqttConnectFlags_spec a w.willQos
  obtain ⟨hwillFields, huserFields, -⟩ := w.fields
  have ho : 12 + strlen clientId = 6 + 1 + 1 + 2 + (2 + (shortAt m (6 + 1 + 1 + 2)).toNat) := by
    rw [show 6 + 1 + 1 + 2 = 10 from rfl, h.clientLen]; omega
  have hvalue := value_mqttParseConnect old n m 6 (mqttConnectFlags a) (by rw [h.nameLen])
    h.flags.symm ho (by rw [hwillFields]) (by rw [huserFields, ← fieldsReach_append, List.replicate_append_replicate])
  rw [value_parsePassword, value_parseUserName, value_parseWill] at hvalue
  simp only [hwill, huser, hpassword] at hvalue
  rw [hvalue]
  -- a field that the flags do not announce is left as it was
  have hleft : ∀ {announced : Prop} [Decidable announced] {k o' : Nat} (oldPtr : Ptr) (oldLen : UInt16),
      o' = fieldsReach m (12 + strlen clientId) (List.replicate k .string) →
      FieldLeft m (12 + strlen clientId) k announced (if announced then .body (o' + 2) else oldPtr)
        (if announced then shortAt m o' else oldLen) oldPtr oldLen := by
    rintro announced _ k o' oldPtr oldLen rfl
    constructor
    · intro h
      rw [if_pos h, if_pos h]
      exact ⟨rfl, rfl⟩
    · intro h
      rw [if_neg h, if_neg h]
      exact ⟨rfl, rfl⟩
  constructor
  case cleanSession =>
    simp only [apply_ite MqttConnect.cleanSession, ite_self, fixedFields, h.flags]
    simp only [hclean, Bool.decide_eq_true]
  case keepAlive =>
    simp only [apply_ite MqttConnect.keepAlive, ite_self, fixedFields]
    exact h.keepAlive
  case clientId =>
    simp only [apply_ite MqttConnect.clientId, apply_ite MqttConnect.clientIdLen, ite_self]
    exact ⟨rfl, rfl⟩
  case willTopic =>
    simp only [apply_ite MqttConnect.willTopic, apply_ite MqttConnect.willTopicLen, ite_self]
    exact hleft old.willTopic old.willTopicLen rfl
  case willMsg =>
    simp only [apply_ite MqttConnect.willMsg, apply_ite MqttConnect.willMsgLen, ite_self]
    exact hleft old.willMsg old.willMsgLen rfl
  case will =>
    intro htopic hmsg
    obtain ⟨hretain, hqos⟩ := hretain htopic hmsg
    simp only [apply_ite MqttConnect.willRetain, apply_ite MqttConnect.willQos, ite_self, fixedFields, h.flags]
    simp only [hretain, hqos, Bool.decide_eq_true, and_self]
  case userName =>
    simp only [apply_ite MqttConnect.userName, apply_ite MqttConnect.userNameLen, ite_self]
    exact hleft old.userName old.userNameLen rfl
  case password =>
    simp only [apply_ite MqttConnect.password, apply_ite MqttConnect.passwordLen, ite_self]
    exact hleft old.password old.passwordLen rfl

/-- Where the optional fields are that belong to a whole will, and those behind it. -/
theorem optional_get {a : MqttConnectArgs} (hwill : a.willTopic.isSome = a.willMsg.isSome) :
    (∀ d, a.willTopic.map CString.bytes = some d → a.optional[0]? = some d) ∧
    (∀ d, a.willMsg = some d → a.optional[1]? = some d) ∧
    (∀ d, a.userName.map CString.bytes = some d → a.optional[a.willCount]? = some d) ∧
    (∀ d, a.password = some d → a.optional[a.willCount + a.userNameCount]? = some d) := by
  have hlast : ∀ d, a.password = some d → a.password.toList[0]? = some d := by
    intro d h
    rw [h]; rfl
  unfold MqttConnectArgs.optional MqttConnectArgs.willCount MqttConnectArgs.userNameCount
  cases htopic : a.willTopic with
  | none =>
    cases hmsg : a.willMsg with
    | none => cases a.userName <;> (simp; exact hlast)
    | some msg => rw [htopic, hmsg] at hwill; cases hwill
  | some topic =>
    cases hmsg : a.willMsg with
    | none => rw [htopic, hmsg] at hwill; cases hwill
    | some msg => cases a.userName <;> (simp; exact hlast)

/-- With a whole will, each optional field reads back exactly if it was supplied or absent before. -/
theorem reports_connect {a : MqttConnectArgs} {clientId : CString} {m : Mem} {old msg : MqttConnect} (w : a.WellFormed)
    (h : HoldsConnect m a clientId) (hm : ConnectMessage m (12 + strlen clientId) a old msg)
    (hwill : a.willTopic.isSome = a.willMsg.isSome) :
    (Reports m msg.willTopic msg.willTopicLen (a.willTopic.map CString.bytes) ↔
      (a.willTopic = none → old.willTopic = .null ∧ old.willTopicLen = 0)) ∧
    (Reports m msg.willMsg msg.willMsgLen a.willMsg ↔
      (a.willMsg = none → old.willMsg = .null ∧ old.willMsgLen = 0)) ∧
    (Reports m msg.userName msg.userNameLen (a.userName.map CString.bytes) ↔
      (a.userName = none → old.userName = .null ∧ old.userNameLen = 0)) ∧
    (Reports m msg.password msg.passwordLen a.password ↔
      (a.password = none → old.password = .null ∧ old.passwordLen = 0)) := by
  obtain ⟨htopic, hmsg, huser, hpassword⟩ := optional_get hwill
  refine ⟨?_, ?_, ?_, ?_⟩
  · rw [hm.willTopic.reports_iff (by simp [hwill]) w.optional_le h.optional htopic, Option.map_eq_none_iff]
  · exact hm.willMsg.reports_iff (by simp [hwill]) w.optional_le h.optional hmsg
  · rw [hm.userName.reports_iff (by simp) w.optional_le h.optional huser, Option.map_eq_none_iff]
  · exact hm.password.reports_iff Iff.rfl w.optional_le h.optional hpassword

/-! ## The round trip -/

/-- A formatted CONNECT reads back, whatever lies behind it, exactly if its client id is there, its
will is whole, and what was not supplied was absent in the result struct before. -/
theorem connect_readsBack_iff {a : MqttConnectArgs} (w : a.WellFormed) (old : MqttConnect) :
    (∃ body, mqttFormatConnect a = some body ∧ ∀ stale, ParsesAsConnect (memOf body stale) body.length old a) ↔
      ConnectReadable a old := by
  rw [mqttFormatConnect_eq w]
  cases hid : a.clientId with
  | none =>
    constructor
    · rintro ⟨body, hbody, -⟩
      cases hbody
    · intro c
      have := c.clientId
      rw [hid] at this
      cases this
  | some clientId =>
    have holds := fun stale => holdsConnect (w.clientId clientId hid)
      (holds_memOf (connectHeader a ++ putField clientId.bytes ++ a.optional.flatMap putField) stale)
    have hreturns := fun stale => returned_connect_iff w (holds stale) old
    simp only [Option.map_some, Option.some_inj, exists_eq_left']
    generalize connectHeader a ++ putField clientId.bytes ++ a.optional.flatMap putField = body at holds hreturns ⊢
    have hmessage := fun stale => message_connect w (holds stale) old body.length
    constructor
    · intro h
      have hwill := (hreturns fun _ => 0).1 (h fun _ => 0).returns
      obtain ⟨htopic, hmsg, huser, hpassword⟩ := reports_connect w (holds fun _ => 0) (hmessage fun _ => 0) hwill
      exact ⟨by rw [hid]; rfl, hwill, htopic.1 (h _).willTopic, hmsg.1 (h _).willMsg, huser.1 (h _).userName,
        hpassword.1 (h _).password⟩
    · intro c stale
      obtain ⟨htopic, hmsg, huser, hpassword⟩ := reports_connect w (holds stale) (hmessage stale) c.will
      have hm := hmessage stale
      refine ⟨(hreturns stale).2 c.will, hm.cleanSession, hm.keepAlive, ?_, htopic.2 c.willTopic, hmsg.2 c.willMsg,
        fun ht hg => (hm.will ht hg).1, fun ht hg => (hm.will ht hg).2, huser.2 c.userName, hpassword.2 c.password⟩
      rw [hid, hm.clientId.1, hm.clientId.2]
      exact ⟨12, rfl, (holds stale).clientLen, (holds stale).clientBytes⟩

/-- The arguments of a CONNECT with a client id and a keep alive, and nothing else. -/
def plainConnect : MqttConnectArgs where
  cleanSession := true
  keepAlive := 60
  clientId := some ⟨[0x61], by decide⟩
  willTopic := none
  willMsg := none
  willMsgLen := 0
  willRetain := false
  willQos := mqttQos0
  userName := none
  password := none
  passwordLen := 0

theorem plainConnect_wellFormed : plainConnect.WellFormed where
  clientId := by rintro s ⟨⟩; decide
  willTopic := by rintro s ⟨⟩
  willMsg := by rintro d ⟨⟩
  willQos := by decide
  userName := by rintro s ⟨⟩
  password := by rintro d ⟨⟩

/-- The arguments of a CONNECT with a will, a user name and a password. -/
def fullConnect : MqttConnectArgs where
  cleanSession := false
  keepAlive := 60
  clientId := some ⟨[0x61], by decide⟩
  willTopic := some ⟨[0x77], by decide⟩
  willMsg := some [0x67, 0]
  willMsgLen := 2
  willRetain := true
  willQos := mqttQos2
  userName := some ⟨[0x75, 0x76], by decide⟩
  password := some [0x70, 0x71, 0x72]
  passwordLen := 3

theorem fullConnect_wellFormed : fullConnect.WellFormed where
  clientId := by rintro s ⟨⟩; decide
  willTopic := by rintro s ⟨⟩; decide
  willMsg := by rintro d ⟨⟩; decide
  willQos := by decide
  userName := by rintro s ⟨⟩; decide
  password := by rintro d ⟨⟩; decide

/-- It reads back into a struct that held a user name before. -/
theorem connect_readsBack_full :
    ∃ body, mqttFormatConnect fullConnect = some body ∧
      ∀ stale, ParsesAsConnect (memOf body stale) body.length { userName := .other 1, userNameLen := 3 } fullConnect :=
  (connect_readsBack_iff fullConnect_wellFormed { userName := .other 1, userNameLen := 3 }).2
    ⟨rfl, rfl, fun h => (nomatch h), fun h => (nomatch h), fun h => (nomatch h), fun h => (nomatch h)⟩

/-- Where none is supplied, the user name of that struct stays. -/
theorem connect_keepsStale : ¬ ∀ (a : MqttConnectArgs) (old : MqttConnect), a.WellFormed →
    ∃ body, mqttFormatConnect a = some body ∧ ∀ stale, ParsesAsConnect (memOf body stale) body.length old a := by
  intro h
  obtain ⟨body, hbody, hparse⟩ := h plainConnect { userName := .other 1, userNameLen := 3 } plainConnect_wellFormed
  cases hbody
  have huser := (hparse fun _ => 0).userName.1
  revert huser
  decide

/-! ## The announced size -/

/-- The strings have at most 65535 bytes, and data has the bytes that its length counts. -/
structure MqttConnectArgs.InMemory (a : MqttConnectArgs) : Prop where
  clientId : ∀ s, a.clientId = some s → strlen s ≤ 65535
  willTopic : ∀ s, a.willTopic = some s → strlen s ≤ 65535
  willMsg : ∀ d, a.willMsg = some d → a.willMsgLen.toNat ≤ d.length
  userName : ∀ s, a.userName = some s → strlen s ≤ 65535
  password : ∀ d, a.password = some d → a.passwordLen.toNat ≤ d.length

/-- What `stream_mqtt_connect` builds is one frame, with the body that its fixed header announces,
and fits in the allocation. -/
def ConnectExact (a : MqttConnectArgs) : Prop :=
  ∃ body, mqttFormatConnect a = some body ∧ body.length = mqttEvalConnect a ∧
    let header := mqttFormatFixedHeader MqttPacketType.connect.toByte 0 (mqttEvalConnect a)
    mqttParseFrame (header ++ body) =
      .frame header.length ⟨MqttPacketType.connect.toByte, 0, body.length⟩ (header ++ body).length ∧
    (header ++ body).length ≤ mqttEvalConnect a + mqttMaxFixedHeaderSize

section Announced

variable {a : MqttConnectArgs}

/-- The size of an optional string, in the body and as it is announced. -/
def stringSize (s : Option CString) : Nat := match s with | some s => mqttStrLengthSize + strlen s | none => 0

theorem length_putOptional {s : Option CString} (h : ∀ str, s = some str → strlen str ≤ 65535) :
    (match s with | some s => mqttPutString s | none => []).length = stringSize s := by
  cases s with
  | none => rfl
  | some str =>
    simp only [mqttPutString_putField (h str rfl), length_putField]
    rfl

/-- The size of optional data in the body goes by the pointer. -/
theorem length_putData {d : Option Bytes} {len : UInt16} (h : ∀ data, d = some data → len.toNat ≤ data.length) :
    (match d with | some d => mqttPutShort len ++ mqttPutData d len | none => []).length =
      if d.isSome then mqttStrLengthSize + len.toNat else 0 := by
  cases d with
  | none => rfl
  | some data =>
    have hlen := h data rfl
    simp only [List.length_append, length_mqttPutShort, mqttPutData, List.length_take, Option.isSome_some, if_true,
      mqttStrLengthSize]
    omega

theorem length_mqttFormatConnect (w : a.InMemory) {clientId : CString} (hid : a.clientId = some clientId) :
    ∃ body, mqttFormatConnect a = some body ∧
      body.length = mqttConnectVariableHeaderSize + stringSize a.clientId + stringSize a.willTopic +
        (if a.willMsg.isSome then mqttStrLengthSize + a.willMsgLen.toNat else 0) + stringSize a.userName +
        (if a.password.isSome then mqttStrLengthSize + a.passwordLen.toNat else 0) := by
  have hclient : (mqttPutString clientId).length = stringSize a.clientId := by
    rw [mqttPutString_putField (w.clientId clientId hid), length_putField, hid]
    rfl
  have hheader : (mqttPutString mqttProtocolName ++ mqttPutByte mqttProtocolLevel ++ mqttPutByte (mqttConnectFlags a) ++
      mqttPutShort a.keepAlive ++ mqttPutString clientId).length = mqttConnectVariableHeaderSize + stringSize a.clientId := by
    rw [List.length_append, hclient]
    rfl
  -- the parts of the body in the order in which they are put
  have hparts := congrArg₂ (· + ·) (congrArg₂ (· + ·) (congrArg₂ (· + ·) (congrArg₂ (· + ·) hheader
    (length_putOptional w.willTopic)) (length_putData w.willMsg)) (length_putOptional w.userName)) (length_putData w.password)
  simp only [← List.length_append] at hparts
  unfold mqttFormatConnect
  rw [hid] at hparts ⊢
  exact ⟨_, rfl, hparts⟩

/-- The evaluation goes by the length. -/
theorem mqttEvalConnect_eq (a : MqttConnectArgs) : mqttEvalConnect a =
    mqttConnectVariableHeaderSize + stringSize a.clientId + stringSize a.willTopic +
      (if a.willMsgLen > 0 then mqttStrLengthSize + a.willMsgLen.toNat else 0) + stringSize a.userName +
      (if a.passwordLen > 0 then mqttStrLengthSize + a.passwordLen.toNat else 0) := rfl

/-- A body has at most five fields of 65535 bytes. -/
theorem mqttEvalConnect_le (w : a.InMemory) : mqttEvalConnect a ≤ mqttMaxBodyLength := by
  have hstring : ∀ {s : Option CString}, (∀ str, s = some str → strlen str ≤ 65535) → stringSize s ≤ 65537 := by
    intro s h
    cases s with
    | none => exact Nat.zero_le _
    | some str =>
      have := h str rfl
      simp only [stringSize, mqttStrLengthSize]
      omega
  have hdata : ∀ len : UInt16, (if len > 0 then mqttStrLengthSize + len.toNat else 0) ≤ 65537 := by
    intro len
    have := len.toNat_lt
    simp only [mqttStrLengthSize]
    split <;> omega
  have hclient := hstring w.clientId
  have htopic := hstring w.willTopic
  have huser := hstring w.userName
  have hmsg := hdata a.willMsgLen
  have hpassword := hdata a.passwordLen
  rw [mqttEvalConnect_eq, mqttConnectVariableHeaderSize, mqttMaxBodyLength]
  omega

/-- A length field that is missing and one that is superfluous do not cancel out. -/
theorem dataSizes_eq_iff {p q : Prop} [Decidable p] [Decidable q] {n m : Nat} :
    (if p then mqttStrLengthSize + n else 0) + (if q then mqttStrLengthSize + m else 0) =
        (if 0 < n then mqttStrLengthSize + n else 0) + (if 0 < m then mqttStrLengthSize + m else 0) ↔
      (p ↔ 0 < n) ∧ (q ↔ 0 < m) := by
  rw [mqttStrLengthSize]
  by_cases hp : p <;> by_cases hq : q <;>
    simp only [hp, hq, if_true, if_false, true_iff, false_iff] <;> split <;> split <;> omega

/-- What is built is as long as it is announced if and only if there is a client id, and data comes
with a length above 0 where it comes at all. -/
theorem connectExact_iff (w : a.InMemory) : ConnectExact a ↔
    a.clientId.isSome = true ∧ (a.willMsg.isSome = true ↔ a.willMsgLen > 0) ∧
      (a.password.isSome = true ↔ a.passwordLen > 0) := by
  have hpos : ∀ len : UInt16, len > 0 ↔ 0 < len.toNat := fun len => UInt16.lt_iff_toNat_lt
  cases hid : a.clientId with
  | none =>
    constructor
    · rintro ⟨body, hbody, -⟩
      rw [mqttFormatConnect, hid] at hbody
      cases hbody
    · rintro ⟨hsome, -⟩
      cases hsome
  | some clientId =>
    obtain ⟨body, hbody, hlen⟩ := length_mqttFormatConnect w hid
    -- the two lengths differ by the fields that are counted by length and put by pointer
    have hexact : body.length = mqttEvalConnect a ↔
        (a.willMsg.isSome = true ↔ a.willMsgLen > 0) ∧ (a.password.isSome = true ↔ a.passwordLen > 0) := by
      rw [hlen, mqttEvalConnect_eq]
      simp only [hpos]
      rw [← dataSizes_eq_iff]
      omega
    rw [← hexact]
    constructor
    · rintro ⟨body', hbody', heq, -⟩
      rw [hbody] at hbody'
      cases hbody'
      exact ⟨rfl, heq⟩
    · rintro ⟨-, heq⟩
      have hle := mqttEvalConnect_le w
      have hparse := mqttParseFrame_header (MqttPacketType.toByte_lt .connect) (show (0 : UInt8) < 16 by decide) hle body
      rw [if_neg (by omega), ← heq, ← List.length_append] at hparse
      refine ⟨body, hbody, heq, ?_, ?_⟩
      · rw [← heq]
        exact hparse
      · have hfits := mqttFormatFixedHeader_fits MqttPacketType.connect.toByte 0 hle
        rw [List.length_append, heq]
        omega

end Announced

theorem plainConnect_inMemory : plainConnect.InMemory where
  clientId := plainConnect_wellFormed.clientId
  willTopic := plainConnect_wellFormed.willTopic
  willMsg := by rintro d ⟨⟩
  userName := plainConnect_wellFormed.userName
  password := by rintro d ⟨⟩

theorem fullConnect_inMemory : fullConnect.InMemory where
  clientId := fullConnect_wellFormed.clientId
  willTopic := fullConnect_wellFormed.willTopic
  willMsg := by rintro d ⟨⟩; decide
  userName := fullConnect_wellFormed.userName
  password := by rintro d ⟨⟩; decide

theorem connectExact_full : ConnectExact fullConnect :=
  (connectExact_iff fullConnect_inMemory).2 ⟨rfl, by decide, by decide⟩

/-- The two length bytes of an empty will message are put, and they are not announced. -/
theorem connect_emptyWill : ¬ ∀ a : MqttConnectArgs, a.InMemory → ConnectExact a := by
  intro h
  let emptyWill : MqttConnectArgs := { plainConnect with willTopic := some ⟨[0x77], by decide⟩, willMsg := some [] }
  have hmemory : emptyWill.InMemory := { plainConnect_inMemory with
    willTopic := by rintro s ⟨⟩; decide
    willMsg := by rintro d ⟨⟩; decide }
  obtain ⟨body, hbody, hlen, -⟩ := h emptyWill hmemory
  cases hbody
  exact absurd hlen (by decide)

end CMx.Mqtt
