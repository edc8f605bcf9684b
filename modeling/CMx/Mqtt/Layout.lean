/-
The layout of packet bodies: which fields a body of each type declares and where they end, read
off the body alone. The parsers of `mqtt.c` follow the layout without looking at the body's length
first, so a parser keeps to its body exactly when the declared fields fit into it.
-/
import CMx.Mqtt.Body

namespace CMx.Mqtt

/-! ## Fields -/

/-- A field of a body: one byte, two, or a string behind its two-byte length. -/
inductive Field where
  | byte | short | string
  deriving DecidableEq, Repr

/-- The offset behind a field at `o`, if a body of `n` bytes holds it. -/
def Field.skip (m : Mem) (n o : Nat) : Field → Option Nat
  | .byte => if o + 1 ≤ n then some (o + 1) else none
  | .short => if o + 2 ≤ n then some (o + 2) else none
  | .string => if o + 2 + (shortAt m o).toNat ≤ n then some (o + 2 + (shortAt m o).toNat) else none

/-- The offset behind a list of fields. -/
def skipFields (m : Mem) (n : Nat) : (o : Nat) → List Field → Option Nat
  | o, [] => some o
  | o, f :: fields => (f.skip m n o).bind fun o => skipFields m n o fields

/-! ## The body parsers -/

/-- A body parser, with what it finds in the struct it fills. -/
inductive BodyParser where
  | connect (old : MqttConnect)
  | connack (old : MqttConnack)
  | publish (old : MqttPublish) (qos : UInt8)
  | subscribe (old : MqttSubscribe)
  | suback (old : MqttSuback)
  | unsubscribe (old : MqttUnsubscribe)
  | unsuback (old : MqttUnsuback)
  | varHeaderId (old : MqttVarHeaderId)

/-- The return value of `mqtt_parse_*` on a body of `n` bytes, and its accesses. -/
def BodyParser.run (n : Nat) (m : Mem) : BodyParser → Int × List Access
  | .connect old => (((mqttParseConnect old n).value m).1, (mqttParseConnect old n).accesses m)
  | .connack old => (((mqttParseConnack old n).value m).1, (mqttParseConnack old n).accesses m)
  | .publish old qos => (((mqttParsePublish old n qos).value m).1, (mqttParsePublish old n qos).accesses m)
  | .subscribe old => (((mqttParseSubscribe old n).value m).1, (mqttParseSubscribe old n).accesses m)
  | .suback old => (((mqttParseSuback old n).value m).1, (mqttParseSuback old n).accesses m)
  | .unsubscribe old => (((mqttParseUnsubscribe old n).value m).1, (mqttParseUnsubscribe old n).accesses m)
  | .unsuback old => (((mqttParseUnsuback old n).value m).1, (mqttParseUnsuback old n).accesses m)
  | .varHeaderId old => (((mqttParseVarHeaderId old n).value m).1, (mqttParseVarHeaderId old n).accesses m)

/-- The flags byte of a CONNECT body. -/
def connectFlags (m : Mem) : UInt8 := m (2 + (shortAt m 0).toNat + 1)

/-- The optional fields of a CONNECT body. -/
def willFields (flags : UInt8) : List Field :=
  if flags &&& mqttConnectWillFlag ≠ 0 then [.string, .string] else []

def userNameFields (flags : UInt8) : List Field := if flags &&& mqttConnectUserName ≠ 0 then [.string] else []

def passwordFields (flags : UInt8) : List Field := if flags &&& mqttConnectPassword ≠ 0 then [.string] else []

/-- The fields a body declares; the payload of a PUBLISH is what is left behind them. -/
def BodyParser.fields (m : Mem) : BodyParser → List Field
  | .connect _ =>
    [.string, .byte, .byte, .short, .string] ++ willFields (connectFlags m) ++ userNameFields (connectFlags m)
      ++ passwordFields (connectFlags m)
  | .connack _ => [.byte, .byte]
  | .publish _ qos => .string :: if qos > mqttQos0 then [.short] else []
  | .subscribe _ => [.short, .string, .byte]
  | .suback _ => [.short, .byte]
  | .unsubscribe _ => [.short, .string]
  | .unsuback _ => [.short]
  | .varHeaderId _ => [.short]

/-- Where the declared fields end, if a body of `n` bytes holds them. -/
def BodyParser.fieldsEnd (p : BodyParser) (m : Mem) (n : Nat) : Option Nat := skipFields m n 0 (p.fields m)

/-! ## What the fields of a body read -/

/-- The accesses of a parser that follows a list of fields. -/
def fieldAccesses (m : Mem) : (o : Nat) → List Field → List Access
  | _, [] => []
  | o, .byte :: fields => .read o :: fieldAccesses m (o + 1) fields
  | o, .short :: fields => .read o :: .read (o + 1) :: fieldAccesses m (o + 2) fields
  | o, .string :: fields =>
    .read o :: .read (o + 1) :: .report (o + 2) (shortAt m o).toNat
      :: fieldAccesses m (o + 2 + (shortAt m o).toNat) fields

/-- Where it ends, whatever the length of the body. -/
def fieldsReach (m : Mem) : (o : Nat) → List Field → Nat
  | o, [] => o
  | o, .byte :: fields => fieldsReach m (o + 1) fields
  | o, .short :: fields => fieldsReach m (o + 2) fields
  | o, .string :: fields => fieldsReach m (o + 2 + (shortAt m o).toNat) fields

/-- A read of an offset below `n`, or a reported range that ends there. -/
def Access.below (n : Nat) : Access → Prop
  | .read offset => offset < n
  | .report offset len => offset + len ≤ n

theorem Access.below_mono {n n' : Nat} (hn : n ≤ n') {a : Access} (h : a.below n) : a.below n' := by
  cases a with
  | read offset => exact lt_of_lt_of_le h hn
  | report offset len => exact le_trans h hn

theorem le_fieldsReach (m : Mem) : ∀ (o : Nat) (fields : List Field), o ≤ fieldsReach m o fields
  | o, [] => le_refl o
  | o, .byte :: fields => le_trans (by omega) (le_fieldsReach m (o + 1) fields)
  | o, .short :: fields => le_trans (by omega) (le_fieldsReach m (o + 2) fields)
  | o, .string :: fields => le_trans (by omega) (le_fieldsReach m (o + 2 + (shortAt m o).toNat) fields)

/-- Every access of the fields lies below their end. -/
theorem fieldAccesses_below (m : Mem) : ∀ (o : Nat) (fields : List Field),
    ∀ a ∈ fieldAccesses m o fields, a.below (fieldsReach m o fields)
  | o, [], a, ha => by cases ha
  | o, .byte :: fields, a, ha => by
    have hle := le_fieldsReach m (o + 1) fields
    simp only [fieldAccesses, List.mem_cons] at ha
    rcases ha with rfl | ha
    · simp only [Access.below, fieldsReach]; omega
    · exact fieldAccesses_below m (o + 1) fields a ha
  | o, .short :: fields, a, ha => by
    have hle := le_fieldsReach m (o + 2) fields
    simp only [fieldAccesses, List.mem_cons] at ha
    rcases ha with rfl | rfl | ha
    · simp only [Access.below, fieldsReach]; omega
    · simp only [Access.below, fieldsReach]; omega
    · exact fieldAccesses_below m (o + 2) fields a ha
  | o, .string :: fields, a, ha => by
    have hle := le_fieldsReach m (o + 2 + (shortAt m o).toNat) fields
    simp only [fieldAccesses, List.mem_cons] at ha
    rcases ha with rfl | rfl | rfl | ha
    · simp only [Access.below, fieldsReach]; omega
    · simp only [Access.below, fieldsReach]; omega
    · simp only [Access.below, fieldsReach]; omega
    · exact fieldAccesses_below m _ fields a ha

/-- The fields fit exactly when their end lies in the body. -/
theorem skipFields_eq (m : Mem) (n : Nat) : ∀ (o : Nat) (fields : List Field), o ≤ n →
    skipFields m n o fields = if fieldsReach m o fields ≤ n then some (fieldsReach m o fields) else none
  | o, [], ho => by simp [skipFields, fieldsReach, ho]
  | o, f :: fields, ho => by
    have step : ∀ o', o ≤ o' → f.skip m n o = (if o' ≤ n then some o' else none) →
        fieldsReach m o (f :: fields) = fieldsReach m o' fields →
        skipFields m n o (f :: fields) =
          if fieldsReach m o (f :: fields) ≤ n then some (fieldsReach m o (f :: fields)) else none := by
      intro o' _ hs hr
      rw [skipFields, hs, hr]
      by_cases h : o' ≤ n
      · rw [if_pos h]
        exact skipFields_eq m n o' fields h
      · have := le_fieldsReach m o' fields
        rw [if_neg h, if_neg (by omega)]
        rfl
    cases f with
    | byte => exact step (o + 1) (by omega) rfl rfl
    | short => exact step (o + 2) (by omega) rfl rfl
    | string => exact step (o + 2 + (shortAt m o).toNat) (by omega) rfl rfl

theorem fieldsEnd_eq (p : BodyParser) (m : Mem) (n : Nat) :
    p.fieldsEnd m n = if fieldsReach m 0 (p.fields m) ≤ n then some (fieldsReach m 0 (p.fields m)) else none :=
  skipFields_eq m n 0 _ (Nat.zero_le n)

/-! ## The parsers follow the layout -/

/-- Is it a PUBLISH body, which ends in a payload? -/
def BodyParser.hasPayload : BodyParser → Bool
  | .publish _ _ => true
  | _ => false

/-- A part of `mqtt_parse_connect` that goes through some fields from an offset on. -/
def Follows (m : Mem) (x : Rd (Nat × MqttConnect)) (o : Nat) (fields : List Field) : Prop :=
  (x.value m).1 = fieldsReach m o fields ∧ x.accesses m = fieldAccesses m o fields

theorem follows_will (m : Mem) (payload : MqttConnect) (flags : UInt8) (o : Nat) :
    Follows m (mqttParseConnectWill payload flags o) o (willFields flags) := by
  by_cases h : flags &&& mqttConnectWillFlag = 0
  · simp [Follows, mqttParseConnectWill, willFields, h, fieldsReach, fieldAccesses]
  · simp [Follows, mqttParseConnectWill, willFields, h, fieldsReach, fieldAccesses, ← add_assoc]

theorem follows_userName (m : Mem) (payload : MqttConnect) (flags : UInt8) (o : Nat) :
    Follows m (mqttParseConnectUserName payload flags o) o (userNameFields flags) := by
  by_cases h : flags &&& mqttConnectUserName = 0
  · simp [Follows, mqttParseConnectUserName, userNameFields, h, fieldsReach, fieldAccesses]
  · simp [Follows, mqttParseConnectUserName, userNameFields, h, fieldsReach, fieldAccesses, ← add_assoc]

theorem follows_password (m : Mem) (payload : MqttConnect) (flags : UInt8) (o : Nat) :
    Follows m (mqttParseConnectPassword payload flags o) o (passwordFields flags) := by
  by_cases h : flags &&& mqttConnectPassword = 0
  · simp [Follows, mqttParseConnectPassword, passwordFields, h, fieldsReach, fieldAccesses]
  · simp [Follows, mqttParseConnectPassword, passwordFields, h, fieldsReach, fieldAccesses]

theorem fieldsReach_append (m : Mem) (b : List Field) : ∀ (o : Nat) (a : List Field),
    fieldsReach m o (a ++ b) = fieldsReach m (fieldsReach m o a) b
  | _, [] => rfl
  | o, .byte :: a => fieldsReach_append m b (o + 1) a
  | o, .short :: a => fieldsReach_append m b (o + 2) a
  | o, .string :: a => fieldsReach_append m b (o + 2 + (shortAt m o).toNat) a

theorem fieldAccesses_append (m : Mem) (b : List Field) : ∀ (o : Nat) (a : List Field),
    fieldAccesses m o (a ++ b) = fieldAccesses m o a ++ fieldAccesses m (fieldsReach m o a) b
  | _, [] => rfl
  | o, .byte :: a => by simp [fieldAccesses, fieldsReach, fieldAccesses_append m b (o + 1) a]
  | o, .short :: a => by simp [fieldAccesses, fieldsReach, fieldAccesses_append m b (o + 2) a]
  | o, .string :: a => by
    simp [fieldAccesses, fieldsReach, fieldAccesses_append m b (o + 2 + (shortAt m o).toNat) a]

/-- The end of a list of fields as a parser without a payload returns it: -1 if the body is longer. -/
def returned (n reach : Nat) : Int := if reach < n then -1 else reach

theorem run_connect (old : MqttConnect) (n : Nat) (m : Mem) :
    (BodyParser.connect old).run n m =
      (returned n (fieldsReach m 0 ((BodyParser.connect old).fields m)),
        fieldAccesses m 0 ((BodyParser.connect old).fields m)) := by
  have hw := fun payload o => follows_will m payload (connectFlags m) o
  have hu := fun payload o => follows_userName m payload (connectFlags m) o
  have hp := fun payload o => follows_password m payload (connectFlags m) o
  unfold Follows connectFlags at hw hu hp
  simp only [BodyParser.run, BodyParser.fields, connectFlags, fieldsReach_append, fieldAccesses_append]
  simp [mqttParseConnect, fieldsReach, fieldAccesses, returned, hw, hu, hp, ← add_assoc]

/-- What a parser without a payload does. -/
theorem run_fields (p : BodyParser) (hp : p.hasPayload = false) (n : Nat) (m : Mem) :
    p.run n m = (returned n (fieldsReach m 0 (p.fields m)), fieldAccesses m 0 (p.fields m)) := by
  unfold returned
  cases p with
  | publish old qos => cases hp
  | connect old => exact run_connect old n m
  | connack old => simp [BodyParser.run, BodyParser.fields, mqttParseConnack, fieldsReach, fieldAccesses]
  | subscribe old => simp [BodyParser.run, BodyParser.fields, mqttParseSubscribe, fieldsReach, fieldAccesses, ← add_assoc]
  | suback old => simp [BodyParser.run, BodyParser.fields, mqttParseSuback, fieldsReach, fieldAccesses]
  | unsubscribe old => simp [BodyParser.run, BodyParser.fields, mqttParseUnsubscribe, fieldsReach, fieldAccesses, ← add_assoc]
  | unsuback old => simp [BodyParser.run, BodyParser.fields, mqttParseUnsuback, fieldsReach, fieldAccesses]; rfl
  | varHeaderId old => simp [BodyParser.run, BodyParser.fields, mqttParseVarHeaderId, fieldsReach, fieldAccesses]; rfl

/-- The length a PUBLISH parser takes for the payload behind `offset`: 16 bits of the difference. -/
def payloadTaken (n offset : Nat) : Nat := (UInt16.ofNat (sizeSub n offset)).toNat

theorem payloadTaken_eq {n offset : Nat} (h : offset ≤ n) : payloadTaken n offset = (n - offset) % 65536 := by
  have hwrap : n + 2 ^ 64 - offset = n - offset + 2 ^ 64 := by omega
  unfold payloadTaken sizeSub
  rw [UInt16.toNat_ofNat', hwrap, Nat.add_mod_right]
  omega

/-- The offset behind the fields of a PUBLISH body, where its payload starts. -/
def publishReach (m : Mem) (qos : UInt8) : Nat := 2 + (shortAt m 0).toNat + if qos > mqttQos0 then 2 else 0

theorem value_mqttParsePublish (old : MqttPublish) (n : Nat) (qos : UInt8) (m : Mem) :
    (mqttParsePublish old n qos).value m =
      (((publishReach m qos + payloadTaken n (publishReach m qos) : Nat) : Int),
        { id := if qos > mqttQos0 then shortAt m (2 + (shortAt m 0).toNat) else old.id, topic := .body 2,
          topicLen := shortAt m 0, payload := .body (publishReach m qos),
          payloadLen := UInt16.ofNat (sizeSub n (publishReach m qos)) }) := by
  unfold mqttParsePublish mqttParsePublishId publishReach payloadTaken
  by_cases h : qos > mqttQos0
  · simp only [h, if_true, Rd.value_bind, Rd.value_pure, value_mqttGetString, value_mqttGetShort, value_mqttGetData]
  · simp only [h, if_false, Rd.value_bind, Rd.value_pure, value_mqttGetString, value_mqttGetData, add_zero]

theorem accesses_mqttParsePublish (old : MqttPublish) (n : Nat) (qos : UInt8) (m : Mem) :
    (mqttParsePublish old n qos).accesses m =
      [.read 0, .read 1, .report 2 (shortAt m 0).toNat]
        ++ (if qos > mqttQos0 then [.read (2 + (shortAt m 0).toNat), .read (2 + (shortAt m 0).toNat + 1)] else [])
        ++ [.report (publishReach m qos) (payloadTaken n (publishReach m qos))] := by
  unfold mqttParsePublish mqttParsePublishId publishReach payloadTaken
  by_cases h : qos > mqttQos0
  · simp only [h, if_true, Rd.accesses_bind, Rd.accesses_pure, Rd.value_bind, Rd.value_pure, value_mqttGetString,
      accesses_mqttGetString, value_mqttGetShort, accesses_mqttGetShort, value_mqttGetData, accesses_mqttGetData,
      List.append_nil, List.cons_append, List.nil_append, Nat.zero_add]
  · simp only [h, if_false, Rd.accesses_bind, Rd.accesses_pure, Rd.value_pure, value_mqttGetString,
      accesses_mqttGetString, value_mqttGetData, accesses_mqttGetData, add_zero,
      List.append_nil, List.cons_append, List.nil_append, Nat.zero_add]

theorem fieldsReach_publish (old : MqttPublish) (qos : UInt8) (m : Mem) :
    fieldsReach m 0 ((BodyParser.publish old qos).fields m) = publishReach m qos := by
  simp only [BodyParser.fields, publishReach]
  split <;> simp [fieldsReach]

theorem run_publish (old : MqttPublish) (qos : UInt8) (n : Nat) (m : Mem) :
    (BodyParser.publish old qos).run n m =
      (((publishReach m qos + payloadTaken n (publishReach m qos) : Nat) : Int),
        fieldAccesses m 0 ((BodyParser.publish old qos).fields m)
          ++ [.report (publishReach m qos) (payloadTaken n (publishReach m qos))]) := by
  simp only [BodyParser.run, value_mqttParsePublish, accesses_mqttParsePublish, BodyParser.fields]
  split <;> simp [fieldAccesses]

/-! ## Keeping to the body -/

/-- A parser keeps to a body of `n` bytes: it reads only these, and it returns -1, or the length
of the body with every reported string and data field inside it. -/
structure KeepsToBody (p : BodyParser) (m : Mem) (n : Nat) : Prop where
  reads : ∀ offset, .read offset ∈ (p.run n m).2 → offset < n
  accepts : 0 ≤ (p.run n m).1 →
    (p.run n m).1 = n ∧ ∀ offset len, .report offset len ∈ (p.run n m).2 → offset + len ≤ n
  rejects : (p.run n m).1 < 0 → (p.run n m).1 = -1

/-- The declared fields lie in the body, and a payload behind them is shorter than 65536 bytes. -/
def FitsBody (p : BodyParser) (m : Mem) (n : Nat) : Prop :=
  ∃ e, p.fieldsEnd m n = some e ∧ (p.hasPayload = true → n - e < 65536)

theorem fitsBody_iff {p : BodyParser} {m : Mem} {n : Nat} :
    FitsBody p m n ↔ fieldsReach m 0 (p.fields m) ≤ n ∧
      (p.hasPayload = true → n - fieldsReach m 0 (p.fields m) < 65536) := by
  unfold FitsBody
  rw [fieldsEnd_eq]
  by_cases h : fieldsReach m 0 (p.fields m) ≤ n
  · simp [h]
  · simp [h]

theorem keepsToBody_fields {p : BodyParser} (hp : p.hasPayload = false) (m : Mem) (n : Nat) :
    KeepsToBody p m n ↔ fieldsReach m 0 (p.fields m) ≤ n := by
  have hrun := run_fields p hp n m
  have hbelow := fieldAccesses_below m 0 (p.fields m)
  constructor
  · intro k
    by_contra hlt
    have hacc := k.accepts
    rw [hrun] at hacc
    simp only [returned, if_neg (show ¬ fieldsReach m 0 (p.fields m) < n by omega)] at hacc
    have := (hacc (by omega)).1
    omega
  · intro h
    have hin : ∀ a ∈ (p.run n m).2, a.below n := by
      rw [hrun]
      exact fun a ha => Access.below_mono h (hbelow a ha)
    refine ⟨fun o ho => hin _ ho, fun hpos => ⟨?_, fun o len ho => hin _ ho⟩, fun hneg => ?_⟩
    · rw [hrun] at hpos ⊢
      simp only [returned] at hpos ⊢
      split at hpos
      · omega
      · rename_i hlt
        rw [if_neg hlt]; omega
    · rw [hrun] at hneg ⊢
      simp only [returned] at hneg ⊢
      split at hneg
      · rename_i hlt; rw [if_pos hlt]
      · omega

theorem keepsToBody_publish (old : MqttPublish) (qos : UInt8) (m : Mem) (n : Nat) :
    KeepsToBody (.publish old qos) m n ↔ publishReach m qos ≤ n ∧ n - publishReach m qos < 65536 := by
  have hrun := run_publish old qos n m
  have hbelow := fieldAccesses_below m 0 ((BodyParser.publish old qos).fields m)
  rw [fieldsReach_publish] at hbelow
  constructor
  · intro k
    have hacc := k.accepts
    rw [hrun] at hacc
    have hlen : ((publishReach m qos + payloadTaken n (publishReach m qos) : Nat) : Int) = n := (hacc (by omega)).1
    have he : publishReach m qos ≤ n := by omega
    refine ⟨he, ?_⟩
    rw [payloadTaken_eq he] at hlen
    have := Nat.mod_lt (n - publishReach m qos) (show 65536 > 0 by omega)
    omega
  · rintro ⟨he, hlt⟩
    have htaken : payloadTaken n (publishReach m qos) = n - publishReach m qos := by
      rw [payloadTaken_eq he, Nat.mod_eq_of_lt hlt]
    have hin : ∀ a ∈ ((BodyParser.publish old qos).run n m).2, a.below n := by
      rw [hrun, htaken]
      intro a ha
      rcases List.mem_append.1 ha with ha | ha
      · exact Access.below_mono he (hbelow a ha)
      · rw [List.mem_singleton] at ha; subst ha
        simp only [Access.below]; omega
    refine ⟨fun o ho => hin _ ho, fun _ => ⟨?_, fun o len ho => hin _ ho⟩, fun hneg => ?_⟩
    · rw [hrun, htaken]; simp only; omega
    · rw [hrun] at hneg; simp only at hneg; omega

/-- A parser keeps to its body exactly when the body holds the fields it declares and, behind
those of a PUBLISH, a payload whose length has 16 bits. -/
theorem keepsToBody_iff (p : BodyParser) (m : Mem) (n : Nat) : KeepsToBody p m n ↔ FitsBody p m n := by
  rw [fitsBody_iff]
  cases hp : p.hasPayload with
  | false => rw [keepsToBody_fields hp]; simp
  | true =>
    cases p with
    | publish old qos => rw [keepsToBody_publish, fieldsReach_publish]; simp
    | _ => cases hp

/-- An empty body: the packet id is read behind it, and 2 is returned. -/
theorem varHeaderId_overreads : ¬ ∀ (p : BodyParser) (m : Mem) (n : Nat), KeepsToBody p m n := by
  intro h
  have k := (h (.varHeaderId ⟨0⟩) (fun _ => 0) 0).reads
  exact absurd (k 0 (by simp [BodyParser.run, mqttParseVarHeaderId])) (Nat.lt_irrefl 0)

/-! ## Valid bodies -/

/-- The parser for the bodies of a packet type. The other types declare no fields. -/
def bodyParser (type : MqttPacketType) (flags : UInt8) : Option BodyParser :=
  match type with
  | .connect => some (.connect {})
  | .connack => some (.connack {})
  | .publish => some (.publish {} (mqttQosFromFlags flags))
  | .puback | .pubrec | .pubrel | .pubcomp => some (.varHeaderId ⟨0⟩)
  | .subscribe => some (.subscribe {})
  | .suback => some (.suback {})
  | .unsubscribe => some (.unsubscribe {})
  | .unsuback => some (.unsuback {})
  | .forbidden | .pingreq | .pingresp | .disconnect => none

/-- A body of `n` bytes that consists of the fields it declares, with the payload of a PUBLISH
behind them. -/
def BodyParser.valid (p : BodyParser) (m : Mem) (n : Nat) : Bool :=
  match p.fieldsEnd m n with
  | none => false
  | some e => p.hasPayload || e == n

/-- A valid encoding for its packet type. -/
def validBody (header : MqttFixedHeader) (m : Mem) : Bool :=
  match (MqttPacketType.ofByte header.type).bind (bodyParser · header.flags) with
  | none => true
  | some p => p.valid m header.bodyLength

theorem valid_iff {p : BodyParser} {m : Mem} {n : Nat} :
    p.valid m n = true ↔
      fieldsReach m 0 (p.fields m) ≤ n ∧ (p.hasPayload = false → fieldsReach m 0 (p.fields m) = n) := by
  unfold BodyParser.valid
  rw [fieldsEnd_eq]
  by_cases h : fieldsReach m 0 (p.fields m) ≤ n
  · cases hp : p.hasPayload <;> simp [h]
  · simp [h]

/-- An invalid body is one that the parser rejects, or that is shorter than the fields it declares. -/
theorem valid_eq_false_iff (p : BodyParser) (m : Mem) (n : Nat) :
    p.valid m n = false ↔ (p.run n m).1 = -1 ∨ p.fieldsEnd m n = none := by
  rw [← Bool.not_eq_true, valid_iff, fieldsEnd_eq]
  cases hp : p.hasPayload with
  | false =>
    rw [run_fields p hp]
    unfold returned
    by_cases h : fieldsReach m 0 (p.fields m) ≤ n <;>
      by_cases h' : fieldsReach m 0 (p.fields m) < n <;> simp [h, h'] <;> omega
  | true =>
    cases p with
    | publish old qos =>
      rw [run_publish]
      by_cases h : fieldsReach m 0 ((BodyParser.publish old qos).fields m) ≤ n
      · simp [h]; omega
      · simp [h]
    | _ => cases hp

/-! ## The ids of valid bodies -/

/-- Two memories that agree on a body. -/
def AgreeBelow (n : Nat) (m m' : Mem) : Prop := ∀ i < n, m i = m' i

theorem AgreeBelow.symm {n : Nat} {m m' : Mem} (h : AgreeBelow n m m') : AgreeBelow n m' m :=
  fun i hi => (h i hi).symm

theorem AgreeBelow.shortAt_eq {n : Nat} {m m' : Mem} (h : AgreeBelow n m m') {o : Nat} (ho : o + 2 ≤ n) :
    shortAt m o = shortAt m' o := by
  unfold shortAt
  rw [h o (by omega), h (o + 1) (by omega)]

theorem length_bytes (m : Mem) (o len : Nat) : (m.bytes o len).length = len := by simp [Mem.bytes]

/-- The bytes of a body, and memory that starts with them. -/
theorem agreeBelow_bytes (m stale : Mem) (n : Nat) : AgreeBelow n m (memOf (m.bytes 0 n) stale) := by
  intro i hi
  simp [memOf, Mem.bytes, hi]

/-- The id in a PUBLISH body, if its QoS asks for one. -/
def publishIdAt (m : Mem) : UInt16 := shortAt m (2 + (shortAt m 0).toNat)

/-- The id does not depend on what lies behind the fields. -/
theorem AgreeBelow.publishIdAt_eq {n : Nat} {m m' : Mem} (h : AgreeBelow n m m')
    (hn : 2 + (shortAt m 0).toNat + 2 ≤ n) : publishIdAt m = publishIdAt m' := by
  unfold publishIdAt
  rw [h.shortAt_eq hn, h.shortAt_eq (o := 0) (by omega)]

end CMx.Mqtt
