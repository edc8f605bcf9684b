/-
Opening a connection. A server that accepts a CONNECT is READY, and each endpoint starts its
keep-alive timer if the client has asked for a keep-alive. But the client becomes READY only where
it starts its timer, so a connection without a keep-alive is never READY on the client's side.
-/
import CMx.StreamMqtt.Connect
import CMx.StreamMqtt.KeepAlive
import CMx.StreamMqtt.Reassembly

namespace CMx.Mqtt

/-! ## Bytes that arrive -/

/-- The bytes that `s` has written on the way to `s'`. -/
def bytesSince (s s' : StreamMqtt) : Bytes := (written (eventsSince s s')).flatten

/-- `frame` with `body` is the first frame that the reassembly hands over of a connection that
begins with the bytes `data`, wherever the stream is cut and whatever lies behind the buffer. -/
def Arrives (data : Bytes) (frame : MqttFixedHeader) (body : Mem) : Prop :=
  ∃ buffer rest bodyOffset frameLength stale, buffer <+: data ++ rest ∧
    mqttParseFrame buffer = .frame bodyOffset frame frameLength ∧ body = memOf (buffer.drop bodyOffset) stale

theorem arrives_header {type flags : UInt8} {n : Nat} {tail : Bytes} (ht : type < 16) (hf : flags < 16)
    (hn : n ≤ mqttMaxBodyLength) (hlength : n ≤ tail.length) (stale : Mem) :
    Arrives (mqttFormatFixedHeader type flags n ++ tail) ⟨type, flags, n⟩ (memOf tail stale) := by
  refine ⟨mqttFormatFixedHeader type flags n ++ tail, [], (mqttFormatFixedHeader type flags n).length,
    (mqttFormatFixedHeader type flags n).length + n, stale, List.prefix_append _ _, ?_, ?_⟩
  · rw [mqttParseFrame_header ht hf hn, if_neg (Nat.not_lt.2 hlength)]
  · rw [List.drop_left]

/-- The header arrives as it was formatted, and the body is what follows it, as far as announced. -/
theorem Arrives.eq {type flags : UInt8} {n : Nat} {tail : Bytes} {frame : MqttFixedHeader} {body : Mem}
    (h : Arrives (mqttFormatFixedHeader type flags n ++ tail) frame body) (ht : type < 16) (hf : flags < 16) :
    frame = ⟨type, flags, n⟩ ∧ body.Holds 0 (tail.take n) := by
  obtain ⟨buffer, rest, bodyOffset, frameLength, stale, ⟨more, hbuffer⟩, hparse, rfl⟩ := h
  obtain ⟨-, hlength, hle, hmore⟩ := mqttParseFrame_spec hparse
  have hwhole := hmore more
  rw [hbuffer, List.append_assoc] at hwhole
  rcases lt_or_ge mqttMaxBodyLength n with hlong | hn
  · rw [mqttParseFrame_long hlong] at hwhole
    cases hwhole
  · rw [mqttParseFrame_header ht hf hn] at hwhole
    split at hwhole
    · cases hwhole
    · cases hwhole
      refine ⟨rfl, ?_⟩
      -- the buffer behind the header and the bytes behind it begin alike
      have hdrop : buffer.drop (mqttFormatFixedHeader type flags n).length ++ more = tail ++ rest := by
        rw [← List.drop_append_of_le_length (by omega), hbuffer, List.append_assoc, List.drop_left]
      have hprefix : tail.take n <+: buffer.drop (mqttFormatFixedHeader type flags n).length := by
        refine List.prefix_of_prefix_length_le ((List.take_prefix n tail).trans (List.prefix_append tail rest))
          ⟨more, hdrop⟩ ?_
        rw [List.length_take, List.length_drop]
        omega
      obtain ⟨behind, hbehind⟩ := hprefix
      have hholds := holds_memOf (buffer.drop (mqttFormatFixedHeader type flags n).length) stale
      rw [← hbehind] at hholds ⊢
      exact (holds_append.1 hholds).1

/-! ## The keep-alive time on its way -/

/-- Whatever the other arguments, the body starts with the variable header. -/
theorem mqttFormatConnect_header {a : MqttConnectArgs} {body : Bytes} (h : mqttFormatConnect a = some body) :
    connectHeader a <+: body := by
  unfold mqttFormatConnect at h
  cases hid : a.clientId with
  | none => rw [hid] at h; cases h
  | some clientId =>
    rw [hid] at h
    cases h
    have hheader : connectHeader a = mqttPutString mqttProtocolName ++ mqttPutByte mqttProtocolLevel ++
        mqttPutByte (mqttConnectFlags a) ++ mqttPutShort a.keepAlive := rfl
    rw [hheader]
    simp only [List.append_assoc, List.prefix_append_right_inj]
    exact List.prefix_append _ _

/-- The variable header is never announced short. -/
theorem le_mqttEvalConnect (a : MqttConnectArgs) : (connectHeader a).length ≤ mqttEvalConnect a := by
  rw [length_connectHeader]
  unfold mqttEvalConnect mqttConnectVariableHeaderSize
  omega

/-- The keep-alive time is read from the variable header. -/
theorem keepAlive_mqttParseConnect {a : MqttConnectArgs} {m : Mem} (h : m.Holds 0 (connectHeader a)) (old : MqttConnect)
    (n : Nat) : ((mqttParseConnect old n).value m).2.keepAlive = a.keepAlive := by
  obtain ⟨h, hkeep⟩ := holds_append.1 h
  obtain ⟨h, -⟩ := holds_append.1 h
  obtain ⟨hname, -⟩ := holds_append.1 h
  obtain ⟨hlen, -⟩ := hname.putField (by decide)
  have hwill : ∀ payload flags o, ((mqttParseConnectWill payload flags o).value m).2.keepAlive = payload.keepAlive := by
    intro payload flags o
    rw [value_parseWill]
    split <;> rfl
  have huser : ∀ payload flags o,
      ((mqttParseConnectUserName payload flags o).value m).2.keepAlive = payload.keepAlive := by
    intro payload flags o
    rw [value_parseUserName]
    split <;> rfl
  have hpassword : ∀ payload flags o,
      ((mqttParseConnectPassword payload flags o).value m).2.keepAlive = payload.keepAlive := by
    intro payload flags o
    rw [value_parsePassword]
    split <;> rfl
  rw [value_mqttParseConnect old n m _ _ rfl rfl rfl rfl rfl, hpassword, huser, hwill]
  show shortAt m (2 + (shortAt m 0).toNat + 1 + 1) = a.keepAlive
  rw [hlen]
  exact hkeep.shortAt_eq

/-! ## The two calls -/

theorem connect_spec {env : Env} {s : StreamMqtt} {args : MqttConnectArgs} {ret : Int} {client : StreamMqtt}
    (h : streamMqttConnect env s args = some (ret, client)) :
    ∃ body, mqttFormatConnect args = some body ∧
      client = ({ s with clientRole := true, keepAlive := args.keepAlive.toNat } : StreamMqtt).write none
        (mqttFormatFixedHeader MqttPacketType.connect.toByte 0 (mqttEvalConnect args) ++ body) := by
  unfold streamMqttConnect at h
  cases hbody : mqttFormatConnect args with
  | none => rw [hbody] at h; cases h
  | some body =>
    rw [hbody] at h
    cases h
    exact ⟨body, rfl, rfl⟩

theorem connack_spec (env : Env) (s : StreamMqtt) (sessionPresent : Bool) :
    (streamMqttConnack env s sessionPresent mqttConnackAccepted).2 = (streamMqttSetStatus s .ready).write none
      (mqttFormatFrame MqttPacketType.connack.toByte 0 (mqttFormatConnack sessionPresent mqttConnackAccepted)) := by
  unfold streamMqttConnack
  rw [if_pos rfl]
  rfl

theorem bytesSince_write (s t : StreamMqtt) (ticket : Option Ticket) (data : Bytes) (h : t.trace = s.trace) :
    bytesSince s (t.write ticket data) = data := by
  have htrace : (t.write ticket data).trace = s.trace ++ [.write ticket data] := by rw [← h]; rfl
  rw [bytesSince, eventsSince_eq htrace]
  exact List.append_nil data

theorem arrives_write {s t : StreamMqtt} {ticket : Option Ticket} {data : Bytes} {frame : MqttFixedHeader} {body : Mem}
    (h : t.trace = s.trace) (harrives : Arrives data frame body) :
    Arrives (bytesSince s (t.write ticket data)) frame body := by
  rw [bytesSince_write s t ticket data h]
  exact harrives

theorem bytesSince_connack (env : Env) (s : StreamMqtt) (sessionPresent : Bool) :
    bytesSince s (streamMqttConnack env s sessionPresent mqttConnackAccepted).2 =
      mqttFormatFrame MqttPacketType.connack.toByte 0 (mqttFormatConnack sessionPresent mqttConnackAccepted) := by
  rw [connack_spec]
  exact bytesSince_write _ _ _ _ rfl

/-! ## Opening a connection -/

/-- A fresh stream with an observer or without one. -/
def streamMqttNew (observer : Option Handler) : StreamMqtt := { streamMqttInit with mqttObserver := observer }

/-- Two fresh streams of which one calls `stream_mqtt_connect`, the other handles the CONNECT and
calls `stream_mqtt_connack` to accept it, and the first handles the CONNACK. -/
structure Opening (args : MqttConnectArgs) where
  clientObserver : Option Handler
  serverObserver : Option Handler
  /-- What the four calls find outside the streams. -/
  connecting : Env
  receiving : Env
  granting : Env
  accepting : Env
  ret : Int
  client : StreamMqtt
  connected : streamMqttConnect connecting (streamMqttNew clientObserver) args = some (ret, client)
  connect : MqttFixedHeader
  connectBody : Mem
  connectArrives : Arrives (bytesSince (streamMqttNew clientObserver) client) connect connectBody
  server : StreamMqtt
  received : server = streamMqttHandleReceivedFrame receiving (streamMqttNew serverObserver) connect connectBody
  sessionPresent : Bool
  server' : StreamMqtt
  granted : server' = (streamMqttConnack granting server sessionPresent mqttConnackAccepted).2
  connack : MqttFixedHeader
  connackBody : Mem
  connackArrives : Arrives (bytesSince server server') connack connackBody
  client' : StreamMqtt
  accepted : client' = streamMqttHandleReceivedFrame accepting client connack connackBody

namespace Opening

variable {args : MqttConnectArgs} (o : Opening args)

theorem vitals_client : o.client.vitals =
    { (streamMqttNew o.clientObserver).vitals with clientRole := true, keepAlive := args.keepAlive.toNat } := by
  obtain ⟨body, -, hclient⟩ := connect_spec o.connected
  rw [hclient]
  rfl

/-- The server handles a CONNECT with the keep-alive time of the client. -/
theorem connect_eq : o.connect.type = MqttPacketType.connect.toByte ∧
    connectKeepAlive o.receiving o.connect o.connectBody = args.keepAlive := by
  obtain ⟨body, hbody, hclient⟩ := connect_spec o.connected
  have hbytes : bytesSince (streamMqttNew o.clientObserver) o.client =
      mqttFormatFixedHeader MqttPacketType.connect.toByte 0 (mqttEvalConnect args) ++ body := by
    rw [hclient]
    exact bytesSince_write _ _ _ _ rfl
  have harrives := o.connectArrives
  rw [hbytes] at harrives
  obtain ⟨hframe, hholds⟩ := harrives.eq (by decide) (by decide)
  refine ⟨by rw [hframe], keepAlive_mqttParseConnect ?_ _ _⟩
  have hheader : connectHeader args <+: body.take (mqttEvalConnect args) := by
    refine List.prefix_of_prefix_length_le (mqttFormatConnect_header hbody) (List.take_prefix _ _) ?_
    rw [List.length_take]
    exact le_min (le_mqttEvalConnect args) (mqttFormatConnect_header hbody).length_le
  obtain ⟨behind, hbehind⟩ := hheader
  rw [← hbehind] at hholds
  exact (holds_append.1 hholds).1

/-- The client handles a CONNACK that accepts it. -/
theorem connack_eq : o.connack.type = MqttPacketType.connack.toByte ∧
    connackReturnCode o.connack o.connackBody = mqttConnackAccepted := by
  have harrives := o.connackArrives
  rw [o.granted, bytesSince_connack, mqttFormatFrame] at harrives
  obtain ⟨hframe, hholds⟩ := harrives.eq (by decide) (by decide)
  refine ⟨by rw [hframe], ?_⟩
  exact hholds 1 Nat.one_lt_two

/-- The server is READY, and its timer runs if the client has asked for a keep-alive. -/
theorem server_ready : o.server'.status = .ready ∧
    (timerRunning o.server'.keepAliveTimer = true ↔ args.keepAlive > 0) := by
  obtain ⟨htype, hkeep⟩ := o.connect_eq
  have hconnect : MqttPacketType.ofByte o.connect.type = some .connect := by rw [htype]; rfl
  have hvitals := @vitals_handle_connect o.receiving (streamMqttNew o.serverObserver) o.connect o.connectBody hconnect
  rw [← o.received, hkeep] at hvitals
  have hgranted := connack_spec o.granting o.server o.sessionPresent
  rw [← o.granted] at hgranted
  have htimer : o.server'.keepAliveTimer = o.server.vitals.keepAliveTimer := by rw [hgranted]; rfl
  refine ⟨by rw [hgranted]; rfl, ?_⟩
  rw [htimer, hvitals]
  by_cases hpositive : args.keepAlive > 0
  · rw [if_pos hpositive]
    refine iff_of_true (timerRunning_start _ _ ?_) hpositive
    simp only [mqttKeepAliveTimeout]
    omega
  · rw [if_neg hpositive]
    exact iff_of_false Bool.false_ne_true hpositive

/-- The client is READY, and its timer runs, if it has asked for a keep-alive. -/
theorem client_ready : (o.client'.status = .ready ↔ args.keepAlive > 0) ∧
    (timerRunning o.client'.keepAliveTimer = true ↔ args.keepAlive > 0) := by
  obtain ⟨htype, haccepted⟩ := o.connack_eq
  have hconnack : MqttPacketType.ofByte o.connack.type = some .connack := by rw [htype]; rfl
  have hvitals := @vitals_handle_connack o.accepting o.client o.connack o.connackBody hconnack
  have hkeep : o.client.keepAlive = args.keepAlive.toNat := congrArg Vitals.keepAlive o.vitals_client
  rw [← o.accepted, haccepted, hkeep, o.vitals_client] at hvitals
  have hnat : args.keepAlive.toNat > 0 ↔ args.keepAlive > 0 :=
    (UInt16.lt_iff_toNat_lt (a := 0) (b := args.keepAlive)).symm
  show (o.client'.vitals.status = .ready ↔ _) ∧ (timerRunning o.client'.vitals.keepAliveTimer = true ↔ _)
  rw [hvitals]
  by_cases hpositive : args.keepAlive > 0
  · rw [if_pos ⟨rfl, hnat.2 hpositive⟩]
    have hinterval := hnat.2 hpositive
    exact ⟨iff_of_true rfl hpositive, iff_of_true (timerRunning_start _ _ (by omega)) hpositive⟩
  · rw [if_neg fun h => hpositive (hnat.1 h.2)]
    exact ⟨iff_of_false (fun h => nomatch h) hpositive, iff_of_false Bool.false_ne_true hpositive⟩

/-- Both endpoints are READY, each with its keep-alive timer running exactly for a positive
keep-alive time, if and only if the keep-alive time is positive. -/
theorem ready_iff : (o.client'.status = .ready ∧ o.server'.status = .ready ∧
      (timerRunning o.client'.keepAliveTimer = true ↔ args.keepAlive > 0) ∧
      (timerRunning o.server'.keepAliveTimer = true ↔ args.keepAlive > 0)) ↔ args.keepAlive > 0 := by
  obtain ⟨hclient, hclientTimer⟩ := o.client_ready
  obtain ⟨hserver, hserverTimer⟩ := o.server_ready
  constructor
  · rintro ⟨hready, -⟩
    exact hclient.1 hready
  · intro hpositive
    exact ⟨hclient.2 hpositive, hserver, hclientTimer, hserverTimer⟩

end Opening

/-- An opening without observers in which every frame arrives alone. -/
def directOpening {args : MqttConnectArgs} {body : Bytes} (hbody : mqttFormatConnect args = some body)
    (hexact : mqttEvalConnect args = body.length) (hmax : body.length ≤ mqttMaxBodyLength) : Opening args where
  clientObserver := none
  serverObserver := none
  connecting := Env.at 0
  receiving := Env.at 0
  granting := Env.at 0
  accepting := Env.at 0
  ret := 1
  client := ({ streamMqttInit with clientRole := true, keepAlive := args.keepAlive.toNat } : StreamMqtt).write none
    (mqttFormatFixedHeader MqttPacketType.connect.toByte 0 (mqttEvalConnect args) ++ body)
  connected := by
    unfold streamMqttConnect
    rw [hbody]
    rfl
  connect := ⟨MqttPacketType.connect.toByte, 0, mqttEvalConnect args⟩
  connectBody := memOf body fun _ => 0
  connectArrives := by
    apply arrives_write
    · rfl
    · exact arrives_header (by decide) (by decide) (by omega) (by omega) _
  server := _
  received := rfl
  sessionPresent := false
  server' := _
  granted := rfl
  connack := ⟨MqttPacketType.connack.toByte, 0, 2⟩
  connackBody := memOf (mqttFormatConnack false mqttConnackAccepted) fun _ => 0
  connackArrives := by
    rw [bytesSince_connack]
    exact arrives_header (by decide) (by decide) (by decide) (by decide) _
  client' := _
  accepted := rfl

/-- With a keep-alive time of a minute both are READY and both timers run. -/
theorem ready_minute :
    let o := @directOpening plainConnect _ rfl rfl (by decide)
    o.client'.status = .ready ∧ o.server'.status = .ready ∧ timerRunning o.client'.keepAliveTimer = true ∧
      timerRunning o.server'.keepAliveTimer = true := by
  intro o
  obtain ⟨hclient, hserver, hclientTimer, hserverTimer⟩ := o.ready_iff.2 (by decide)
  exact ⟨hclient, hserver, hclientTimer.2 (by decide), hserverTimer.2 (by decide)⟩

/-- Without a keep-alive the client has not become READY when it has handled the CONNACK. -/
theorem ready_never : ¬ ∀ (args : MqttConnectArgs) (o : Opening args),
    o.client'.status = .ready ∧ o.server'.status = .ready := by
  intro h
  have hready := (h { plainConnect with keepAlive := 0 } (directOpening rfl rfl (by decide))).1
  revert hready
  decide +kernel

end CMx.Mqtt
