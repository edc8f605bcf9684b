/-
Messages with their length in front, as `socket.c` sends and receives them over a blocking stream. A function
that waits in its loop is the state that it waits in, so that `write` and `read` can be called in any order and
transfer any part of what they are asked for.
-/
import CMx.Numbers

namespace CMx.Socket

open Mqtt (Bytes)

/-! ## The loops -/

/-- The variables of the loop in `socket_send`: `ptr` is what of the buffer is behind it. -/
structure SendLoop where
  ptr : Bytes
  remain : UInt32
  len : Nat
  deriving DecidableEq, Repr

/-- The variables of the loop in `socket_receive`: `buffer` is what has been put in front of `ptr`. -/
structure ReceiveLoop where
  buffer : Bytes
  remain : UInt32
  len : Nat
  deriving DecidableEq, Repr

/-- What a function with a loop does next. -/
inductive Call (σ : Type) where
  | waits (loop : σ)
  | returns (ret : Int) (loop : σ)

def SendLoop.check (l : SendLoop) : Call SendLoop := if l.remain > 0 then .waits l else .returns (cInt l.len) l

def socketSend (buffer : Bytes) : Call SendLoop :=
  SendLoop.check ⟨buffer, UInt32.ofNat buffer.length, buffer.length⟩

/-- The bytes that `write` is offered. -/
def SendLoop.offers (l : SendLoop) : Bytes := l.ptr.take l.remain.toNat

/-- `write` has returned `ret`. -/
def SendLoop.write (l : SendLoop) (ret : Int) : Call SendLoop :=
  let ret := cInt ret
  if ret ≤ 0 then .returns ret l
  else SendLoop.check { l with ptr := l.ptr.drop ret.toNat, remain := l.remain - UInt32.ofNat ret.toNat }

def ReceiveLoop.check (l : ReceiveLoop) : Call ReceiveLoop := if l.remain > 0 then .waits l else .returns (cInt l.len) l

def socketReceive (len : Nat) : Call ReceiveLoop := ReceiveLoop.check ⟨[], UInt32.ofNat len, len⟩

/-- `read` has returned `ret`, and before that has put the bytes behind `ptr`. -/
def ReceiveLoop.read (l : ReceiveLoop) (ret : Int) (bytes : Bytes) : Call ReceiveLoop :=
  let ret := cInt ret
  if ret ≤ 0 then .returns ret l
  else ReceiveLoop.check { l with buffer := l.buffer ++ bytes, remain := l.remain - UInt32.ofNat ret.toNat }

/-! ## Messages -/

/-- One `socket_send_msg` after the other: between two calls, in one of the two `socket_send` of a call, or behind
a call that has failed. -/
inductive Sender where
  | idle (todo : List Bytes)
  | header (loop : SendLoop) (msg : Bytes) (todo : List Bytes)
  | body (loop : SendLoop) (todo : List Bytes)
  | failed (ret : Int) (todo : List Bytes)

def sendBody (todo : List Bytes) : Call SendLoop → Sender
  | .waits l => .body l todo
  | .returns ret _ => if ret > 0 then .idle todo else .failed ret todo

def sendHeader (msg : Bytes) (todo : List Bytes) : Call SendLoop → Sender
  | .waits l => .header l msg todo
  | .returns ret _ => if ret > 0 then sendBody todo (socketSend msg) else .failed ret todo

def socketSendMsg (msg : Bytes) (todo : List Bytes) : Sender :=
  sendHeader msg todo (socketSend (toBigEndian 4 msg.length))

def Sender.offers : Sender → Bytes
  | .header l _ _ => l.offers
  | .body l _ => l.offers
  | _ => []

def Sender.write : Sender → Int → Sender
  | .header l msg todo, ret => sendHeader msg todo (l.write ret)
  | .body l todo, ret => sendBody todo (l.write ret)
  | s, _ => s

/-- `socket_receive_msg_len` and `socket_receive_msg` in turn, with the messages that have been received. -/
inductive Receiver where
  | idle (received : List Bytes)
  | length (loop : ReceiveLoop) (received : List Bytes)
  | message (loop : ReceiveLoop) (received : List Bytes)
  | failed (ret : Int) (received : List Bytes)

def socketReceiveMsg (received : List Bytes) : Call ReceiveLoop → Receiver
  | .waits l => .message l received
  | .returns ret l => if ret > 0 then .idle (received ++ [l.buffer]) else .failed ret received

/-- The length that is returned is the one that `socket_receive_msg` is called with. -/
def socketReceiveMsgLen (received : List Bytes) : Call ReceiveLoop → Receiver
  | .waits l => .length l received
  | .returns ret l =>
    let ret := if ret > 0 then cInt (bigEndian l.buffer) else ret
    if ret > 0 then socketReceiveMsg received (socketReceive ret.toNat) else .failed ret received

def Receiver.wants : Receiver → Nat
  | .length l _ => l.remain.toNat
  | .message l _ => l.remain.toNat
  | _ => 0

def Receiver.read : Receiver → Int → Bytes → Receiver
  | .length l received, ret, bytes => socketReceiveMsgLen received (l.read ret bytes)
  | .message l received, ret, bytes => socketReceiveMsg received (l.read ret bytes)
  | r, _, _ => r

def Receiver.received : Receiver → List Bytes
  | .idle received => received
  | .length _ received => received
  | .message _ received => received
  | .failed _ received => received

/-! ## Both ends -/

structure System where
  sender : Sender
  channel : Bytes
  receiver : Receiver

def System.start (msgs : List Bytes) : System := ⟨.idle msgs, [], .idle []⟩

/-- A call begins, or a `write` or a `read` transfers at least one byte. The stream holds up to `room` bytes. -/
inductive Step (room : Nat) : System → System → Prop
  | send {s : System} {msg : Bytes} {todo : List Bytes} (h : s.sender = .idle (msg :: todo)) :
    Step room s { s with sender := socketSendMsg msg todo }
  | write {s : System} (n : Nat) (pos : 0 < n) (offered : n ≤ s.sender.offers.length)
    (fits : s.channel.length + n ≤ room) :
    Step room s { s with sender := s.sender.write n, channel := s.channel ++ s.sender.offers.take n }
  | receive {s : System} {received : List Bytes} (h : s.receiver = .idle received) :
    Step room s { s with receiver := socketReceiveMsgLen received (socketReceive 4) }
  | read {s : System} (n : Nat) (pos : 0 < n) (wanted : n ≤ s.receiver.wants) (there : n ≤ s.channel.length) :
    Step room s { s with receiver := s.receiver.read n (s.channel.take n), channel := s.channel.drop n }

abbrev Reaches (room : Nat) : System → System → Prop := Relation.ReflTransGen (Step room)

/-! ## What is on its way -/

/-- The bytes of the messages with their lengths. -/
def wire (msgs : List Bytes) : Bytes := msgs.flatMap fun msg => toBigEndian 4 msg.length ++ msg

@[simp] theorem wire_cons (msg : Bytes) (msgs : List Bytes) :
    wire (msg :: msgs) = toBigEndian 4 msg.length ++ (msg ++ wire msgs) := by simp [wire]

@[simp] theorem wire_append (msgs msgs' : List Bytes) : wire (msgs ++ msgs') = wire msgs ++ wire msgs' := by simp [wire]

def Sendable (msg : Bytes) : Prop := msg ≠ [] ∧ msg.length < 2 ^ 31

def SendLoop.Good (l : SendLoop) : Prop :=
  l.remain.toNat = l.ptr.length ∧ 0 < l.ptr.length ∧ l.ptr.length ≤ l.len ∧ l.len < 2 ^ 31

/-- What the sender has still to write. -/
def Sender.unsent : Sender → Bytes
  | .idle todo => wire todo
  | .header l msg todo => l.ptr ++ (msg ++ wire todo)
  | .body l todo => l.ptr ++ wire todo
  | .failed _ _ => []

def Sender.Good : Sender → Prop
  | .idle todo => ∀ m ∈ todo, Sendable m
  | .header l msg todo => l.Good ∧ Sendable msg ∧ ∀ m ∈ todo, Sendable m
  | .body l todo => l.Good ∧ ∀ m ∈ todo, Sendable m
  | .failed _ _ => False

theorem remain_pos_iff {remain : UInt32} : remain > 0 ↔ 0 < remain.toNat := UInt32.lt_iff_toNat_lt

theorem socketSend_spec {buffer : Bytes} (h : Sendable buffer) :
    ∃ l : SendLoop, socketSend buffer = .waits l ∧ l.Good ∧ l.ptr = buffer := by
  have hpos := List.length_pos_of_ne_nil h.1
  have hlen : (UInt32.ofNat buffer.length).toNat = buffer.length :=
    UInt32.toNat_ofNat_of_lt' (show buffer.length < 2 ^ 32 by have := h.2; omega)
  refine ⟨⟨buffer, UInt32.ofNat buffer.length, buffer.length⟩, ?_, ⟨hlen, hpos, le_refl _, h.2⟩, rfl⟩
  rw [socketSend, SendLoop.check, if_pos]
  rw [remain_pos_iff, hlen]
  exact hpos

theorem toNat_remain_sub {remain : UInt32} {n : Nat} (h : n ≤ remain.toNat) :
    (remain - UInt32.ofNat n).toNat = remain.toNat - n := by
  have hlt := remain.toNat_lt
  have hn : (UInt32.ofNat n).toNat = n := UInt32.toNat_ofNat_of_lt' (show n < 2 ^ 32 by omega)
  rw [UInt32.toNat_sub_of_le _ _ (UInt32.le_iff_toNat_le.2 (by omega)), hn]

theorem cInt_natCast {n : Nat} (h : n < 2 ^ 31) : cInt (n : Int) = n := cInt_eq (by omega) (by omega)

/-- The loop goes on with what is left, or all has been written and the length is returned. -/
theorem SendLoop.write_spec {l : SendLoop} (hl : l.Good) {n : Nat} (hpos : 0 < n) (hn : n ≤ l.offers.length) :
    (∃ l' : SendLoop, l.write n = .waits l' ∧ l'.Good ∧ l.ptr = l.offers.take n ++ l'.ptr) ∨
      (l.ptr = l.offers.take n ∧ 0 < l.len ∧ ∃ l', l.write n = .returns l.len l') := by
  obtain ⟨hremain, hptr, hle, hsmall⟩ := hl
  have hoffers : l.offers = l.ptr := by rw [SendLoop.offers, hremain, List.take_length]
  rw [hoffers] at hn ⊢
  have hleft := toNat_remain_sub (show n ≤ l.remain.toNat by omega)
  rw [SendLoop.write, cInt_natCast (show n < 2 ^ 31 by omega), if_neg (by omega), Int.toNat_natCast, SendLoop.check]
  simp only [remain_pos_iff, hleft]
  by_cases hall : n = l.ptr.length
  · right
    rw [if_neg (by rw [hremain, hall]; simp), cInt_natCast hsmall, hall, List.take_length]
    exact ⟨rfl, by omega, _, rfl⟩
  · left
    rw [if_pos (show 0 < l.remain.toNat - n by omega)]
    refine ⟨_, rfl, ⟨?_, ?_, ?_, hsmall⟩, (List.take_append_drop n l.ptr).symm⟩
    · simp only [hleft, List.length_drop, hremain]
    · simp only [List.length_drop]
      omega
    · simp only [List.length_drop]
      omega

theorem sendBody_spec {msg : Bytes} {todo : List Bytes} (hmsg : Sendable msg) (htodo : ∀ m ∈ todo, Sendable m) :
    (sendBody todo (socketSend msg)).Good ∧ (sendBody todo (socketSend msg)).unsent = msg ++ wire todo := by
  obtain ⟨l, heq, hl, rfl⟩ := socketSend_spec hmsg
  rw [heq]
  exact ⟨⟨hl, htodo⟩, rfl⟩

theorem socketSendMsg_spec {msg : Bytes} {todo : List Bytes} (hmsg : Sendable msg) (htodo : ∀ m ∈ todo, Sendable m) :
    (socketSendMsg msg todo).Good ∧ (socketSendMsg msg todo).unsent = wire (msg :: todo) := by
  have hheader : Sendable (toBigEndian 4 msg.length) := by
    refine ⟨fun hnil => ?_, by rw [length_toBigEndian]; norm_num⟩
    have := congrArg List.length hnil
    rw [length_toBigEndian] at this
    cases this
  obtain ⟨l, heq, hl, hptr⟩ := socketSend_spec hheader
  rw [socketSendMsg, heq, wire_cons, ← hptr]
  exact ⟨⟨hl, hmsg, htodo⟩, rfl⟩

/-- A `write` takes what it transfers off the front of what is to be written. -/
theorem Sender.write_spec {s : Sender} (h : s.Good) {n : Nat} (hpos : 0 < n) (hn : n ≤ s.offers.length) :
    (s.write n).Good ∧ s.unsent = s.offers.take n ++ (s.write n).unsent := by
  cases s with
  | idle todo => exact absurd hn (Nat.not_le.2 hpos)
  | failed ret todo => exact absurd hn (Nat.not_le.2 hpos)
  | header l msg todo =>
    obtain ⟨hl, hmsg, htodo⟩ := h
    rcases SendLoop.write_spec hl hpos hn with ⟨l', heq, hl', hptr⟩ | ⟨hptr, hlen, l', heq⟩
    · rw [Sender.write, heq, Sender.unsent, hptr, List.append_assoc]
      exact ⟨⟨hl', hmsg, htodo⟩, rfl⟩
    · obtain ⟨hgood, hunsent⟩ := sendBody_spec hmsg htodo
      rw [Sender.write, heq, sendHeader, if_pos (by omega), hunsent, Sender.unsent]
      exact ⟨hgood, by rw [Sender.offers, ← hptr]⟩
  | body l todo =>
    obtain ⟨hl, htodo⟩ := h
    rcases SendLoop.write_spec hl hpos hn with ⟨l', heq, hl', hptr⟩ | ⟨hptr, hlen, l', heq⟩
    · rw [Sender.write, heq, Sender.unsent, hptr, List.append_assoc]
      exact ⟨⟨hl', htodo⟩, rfl⟩
    · rw [Sender.write, heq, sendBody, if_pos (by omega), Sender.unsent]
      exact ⟨htodo, by rw [Sender.offers, ← hptr]; rfl⟩

/-! ## What has arrived -/

def ReceiveLoop.Good (l : ReceiveLoop) : Prop :=
  l.buffer.length + l.remain.toNat = l.len ∧ 0 < l.remain.toNat ∧ l.len < 2 ^ 31

/-- What the receiver has read. -/
def Receiver.consumed : Receiver → Bytes
  | .idle received => wire received
  | .length l received => wire received ++ l.buffer
  | .message l received => wire received ++ (toBigEndian 4 l.len ++ l.buffer)
  | .failed _ _ => []

/-- The receiver waits for the length or the bytes of the first of the messages that it has not received. -/
def Receiver.Good (msgs : List Bytes) : Receiver → Prop
  | .idle received => received <+: msgs
  | .length l received => l.Good ∧ l.len = 4 ∧ received <+: msgs
  | .message l received => l.Good ∧ ∃ msg behind, msgs = received ++ msg :: behind ∧ l.len = msg.length
  | .failed _ _ => False

theorem socketReceive_spec {len : Nat} (hpos : 0 < len) (hlen : len < 2 ^ 31) :
    ∃ l : ReceiveLoop, socketReceive len = .waits l ∧ l.Good ∧ l.buffer = [] ∧ l.len = len := by
  have hremain : (UInt32.ofNat len).toNat = len := UInt32.toNat_ofNat_of_lt' (show len < 2 ^ 32 by omega)
  refine ⟨⟨[], UInt32.ofNat len, len⟩, ?_, ⟨by rw [hremain]; exact Nat.zero_add _, by rw [hremain]; exact hpos, hlen⟩,
    rfl, rfl⟩
  rw [socketReceive, ReceiveLoop.check, if_pos]
  rw [remain_pos_iff, hremain]
  exact hpos

/-- The loop waits for the rest, or the buffer is full and the length is returned. -/
theorem ReceiveLoop.read_spec {l : ReceiveLoop} (hl : l.Good) {bytes : Bytes} (hpos : 0 < bytes.length)
    (hle : bytes.length ≤ l.remain.toNat) :
    ∃ l' : ReceiveLoop, l'.buffer = l.buffer ++ bytes ∧ l'.len = l.len ∧
      ((l.read bytes.length bytes = .waits l' ∧ l'.Good) ∨
        (l.read bytes.length bytes = .returns l.len l' ∧ l'.buffer.length = l.len)) := by
  obtain ⟨hsum, hremain, hsmall⟩ := hl
  have hleft := toNat_remain_sub hle
  refine ⟨{ l with buffer := l.buffer ++ bytes, remain := l.remain - UInt32.ofNat bytes.length }, rfl, rfl, ?_⟩
  rw [ReceiveLoop.read, cInt_natCast (show bytes.length < 2 ^ 31 by omega), if_neg (by omega), Int.toNat_natCast,
    ReceiveLoop.check]
  simp only [remain_pos_iff, hleft]
  by_cases hall : bytes.length = l.remain.toNat
  · right
    rw [if_neg (by rw [hall]; simp), cInt_natCast hsmall]
    exact ⟨rfl, by rw [List.length_append]; omega⟩
  · left
    rw [if_pos (show 0 < l.remain.toNat - bytes.length by omega)]
    refine ⟨rfl, ?_, ?_, hsmall⟩
    · simp only [hleft, List.length_append]
      omega
    · simp only [hleft]
      omega

/-- How many calls of `socket_receive_msg_len` are still to come. -/
def Receiver.calls (msgs : List Bytes) : Receiver → Nat
  | .idle received => msgs.length - received.length + 1
  | r => msgs.length - r.received.length

theorem prefix_cases {received msgs : List Bytes} (h : received <+: msgs) {bytes behind : Bytes}
    (hwire : wire received ++ (bytes ++ behind) = wire msgs) (hbytes : bytes ≠ []) :
    ∃ msg more, msgs = received ++ msg :: more ∧
      bytes ++ behind = toBigEndian 4 msg.length ++ (msg ++ wire more) := by
  obtain ⟨rest, rfl⟩ := h
  rw [wire_append, List.append_cancel_left_eq] at hwire
  cases rest with
  | nil =>
    rw [wire, List.flatMap_nil, List.append_eq_nil_iff] at hwire
    exact absurd hwire.1 hbytes
  | cons msg more => exact ⟨msg, more, rfl, by rw [hwire, wire_cons]⟩

/-- A `read` of the bytes in front keeps the receiver where it should be, and they count as read. -/
theorem Receiver.read_spec {msgs : List Bytes} (hmsgs : ∀ m ∈ msgs, Sendable m) {r : Receiver} (h : r.Good msgs)
    {bytes behind : Bytes} (hwire : r.consumed ++ (bytes ++ behind) = wire msgs) (hpos : 0 < bytes.length)
    (hle : bytes.length ≤ r.wants) :
    (r.read bytes.length bytes).Good msgs ∧ (r.read bytes.length bytes).consumed = r.consumed ++ bytes ∧
      (r.read bytes.length bytes).calls msgs = r.calls msgs := by
  cases r with
  | idle received => exact absurd hle (Nat.not_le.2 hpos)
  | failed ret received => exact absurd hle (Nat.not_le.2 hpos)
  | length l received =>
    obtain ⟨hl, hlen, hprefix⟩ := h
    obtain ⟨l', hbuffer, hlen', ⟨heq, hl'⟩ | ⟨heq, hfull⟩⟩ := ReceiveLoop.read_spec hl hpos hle
    · rw [Receiver.read, heq, socketReceiveMsgLen, Receiver.consumed, Receiver.consumed, hbuffer, List.append_assoc]
      exact ⟨⟨hl', hlen'.trans hlen, hprefix⟩, rfl, rfl⟩
    · -- all four bytes of the length of the next message are there
      rw [Receiver.consumed, List.append_assoc, ← List.append_assoc l.buffer, ← hbuffer] at hwire
      obtain ⟨msg, more, rfl, hnext⟩ := prefix_cases hprefix hwire (List.ne_nil_of_length_pos (by omega))
      obtain ⟨hheader, -⟩ := List.append_inj hnext (by rw [hfull, hlen, length_toBigEndian])
      obtain ⟨hne, hsmall⟩ := hmsgs msg (List.mem_append_right _ (List.mem_cons_self ..))
      have hret : cInt (bigEndian l'.buffer) = msg.length := by
        rw [hheader, bigEndian_toBigEndian 4 _ (show msg.length < 256 ^ 4 by omega)]
        exact cInt_natCast hsmall
      have hmsgpos := List.length_pos_of_ne_nil hne
      obtain ⟨l'', heq'', hl'', hbuffer'', hlen''⟩ := socketReceive_spec hmsgpos hsmall
      rw [Receiver.read, heq, socketReceiveMsgLen, if_pos (show (l.len : Int) > 0 by omega), hret, if_pos (by omega),
        Int.toNat_natCast, heq'', socketReceiveMsg,
        Receiver.consumed, Receiver.consumed, List.append_assoc, ← hbuffer, hheader, hlen'', hbuffer'', List.append_nil]
      exact ⟨⟨hl'', msg, more, rfl, hlen''⟩, rfl, rfl⟩
  | message l received =>
    obtain ⟨hl, msg, behind', rfl, hlen⟩ := h
    obtain ⟨l', hbuffer, hlen', ⟨heq, hl'⟩ | ⟨heq, hfull⟩⟩ := ReceiveLoop.read_spec hl hpos hle
    · rw [Receiver.read, heq, socketReceiveMsg, Receiver.consumed, Receiver.consumed, hbuffer, hlen']
      refine ⟨⟨hl', msg, behind', rfl, hlen'.trans hlen⟩, ?_, rfl⟩
      rw [List.append_assoc, List.append_assoc]
    · -- all bytes of the message are there
      have hmsg : l'.buffer = msg := by
        rw [Receiver.consumed, wire_append, wire_cons, List.append_assoc, List.append_assoc,
          ← List.append_assoc l.buffer, ← hbuffer, List.append_cancel_left_eq, hlen, List.append_cancel_left_eq] at hwire
        exact (List.append_inj hwire (by rw [hfull, hlen])).1
      have hlenpos : 0 < l.len := by
        have := hl.2.1
        have := hl.1
        omega
      rw [Receiver.read, heq, socketReceiveMsg, if_pos (by omega), Receiver.consumed, Receiver.consumed, wire_append,
        wire_cons, hmsg, ← hlen, List.append_assoc, List.append_assoc, ← hbuffer, hmsg]
      refine ⟨⟨behind', by rw [List.append_assoc]; rfl⟩, by simp [wire], ?_⟩
      simp only [Receiver.calls, Receiver.received, List.length_append, List.length_cons, List.length_nil]
      omega

/-! ## The invariant -/

def Sender.todo : Sender → List Bytes
  | .idle todo => todo
  | .header _ _ todo => todo
  | .body _ todo => todo
  | .failed _ todo => todo

theorem todo_sendBody (todo : List Bytes) (call : Call SendLoop) : (sendBody todo call).todo = todo := by
  unfold sendBody
  split
  · rfl
  · split <;> rfl

theorem todo_sendHeader (msg : Bytes) (todo : List Bytes) (call : Call SendLoop) :
    (sendHeader msg todo call).todo = todo := by
  unfold sendHeader
  split
  · rfl
  · split
    · exact todo_sendBody todo _
    · rfl

theorem todo_write (s : Sender) (n : Int) : (s.write n).todo = s.todo := by
  cases s with
  | idle todo => rfl
  | header l msg todo => exact todo_sendHeader msg todo _
  | body l todo => exact todo_sendBody todo _
  | failed ret todo => rfl

/-- What has been read, what is in the stream and what is still to be written are the messages. -/
structure Inv (msgs : List Bytes) (s : System) : Prop where
  stream : s.receiver.consumed ++ (s.channel ++ s.sender.unsent) = wire msgs
  sender : s.sender.Good
  receiver : s.receiver.Good msgs

/-- A byte counts twice as long as it is not written, and once in the stream; every call still to come counts. -/
def System.measure (msgs : List Bytes) (s : System) : Nat :=
  2 * s.sender.unsent.length + s.channel.length + s.sender.todo.length + s.receiver.calls msgs

theorem inv_start {msgs : List Bytes} (hmsgs : ∀ m ∈ msgs, Sendable m) : Inv msgs (.start msgs) :=
  ⟨rfl, hmsgs, List.nil_prefix⟩

theorem Inv.step {room : Nat} {msgs : List Bytes} (hmsgs : ∀ m ∈ msgs, Sendable m) {s s' : System} (inv : Inv msgs s)
    (h : Step room s s') : Inv msgs s' ∧ s'.measure msgs < s.measure msgs := by
  obtain ⟨hstream, hsender, hreceiver⟩ := inv
  cases h with
  | @send msg todo h =>
    rw [h, Sender.Good, List.forall_mem_cons] at hsender
    obtain ⟨hgood, hunsent⟩ := socketSendMsg_spec hsender.1 hsender.2
    have htodo : (socketSendMsg msg todo).todo = todo := todo_sendHeader msg todo _
    refine ⟨⟨?_, hgood, hreceiver⟩, ?_⟩
    · rw [← hstream, h, hunsent]
      rfl
    · have hunsent' : s.sender.unsent = wire (msg :: todo) := by rw [h]; rfl
      have htodo' : s.sender.todo = msg :: todo := by rw [h]; rfl
      simp only [System.measure, hunsent, htodo, hunsent', htodo', List.length_cons]
      omega
  -- bytes go from the sender into the channel
  | write n pos offered fits =>
    obtain ⟨hgood, hunsent⟩ := Sender.write_spec hsender pos offered
    refine ⟨⟨?_, hgood, hreceiver⟩, ?_⟩
    · rw [← hstream, hunsent, List.append_assoc]
    · have hlen := congrArg List.length hunsent
      rw [List.length_append, List.length_take, Nat.min_eq_left offered] at hlen
      simp only [System.measure, todo_write, List.length_append, List.length_take, Nat.min_eq_left offered]
      omega
  | @receive received h =>
    obtain ⟨l, heq, hl, hbuffer, hlen⟩ := socketReceive_spec (show 0 < 4 by norm_num) (by norm_num)
    rw [h] at hstream hreceiver
    rw [heq]
    refine ⟨⟨?_, hsender, hl, hlen, hreceiver⟩, ?_⟩
    · rw [← hstream]
      simp only [socketReceiveMsgLen, Receiver.consumed, hbuffer, List.append_nil]
    · simp only [System.measure, h, socketReceiveMsgLen, Receiver.calls, Receiver.received]
      omega
  -- and from the front of the channel to the receiver
  | read n pos wanted there =>
    have hlen : (s.channel.take n).length = n := by rw [List.length_take, Nat.min_eq_left there]
    have hsplit : s.channel.take n ++ (s.channel.drop n ++ s.sender.unsent) = s.channel ++ s.sender.unsent := by
      rw [← List.append_assoc, List.take_append_drop]
    obtain ⟨hgood, hconsumed, hcalls⟩ := @Receiver.read_spec msgs hmsgs s.receiver hreceiver (s.channel.take n)
      (s.channel.drop n ++ s.sender.unsent) (by rw [hsplit]; exact hstream) (by rw [hlen]; exact pos)
      (by rw [hlen]; exact wanted)
    rw [hlen] at hgood hconsumed hcalls
    refine ⟨⟨?_, hsender, hgood⟩, ?_⟩
    · rw [hconsumed, List.append_assoc, hsplit, hstream]
    · simp only [System.measure, hcalls, List.length_drop]
      omega

theorem inv_reaches {room : Nat} {msgs : List Bytes} (hmsgs : ∀ m ∈ msgs, Sendable m) {s : System}
    (h : Reaches room (.start msgs) s) : Inv msgs s := by
  induction h with
  | refl => exact inv_start hmsgs
  | tail _ hstep ih => exact (ih.step hmsgs hstep).1

/-! ## Delivery -/

theorem Inv.received_prefix {msgs : List Bytes} {s : System} (inv : Inv msgs s) : s.receiver.received <+: msgs := by
  have h := inv.receiver
  cases hr : s.receiver with
  | idle received => rw [hr] at h; exact h
  | length l received => rw [hr] at h; exact h.2.2
  | message l received =>
    rw [hr] at h
    obtain ⟨-, msg, behind, rfl, -⟩ := h
    exact List.prefix_append ..
  | failed ret received => rw [hr] at h; exact absurd h id

/-- A sender that cannot go on although the stream has room has sent everything. -/
theorem Inv.sender_done {room : Nat} (hroom : 0 < room) {msgs : List Bytes} {s : System} (inv : Inv msgs s)
    (hempty : s.channel = []) (hstuck : ∀ s', ¬ Step room s s') : s.sender = .idle [] := by
  have h := inv.sender
  have hwrite : s.sender.offers = [] := by
    by_contra hne
    exact hstuck _ (.write 1 Nat.one_pos (List.length_pos_of_ne_nil hne) (by rw [hempty]; exact hroom))
  have hoffers : ∀ l : SendLoop, l.Good → l.offers ≠ [] := by
    rintro l ⟨hremain, hpos, -⟩ hnil
    rw [SendLoop.offers, hremain, List.take_length] at hnil
    rw [hnil] at hpos
    cases hpos
  cases hs : s.sender with
  | idle todo =>
    cases todo with
    | nil => rfl
    | cons msg todo => exact absurd (.send hs) (hstuck _)
  | header l msg todo =>
    rw [hs] at h hwrite
    exact absurd hwrite (hoffers l h.1)
  | body l todo =>
    rw [hs] at h hwrite
    exact absurd hwrite (hoffers l h.1)
  | failed ret todo =>
    rw [hs] at h
    exact absurd h id

/-- Where nothing can go on, all messages have been received. -/
theorem Inv.stuck {room : Nat} (hroom : 0 < room) {msgs : List Bytes} {s : System} (inv : Inv msgs s)
    (hstuck : ∀ s', ¬ Step room s s') : s.receiver.received = msgs ∧ s.sender = .idle [] := by
  have hempty : 0 < s.receiver.wants → s.channel = [] := by
    intro hwants
    by_contra hne
    exact hstuck _ (.read 1 Nat.one_pos hwants (List.length_pos_of_ne_nil hne))
  have hstream := inv.stream
  have h := inv.receiver
  cases hr : s.receiver with
  | idle received => exact absurd (.receive hr) (hstuck _)
  | failed ret received =>
    rw [hr] at h
    exact absurd h id
  | length l received =>
    rw [hr] at h hstream hempty
    obtain ⟨⟨hsum, hremain, -⟩, hlen, hprefix⟩ := h
    have hsender := inv.sender_done hroom (hempty hremain) hstuck
    have hnothing : s.channel ++ s.sender.unsent = [] := by rw [hempty hremain, hsender]; rfl
    refine ⟨?_, hsender⟩
    rw [hnothing, Receiver.consumed, List.append_assoc] at hstream
    by_cases hbuffer : l.buffer = []
    · obtain ⟨rest, rfl⟩ := hprefix
      rw [hbuffer, wire_append, List.append_cancel_left_eq] at hstream
      cases rest with
      | nil => exact (List.append_nil _).symm
      | cons msg rest =>
        have hlength := congrArg List.length hstream
        simp only [wire_cons, List.length_append, length_toBigEndian, List.length_nil] at hlength
        omega
    · -- a length that has begun to arrive goes on
      obtain ⟨msg, more, rfl, hnext⟩ := prefix_cases hprefix hstream hbuffer
      have hlength := congrArg List.length hnext
      simp only [List.length_append, length_toBigEndian, List.length_nil] at hlength
      omega
  | message l received =>
    rw [hr] at h hstream hempty
    obtain ⟨⟨hsum, hremain, -⟩, msg, behind, rfl, hlen⟩ := h
    have hsender := inv.sender_done hroom (hempty hremain) hstuck
    have hnothing : s.channel ++ s.sender.unsent = [] := by rw [hempty hremain, hsender]; rfl
    -- a message that has been announced goes on
    rw [hnothing, Receiver.consumed, wire_append, wire_cons, List.append_assoc, List.append_assoc,
      List.append_cancel_left_eq, hlen, List.append_cancel_left_eq] at hstream
    have hlength := congrArg List.length hstream
    simp only [List.length_append, List.length_nil] at hlength
    omega

/-- Whatever the writes and reads transfer, and however they interleave: the messages that have been received are
the first ones that were sent, in their order; all of them have been received once nothing can go on; and that
point is reached. -/
theorem socketMessages_received (room : Nat) (hroom : 0 < room) (msgs : List Bytes)
    (hmsgs : ∀ m ∈ msgs, m ≠ [] ∧ m.length < 2 ^ 31) :
    (∀ s, Reaches room (.start msgs) s →
        s.receiver.received <+: msgs ∧
          ((∀ s', ¬ Step room s s') → s.receiver.received = msgs ∧ s.sender = .idle [])) ∧
      ∀ run : Nat → System, run 0 = .start msgs → ¬ ∀ i, Step room (run i) (run (i + 1)) := by
  refine ⟨?_, ?_⟩
  · intro s hs
    have inv := inv_reaches hmsgs hs
    exact ⟨inv.received_prefix, inv.stuck hroom⟩
  · intro run hstart hrun
    have hall : ∀ i, Inv msgs (run i) ∧ (run i).measure msgs + i ≤ (run 0).measure msgs := by
      intro i
      induction i with
      | zero => exact ⟨hstart ▸ inv_start hmsgs, le_refl _⟩
      | succ i ih =>
        obtain ⟨inv, hle⟩ := ih
        obtain ⟨inv', hlt⟩ := inv.step hmsgs (hrun i)
        exact ⟨inv', by omega⟩
    have hend := (hall ((run 0).measure msgs + 1)).2
    omega

theorem socketMessages_received_two :
    (∀ s, Reaches 1 (.start [[1, 2], [3]]) s →
        s.receiver.received <+: [[1, 2], [3]] ∧
          ((∀ s', ¬ Step 1 s s') → s.receiver.received = [[1, 2], [3]] ∧ s.sender = .idle [])) ∧
      ∀ run : Nat → System, run 0 = .start [[1, 2], [3]] → ¬ ∀ i, Step 1 (run i) (run (i + 1)) :=
  socketMessages_received 1 Nat.one_pos [[1, 2], [3]] (by decide)

end CMx.Socket
