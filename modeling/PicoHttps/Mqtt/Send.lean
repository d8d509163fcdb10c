/-
**The MQTT handler, sending side.**

The model of `pico_simple_mqtt/mqtt_handler.cpp` as far as it writes bytes: the `send_` operations
of `MQTTSocketHandler` and `update`.  A packet is written into an array of the size that has been
computed for it, with every write checked, and handed to the downstream; the payload of a PUBLISH
is handed over as it is given.

The downstream and the clock are a `Downstream` over a type `κ` of its own states, so a call may
be answered in any way.  A C string is the list of its characters, and `none` is a null pointer.

Main definitions:

* `Mqtt.Downstream`, `Mqtt.World` — the surroundings of a handler, and a handler in them;
* `Mqtt.World.sendConnect`, `Mqtt.World.sendSubscribe`, `Mqtt.World.sendPublishHeader`,
  `Mqtt.World.sendPublishData`, `Mqtt.World.sendPing`, `Mqtt.World.update` — the operations.
-/

import PicoHttps.Basics.Varint
import PicoHttps.Mqtt.Handler

set_option relaxedAutoImplicit false
set_option autoImplicit false

namespace Mqtt

/-- What the handler uses of `ISessionSender`, the clock, and the bytes that an array of `n` bytes
holds when it is not initialised; the state of all these is a `κ`. -/
structure Downstream (κ : Type) where
  send : List UInt8 → κ → Int8 × κ
  isConnected : κ → Bool × κ
  getAbsoluteTime : κ → UInt64 × κ
  stack : (n : ℕ) → κ → Buffer n

/-- A handler and its surroundings; `handed` is what has been handed to `send`, call by call. -/
structure World (κ : Type) where
  handler : MQTTSocketHandler
  env : κ
  handed : List (List UInt8)

/-! ### Writing a packet -/

/-- `MQTTSocketHandler::write_string`.  Its position is a `uint16_t`, which is enough for the
arrays it writes to. -/
def writeString {n : ℕ} (msg : List UInt8) (len : ℕ) (c : Buffer.Cursor n) :
    Option (Buffer.Cursor n) := do
  let c ← c.put (Bytes.byte len 8)
  let c ← c.put (Bytes.byte len 0)
  c.copy (msg.take len)

/-- One of the three continuations of the remaining length in `write_header`. -/
def writeGroup {n : ℕ} (messageSize s : ℕ) (c : Buffer.Cursor n) : Option (Buffer.Cursor n) :=
  if messageSize >>> s > 0 then do
    let c ← c.orLast 0x80
    c.put (Varint.group messageSize s)
  else some c

/-- `MQTTSocketHandler::write_header`; `none` inside where the source returns 0. -/
def writeHeader {n : ℕ} (messageType : UInt8) (messageSize : ℕ) (buffer : Buffer n)
    (bufferSize laterBytes : ℕ) : Option (Option (Buffer.Cursor n)) :=
  if (messageSize + 2 ^ 32 - laterBytes + 5) % 2 ^ 32 > bufferSize then some none
  else if messageSize >>> 28 > 0 then some none
  else do
    let c : Buffer.Cursor n := ⟨buffer, 0⟩
    let c ← c.put messageType
    let c ← c.put (Varint.group messageSize 0)
    let c ← writeGroup messageSize 7 c
    let c ← writeGroup messageSize 14 c
    let c ← writeGroup messageSize 21 c
    return some c

/-! ### The operations -/

namespace World

variable {κ : Type}

/-- `m_downstream->send`, and its answer as a condition. -/
def send (d : Downstream κ) (w : World κ) (bytes : List UInt8) : Bool × World κ :=
  let (code, env) := d.send bytes w.env
  (code != 0, { w with env := env, handed := w.handed ++ [bytes] })

/-- `m_lastKeepaliveUs = to_us_since_boot(get_absolute_time())`. -/
def stamp (d : Downstream κ) (w : World κ) : World κ :=
  let (now, env) := d.getAbsoluteTime w.env
  { w with handler := { w.handler with lastKeepaliveUs := now }, env := env }

/-- `strlen` of a string that may be null, as a `uint16_t`. -/
def lengthOf (s : Option (List UInt8)) : ℕ := (s.getD []).length % 2 ^ 16

/-- The bytes of a string with its length before it, when it is not empty. -/
def sizeOf (len : ℕ) : ℕ := if len > 0 then len + 2 else 0

/-- The connect flags. -/
def connectFlags (cleanSession : Bool) (willTopic user pass : Option (List UInt8)) : UInt8 :=
  let v : UInt8 := if willTopic.isSome then 0x04 ||| 0x08 ||| 0x20 else 0
  let v := if cleanSession then v ||| 0x02 else v
  if user.isSome then
    let v := v ||| 0x80
    if pass.isSome then v ||| 0x40 else v
  else v

/-- The strings of a CONNECT, in the order in which they are written: a will needs its topic and
its message, and a password needs a user. -/
def connectStrings (id : List UInt8) (willTopic willMessage user pass : Option (List UInt8)) :
    List (List UInt8) :=
  [id] ++
    (match willTopic, willMessage with
      | some topic, some message => [topic, message]
      | _, _ => []) ++
    match user, pass with
      | some user, some pass => [user, pass]
      | some user, none => [user]
      | none, _ => []

/-- The strings, one after the other. -/
def writeStrings {n : ℕ} : List (List UInt8) → Buffer.Cursor n → Option (Buffer.Cursor n)
  | [], c => some c
  | s :: ss, c => do
    let c ← writeString s (s.length % 2 ^ 16) c
    writeStrings ss c

/-- `MQTTSocketHandler::send_connect`. -/
def sendConnect (d : Downstream κ) (w : World κ) (cleanSession : Bool) (keepaliveSeconds : UInt8)
    (id willTopic willMessage user pass : Option (List UInt8)) : Option (Bool × World κ) :=
  if w.handler.pendingSendDataLen > 0 then some (false, w)
  else
    let idLen := lengthOf id
    let willTopicLen := lengthOf willTopic
    let willMessageLen := if willTopic.isSome then lengthOf willMessage else 0
    let userLen := lengthOf user
    let passLen := if user.isSome then lengthOf pass else 0
    let messageSize := 7 + 1 + 2 + sizeOf idLen + sizeOf willTopicLen + sizeOf willMessageLen +
      sizeOf userLen + sizeOf passLen
    if messageSize + MQTT_MAX_HEADER_SIZE > MQTT_BUFFER_SIZE then some (false, w)
    else do
      let sendBuffer : Buffer (messageSize + MQTT_MAX_HEADER_SIZE) := .filled _ 0
      match ← writeHeader MQTTCONNECT messageSize sendBuffer
          (messageSize + MQTT_MAX_HEADER_SIZE) 0 with
      | none => return (false, w)
      | some c =>
        let c ← c.putAll [0x00, 0x04, 'M'.toUInt8, 'Q'.toUInt8, 'T'.toUInt8, 'T'.toUInt8, 4,
          connectFlags cleanSession willTopic user pass, Bytes.byte keepaliveSeconds.toNat 8,
          keepaliveSeconds &&& 0xFF]
        match id with
        | none => return (false, w)
        | some id =>
          let c ← writeStrings (connectStrings id willTopic willMessage user pass) c
          let w := { w with handler := { w.handler with messageId := 1 } }
          let w := w.stamp d
          let w := { w with handler := { w.handler with keepaliveSeconds := keepaliveSeconds } }
          return w.send d c.written

/-- `m_messageId = (m_messageId == 0xFFFF) ? 1 : (m_messageId + 1)`. -/
def nextMessageId (messageId : UInt16) : UInt16 :=
  if messageId = 0xFFFF then 1 else messageId + 1

/-- `MQTTSocketHandler::send_subscribe`, whose array is not initialised. -/
def sendSubscribe (d : Downstream κ) (w : World κ) (topic : List UInt8) :
    Option (Bool × World κ) :=
  if w.handler.pendingSendDataLen > 0 then some (false, w)
  else
    let topicLength := topic.length % 2 ^ 16
    let messageSize := 2 + topicLength + 2 + 1
    if messageSize + MQTT_MAX_HEADER_SIZE > MQTT_BUFFER_SIZE then some (false, w)
    else do
      match ← writeHeader (MQTTSUBSCRIBE ||| MQTTQOS1) messageSize
          (d.stack (messageSize + MQTT_MAX_HEADER_SIZE) w.env)
          (messageSize + MQTT_MAX_HEADER_SIZE) 0 with
      | none => return (false, w)
      | some c =>
        let c ← c.put (Bytes.byte w.handler.messageId.toNat 8)
        let c ← c.put (Bytes.byte w.handler.messageId.toNat 0)
        let c ← writeString topic topicLength c
        let c ← c.put 1
        let w := { w with
          handler := { w.handler with messageId := nextMessageId w.handler.messageId } }
        let w := w.stamp d
        return w.send d c.written

/-- `MQTTSocketHandler::send_publish_header`.  The first component is the message id, where the
source stores it. -/
def sendPublishHeader (d : Downstream κ) (w : World κ) (topic : List UInt8) (messageLength : ℕ) :
    Option (Option UInt16 × Bool × World κ) :=
  if w.handler.pendingSendDataLen > 0 then some (none, false, w)
  else
    let topicLength := topic.length % 2 ^ 16
    let headerSize := 2 + topicLength + 2
    let messageSize := (headerSize + messageLength) % 2 ^ 32
    do
      let sendBuffer : Buffer (headerSize + MQTT_MAX_HEADER_SIZE) := .filled _ 0
      match ← writeHeader (MQTTPUBLISH ||| MQTTQOS1 ||| MQTTRETAIN) messageSize sendBuffer
          (headerSize + MQTT_MAX_HEADER_SIZE) messageLength with
      | none => return (none, false, w)
      | some c =>
        let c ← c.put (Bytes.byte topicLength 8)
        let c ← c.put (Bytes.byte topicLength 0)
        let c ← c.copy (topic.take topicLength)
        let c ← c.put (Bytes.byte w.handler.messageId.toNat 8)
        let c ← c.put (Bytes.byte w.handler.messageId.toNat 0)
        let outMessageId := w.handler.messageId
        let w := { w with handler := { w.handler with
          pendingSendDataLen := messageLength
          messageId := nextMessageId w.handler.messageId } }
        let w := w.stamp d
        return (some outMessageId, w.send d c.written)

/-- `MQTTSocketHandler::send_ping`.  `write_header` is given the size of the receive buffer, not
that of the array. -/
def sendPing (d : Downstream κ) (w : World κ) : Option (Bool × World κ) :=
  if w.handler.pendingSendDataLen > 0 then
    some (true, { w with handler := { w.handler with pendingPing := true } })
  else do
    let w := { w with handler := { w.handler with pendingPing := false } }
    let sendBuffer : Buffer MQTT_MAX_HEADER_SIZE := .filled _ 0
    -- where `write_header` returns 0, the empty packet is sent
    let c := (← writeHeader MQTTPINGREQ 0 sendBuffer MQTT_BUFFER_SIZE 0).getD ⟨sendBuffer, 0⟩
    let w := w.stamp d
    return w.send d c.written

/-- `MQTTSocketHandler::send_publish_data`. -/
def sendPublishData (d : Downstream κ) (w : World κ) (data : List UInt8) :
    Option (Bool × World κ) :=
  if w.handler.pendingSendDataLen < data.length then some (false, w)
  else
    let w := { w with handler := { w.handler with
      pendingSendDataLen := w.handler.pendingSendDataLen - data.length } }
    let (ok, w) := w.send d data
    if !ok then some (false, w)
    else if w.handler.pendingSendDataLen = 0 ∧ w.handler.pendingPing then w.sendPing d
    else some (true, w)

/-- `MQTTSocketHandler::update`. -/
def update (d : Downstream κ) (w : World κ) (nowUs : UInt64) : Option (Bool × World κ) :=
  let (connected, env) := d.isConnected w.env
  let w := { w with env := env }
  if connected then
    let seconds := ((nowUs - w.handler.lastKeepaliveUs) / 1000000).toUInt32
    if seconds > w.handler.keepaliveSeconds.toUInt32 then do
      let (_, w) ← (w.stamp d).sendPing d
      return (true, w)
    else some (true, w)
  else some (true, w)

/-- `MQTTSocketHandler::on_connected`, before the call of the upstream interface in it. -/
def onConnected (d : Downstream κ) (w : World κ) : World κ :=
  let (now, env) := d.getAbsoluteTime w.env
  { w with handler := w.handler.reset now, env := env }

end World

/-! ### What an operation does -/

namespace World

variable {κ : Type} {d : Downstream κ} {w w' : World κ} {ok : Bool}

/-- A CONNECT is refused, or handed over. -/
theorem sendConnect_cases {cleanSession : Bool} {keepaliveSeconds : UInt8}
    {id willTopic willMessage user pass : Option (List UInt8)}
    (h : w.sendConnect d cleanSession keepaliveSeconds id willTopic willMessage user pass =
      some (ok, w')) :
    (ok = false ∧ w' = w) ∨ w.handler.pendingSendDataLen = 0 ∧ ∃ bytes,
      (ok, w') = World.send d ⟨{ (w.stamp d).handler with
        messageId := 1, keepaliveSeconds := keepaliveSeconds }, (w.stamp d).env, w.handed⟩
          bytes := by
  rw [sendConnect] at h
  split at h
  · cases h
    exact .inl ⟨rfl, rfl⟩
  rename_i hzero
  extract_lets at h
  split at h
  · cases h
    exact .inl ⟨rfl, rfl⟩
  obtain ⟨c, -, h⟩ := Option.bind_eq_some_iff.1 h
  cases c with
  | none =>
      cases h
      exact .inl ⟨rfl, rfl⟩
  | some c =>
      obtain ⟨c₁, -, h⟩ := Option.bind_eq_some_iff.1 h
      cases id with
      | none =>
          cases h
          exact .inl ⟨rfl, rfl⟩
      | some id =>
          obtain ⟨c₂, -, h⟩ := Option.bind_eq_some_iff.1 h
          exact .inr ⟨by omega, c₂.written, (Option.some.inj h).symm⟩

/-- A SUBSCRIBE is refused, or handed over. -/
theorem sendSubscribe_cases {topic : List UInt8} (h : w.sendSubscribe d topic = some (ok, w')) :
    (ok = false ∧ w' = w) ∨ w.handler.pendingSendDataLen = 0 ∧ ∃ bytes,
      (ok, w') = World.send d ⟨{ (w.stamp d).handler with
        messageId := nextMessageId w.handler.messageId }, (w.stamp d).env, w.handed⟩ bytes := by
  rw [sendSubscribe] at h
  split at h
  · cases h
    exact .inl ⟨rfl, rfl⟩
  rename_i hzero
  extract_lets at h
  split at h
  · cases h
    exact .inl ⟨rfl, rfl⟩
  obtain ⟨c, -, h⟩ := Option.bind_eq_some_iff.1 h
  cases c with
  | none =>
      cases h
      exact .inl ⟨rfl, rfl⟩
  | some c =>
      obtain ⟨c₁, -, h⟩ := Option.bind_eq_some_iff.1 h
      obtain ⟨c₂, -, h⟩ := Option.bind_eq_some_iff.1 h
      obtain ⟨c₃, -, h⟩ := Option.bind_eq_some_iff.1 h
      obtain ⟨c₄, -, h⟩ := Option.bind_eq_some_iff.1 h
      exact .inr ⟨by omega, c₄.written, (Option.some.inj h).symm⟩

/-- The beginning of a PUBLISH is refused, or handed over. -/
theorem sendPublishHeader_cases {topic : List UInt8} {messageLength : ℕ}
    {messageId : Option UInt16}
    (h : w.sendPublishHeader d topic messageLength = some (messageId, ok, w')) :
    (ok = false ∧ w' = w) ∨ w.handler.pendingSendDataLen = 0 ∧ ∃ bytes,
      (ok, w') = World.send d ⟨{ (w.stamp d).handler with
        pendingSendDataLen := messageLength
        messageId := nextMessageId w.handler.messageId }, (w.stamp d).env, w.handed⟩ bytes := by
  rw [sendPublishHeader] at h
  split at h
  · cases h
    exact .inl ⟨rfl, rfl⟩
  rename_i hzero
  extract_lets at h
  obtain ⟨c, -, h⟩ := Option.bind_eq_some_iff.1 h
  cases c with
  | none =>
      cases h
      exact .inl ⟨rfl, rfl⟩
  | some c =>
      obtain ⟨c₁, -, h⟩ := Option.bind_eq_some_iff.1 h
      obtain ⟨c₂, -, h⟩ := Option.bind_eq_some_iff.1 h
      obtain ⟨c₃, -, h⟩ := Option.bind_eq_some_iff.1 h
      obtain ⟨c₄, -, h⟩ := Option.bind_eq_some_iff.1 h
      obtain ⟨c₅, -, h⟩ := Option.bind_eq_some_iff.1 h
      refine .inr ⟨by omega, c₅.written, ?_⟩
      cases h
      rfl

/-- A PINGREQ is deferred, or handed over. -/
theorem sendPing_cases (h : w.sendPing d = some (ok, w')) :
    (0 < w.handler.pendingSendDataLen ∧ ok = true ∧
      w' = { w with handler := { w.handler with pendingPing := true } }) ∨
    w.handler.pendingSendDataLen = 0 ∧ ∃ bytes,
      (ok, w') = World.send d ⟨{ (w.stamp d).handler with pendingPing := false },
        (w.stamp d).env, w.handed⟩ bytes := by
  rw [sendPing] at h
  split at h
  · rename_i hpos
    cases h
    exact .inl ⟨hpos, rfl, rfl⟩
  · rename_i hzero
    obtain ⟨c, -, h⟩ := Option.bind_eq_some_iff.1 h
    exact .inr ⟨by omega, _, (Option.some.inj h).symm⟩

/-- More data than is missing is refused; other data is handed over, and where its send has not
answered zero, a deferred PINGREQ after the last of it. -/
theorem sendPublishData_cases {data : List UInt8} (h : w.sendPublishData d data = some (ok, w')) :
    (w.handler.pendingSendDataLen < data.length ∧ ok = false ∧ w' = w) ∨
    data.length ≤ w.handler.pendingSendDataLen ∧ ∃ sent w₁,
      (sent, w₁) = World.send d { w with handler := { w.handler with
        pendingSendDataLen := w.handler.pendingSendDataLen - data.length } } data ∧
      (if sent = true ∧ w₁.handler.pendingSendDataLen = 0 ∧ w₁.handler.pendingPing = true then
        w₁.sendPing d = some (ok, w')
      else ok = sent ∧ w' = w₁) := by
  rw [sendPublishData] at h
  split at h
  · rename_i hlt
    cases h
    exact .inl ⟨hlt, rfl, rfl⟩
  · rename_i hle
    extract_lets h₀ w₀ at h
    rcases hsend : World.send d w₀ data with ⟨sent, w₁⟩
    rw [hsend] at h
    refine .inr ⟨by omega, sent, w₁, rfl, ?_⟩
    dsimp only at h
    cases sent with
    | false =>
        cases h
        exact ⟨rfl, rfl⟩
    | true =>
        rw [Bool.not_true, if_neg Bool.false_ne_true] at h
        split at h
        · rename_i hping
          rw [if_pos ⟨rfl, hping⟩]
          exact h
        · rename_i hping
          rw [if_neg fun hall => hping hall.2]
          cases h
          exact ⟨rfl, rfl⟩

end World

/-! ### Runs -/

/-- A call of one of the operations, with its arguments. -/
inductive SendOp
  | sendConnect (cleanSession : Bool) (keepaliveSeconds : UInt8)
      (id willTopic willMessage user pass : Option (List UInt8))
  | sendSubscribe (topic : List UInt8)
  | sendPublishHeader (topic : List UInt8) (messageLength : ℕ)
  | sendPublishData (data : List UInt8)
  | sendPing
  | update (nowUs : UInt64)

namespace World

variable {κ : Type}

/-- A call of an operation. -/
def step (d : Downstream κ) (w : World κ) : SendOp → Option (Bool × World κ)
  | .sendConnect cleanSession keepaliveSeconds id willTopic willMessage user pass =>
    w.sendConnect d cleanSession keepaliveSeconds id willTopic willMessage user pass
  | .sendSubscribe topic => w.sendSubscribe d topic
  | .sendPublishHeader topic messageLength => (w.sendPublishHeader d topic messageLength).map (·.2)
  | .sendPublishData data => w.sendPublishData d data
  | .sendPing => w.sendPing d
  | .update nowUs => w.update d nowUs

/-- Calls of operations, one after the other, whatever they answer. -/
def runOps (d : Downstream κ) (w : World κ) : List SendOp → Option (World κ)
  | [] => some w
  | op :: ops => do
    let (_, w) ← w.step d op
    runOps d w ops

/-- All bytes that have been handed to the downstream. -/
def bytes (w : World κ) : List UInt8 := w.handed.flatten

end World

end Mqtt
