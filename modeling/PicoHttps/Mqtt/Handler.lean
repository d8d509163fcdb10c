/-
**The MQTT handler, receiving side.**

The model of `pico_simple_mqtt/mqtt_handler.cpp` as far as it reads bytes:
`MQTTSocketHandler::on_recv` and the decoders it calls.  A packet is decoded in a buffer of 256
bytes, from its first byte and at every chunk again, until the buffer holds enough of it; only the
payload of a PUBLISH is handed on as it arrives.

A machine integer is a natural number with its wrap-around written out.  The receive buffer is a
`Buffer` of 256 bytes whose accesses are checked: `none` is an access outside it.  The answers of
the upstream interface do not appear, because every call of it on this side discards the answer.

Main definitions:

* `Mqtt.UpstreamCall` — the calls of the upstream interface;
* `Mqtt.MQTTSocketHandler` — the fields of the handler, and `reset`;
* `Mqtt.MQTTSocketHandler.decodeHeader` and the decoders of the packet types;
* `Mqtt.MQTTSocketHandler.decodeTurn` — one iteration of the loop of `decode_data`;
* `Mqtt.OnRecv` — a call of `on_recv` that returns.
-/

import PicoHttps.Basics.While
import PicoHttps.Basics.Buffer
import PicoHttps.Basics.Bytes

set_option relaxedAutoImplicit false
set_option autoImplicit false

namespace Mqtt

abbrev MQTTQOS1 : UInt8 := 0x02
abbrev MQTTQOS2 : UInt8 := 0x04
abbrev MQTTRETAIN : UInt8 := 0x01

abbrev MQTT_MAX_HEADER_SIZE : ℕ := 5
abbrev MQTT_BUFFER_SIZE : ℕ := 256

/-- `enum class SocketState`. -/
inductive SocketState
  | WAIT_PACKET
  | WAIT_DATA
  deriving DecidableEq, Repr

/-! ### `enum mqtt_message_type_t` -/

abbrev MQTTCONNECT : UInt8 := 0x10
abbrev MQTTCONNACK : UInt8 := 0x20
abbrev MQTTPUBLISH : UInt8 := 0x30
abbrev MQTTPUBACK : UInt8 := 0x40
abbrev MQTTSUBSCRIBE : UInt8 := 0x80
abbrev MQTTSUBACK : UInt8 := 0x90
abbrev MQTTPINGREQ : UInt8 := 0xC0
abbrev MQTTPINGRESP : UInt8 := 0xD0

/-- A call of `class MQTTSocketInterface`. -/
inductive UpstreamCall
  | onPubAck (messageId : ℕ)
  | onSubAck (messageId : ℕ)
  | onConnAck (code flags : UInt8)
  | onPingReq
  | onPingResp
  | onPublishHeader (topic : List UInt8) (messageId messageLength : ℕ)
  | onPublishData (data : List UInt8) (lastChunk : Bool)
  deriving DecidableEq, Repr

/-- The fields of `class MQTTSocketHandler`. -/
structure MQTTSocketHandler where
  pendingPing : Bool
  keepaliveSeconds : UInt8
  messageId : UInt16
  recvBufferIdx : ℕ
  recvBuffer : Buffer MQTT_BUFFER_SIZE
  state : SocketState
  lastKeepaliveUs : UInt64
  pendingDataLen : ℕ
  pendingSendDataLen : ℕ

namespace MQTTSocketHandler

/-- `MQTTSocketHandler::MQTTSocketHandler`.  The receive buffer is not initialised. -/
def new (recvBuffer : Buffer MQTT_BUFFER_SIZE) : MQTTSocketHandler where
  pendingPing := false
  keepaliveSeconds := 0
  messageId := 1
  recvBufferIdx := 0
  recvBuffer := recvBuffer
  state := .WAIT_PACKET
  lastKeepaliveUs := 0
  pendingDataLen := 0
  pendingSendDataLen := 0

/-- `MQTTSocketHandler::reset`, at the time `now` that `get_absolute_time` gives.  The bytes of the
receive buffer and the keepalive time stay. -/
def reset (h : MQTTSocketHandler) (now : UInt64) : MQTTSocketHandler :=
  { h with
    pendingPing := false
    messageId := 1
    recvBufferIdx := 0
    state := .WAIT_PACKET
    lastKeepaliveUs := now
    pendingDataLen := 0
    pendingSendDataLen := 0 }

/-! ### The decoders -/

/-- What a decoder leaves: the handler, the data not consumed, the calls it made, its answer. -/
structure Decoded where
  handler : MQTTSocketHandler
  data : List UInt8
  calls : List UpstreamCall
  ok : Bool

/-- `MQTTSocketHandler::consume`, as the last thing that a decoder does. -/
def consume (h : MQTTSocketHandler) (data : List UInt8) (calls : List UpstreamCall)
    (bytes : ℕ) : Decoded :=
  if bytes > data.length then ⟨h, data, calls, false⟩
  else ⟨h, data.drop bytes, calls, true⟩

/-- The loop of `decode_header` that reads the remaining length, with `turns` turns left: five are
enough.  The result is `none` inside when more bytes are needed. -/
def lengthLoop (h : MQTTSocketHandler) : ℕ → ℕ → ℕ → Option (Option (ℕ × ℕ))
  | 0, pos, length => some (some (pos, length))
  | turns + 1, pos, length =>
    let pos := pos + 1
    if pos ≥ h.recvBufferIdx then some none
    else do
      let b ← h.recvBuffer.read pos
      let length := (length + ((b &&& 0x7F).toNat <<< ((pos - 1) * 7)) % 2 ^ 32) % 2 ^ 32
      if b &&& 0x80 ≠ 0 ∧ pos < 5 then lengthLoop h turns pos length
      else return some (pos, length)

/-- Two bytes of the receive buffer, the high one first. -/
def readTwo (h : MQTTSocketHandler) (pos : ℕ) : Option ℕ := do
  let high ← h.recvBuffer.read pos
  let low ← h.recvBuffer.read (pos + 1)
  return high.toNat <<< 8 + low.toNat

/-- `MQTTSocketHandler::decode_publish_header`. -/
def decodePublishHeader (h : MQTTSocketHandler) (data : List UInt8)
    (msgSize pos startPosition : ℕ) : Option Decoded :=
  if pos + 2 > h.recvBufferIdx then some (consume h data [] data.length)
  else do
    let topicLength ← h.readTwo pos
    let pos := pos + 2
    if pos + topicLength ≥ MQTT_BUFFER_SIZE then
      return ⟨h, data, [], false⟩
    if pos + topicLength > h.recvBufferIdx then
      return consume h data [] data.length
    let topic := (h.recvBuffer.bytes.drop pos).take topicLength
    let pos := pos + topicLength
    let b0 ← h.recvBuffer.read 0
    let hasId := b0 &&& (MQTTQOS1 ||| MQTTQOS2) ≠ 0
    if hasId ∧ pos + 2 > h.recvBufferIdx then
      return consume h data [] data.length
    let messageId ← if hasId then h.readTwo pos else some 0
    let pos := pos + if hasId then 2 else 0
    -- a `uint32_t`
    let messageLength := (msgSize + 2 ^ 32 - pos) % 2 ^ 32
    let calls := [.onPublishHeader topic messageId messageLength]
    let h := { h with
      pendingDataLen := messageLength
      state := .WAIT_DATA
      recvBufferIdx := 0 }
    if startPosition > pos then
      return ⟨h, data, calls, false⟩
    return consume h data calls (pos - startPosition)

/-- What `decode_conn_ack`, `decode_pubsub_ack`, `decode_ping` and `decode_unhandled` have in
common: they wait for `msgSize` bytes, and for the `fields` bytes after the fixed header that
`call` reads. -/
def decodeBuffered (fields : ℕ) (call : Option (Option UpstreamCall)) (h : MQTTSocketHandler)
    (data : List UInt8) (msgSize pos startPosition : ℕ) : Option Decoded :=
  if msgSize ≥ MQTT_BUFFER_SIZE then some ⟨h, data, [], false⟩
  else if msgSize > h.recvBufferIdx then some (consume h data [] data.length)
  else if pos + fields > h.recvBufferIdx then some (consume h data [] data.length)
  else do
    let call ← call
    if startPosition > msgSize then
      return ⟨h, data, [], false⟩
    return consume { h with recvBufferIdx := 0 } data call.toList (msgSize - startPosition)

/-- `MQTTSocketHandler::decode_conn_ack`. -/
def decodeConnAck (h : MQTTSocketHandler) (data : List UInt8)
    (msgSize pos startPosition : ℕ) : Option Decoded :=
  decodeBuffered 2 (do
    let connAckFlags ← h.recvBuffer.read pos
    let code ← h.recvBuffer.read (pos + 1)
    return some (.onConnAck code connAckFlags)) h data msgSize pos startPosition

/-- `MQTTSocketHandler::decode_pubsub_ack`. -/
def decodePubsubAck (h : MQTTSocketHandler) (data : List UInt8)
    (msgSize pos startPosition : ℕ) (messageType : UInt8) : Option Decoded :=
  decodeBuffered 2 (do
    let messageId ← h.readTwo pos
    return some (if messageType = MQTTPUBACK then .onPubAck messageId else .onSubAck messageId))
    h data msgSize pos startPosition

/-- `MQTTSocketHandler::decode_ping`, which reads no bytes after the fixed header. -/
def decodePing (h : MQTTSocketHandler) (data : List UInt8)
    (msgSize startPosition : ℕ) (messageType : UInt8) : Option Decoded :=
  decodeBuffered 0 (some (
    if messageType = MQTTPINGRESP then some .onPingResp
    else if messageType = MQTTPINGREQ then some .onPingReq
    else none)) h data msgSize 0 startPosition

/-- `MQTTSocketHandler::decode_unhandled`. -/
def decodeUnhandled (h : MQTTSocketHandler) (data : List UInt8)
    (msgSize startPosition : ℕ) : Option Decoded :=
  decodeBuffered 0 (some none) h data msgSize 0 startPosition

/-- `MQTTSocketHandler::decode_header` once the data is in the buffer. -/
def decodeBuffer (h : MQTTSocketHandler) (data : List UInt8) (startPosition : ℕ) :
    Option Decoded :=
  if h.recvBufferIdx < 2 then some (consume h data [] data.length)
  else do
    match ← h.lengthLoop 5 0 0 with
    | none => return consume h data [] data.length
    | some (pos, length) =>
      let pos := pos + 1
      let msgSize := (length + pos) % 2 ^ 32
      let b0 ← h.recvBuffer.read 0
      let messageType := b0 &&& 0xf0
      if messageType = MQTTPUBLISH then h.decodePublishHeader data msgSize pos startPosition
      else if messageType = MQTTCONNACK then h.decodeConnAck data msgSize pos startPosition
      else if messageType = MQTTSUBACK ∨ messageType = MQTTPUBACK then
        h.decodePubsubAck data msgSize pos startPosition messageType
      else if messageType = MQTTPINGRESP ∨ messageType = MQTTPINGREQ then
        h.decodePing data msgSize startPosition messageType
      else h.decodeUnhandled data msgSize startPosition

/-- `MQTTSocketHandler::decode_header`. -/
def decodeHeader (h : MQTTSocketHandler) (data : List UInt8) : Option Decoded := do
  let startPosition := h.recvBufferIdx
  let bytesToCopy := min data.length (MQTT_BUFFER_SIZE - h.recvBufferIdx)
  let recvBuffer ← h.recvBuffer.memcpy h.recvBufferIdx (data.take bytesToCopy)
  let h := { h with recvBuffer := recvBuffer, recvBufferIdx := h.recvBufferIdx + bytesToCopy }
  h.decodeBuffer data startPosition

/-! ### The loop -/

/-- One iteration of `while (len > 0)` in `decode_data`.  The loop leaves with the value returned,
or with `none` after an access outside the buffer. -/
def decodeTurn : While.Body (MQTTSocketHandler × List UInt8) UpstreamCall
    (Option (Bool × MQTTSocketHandler))
  | (h, data) =>
    if 0 < data.length then
      match h.state with
      | .WAIT_PACKET =>
        match h.decodeHeader data with
        | none => ([], .inr none)
        | some d =>
          if d.ok then (d.calls, .inl (d.handler, d.data))
          else (d.calls, .inr (some (false, d.handler)))
      | .WAIT_DATA =>
        let bytesReceived :=
          if data.length < h.pendingDataLen then data.length else h.pendingDataLen
        let call := .onPublishData (data.take bytesReceived) (bytesReceived == h.pendingDataLen)
        let h := { h with pendingDataLen := h.pendingDataLen - bytesReceived }
        let h := { h with state := if h.pendingDataLen = 0 then .WAIT_PACKET else h.state }
        ([call], .inl (h, data.drop bytesReceived))
    else ([], .inr (some (true, h)))

end MQTTSocketHandler

/-- A handler that has been constructed in memory full of zeros. -/
def zeroed : MQTTSocketHandler := .new (.filled _ 0)

/-- `MQTTSocketHandler::on_recv` on `data` makes the calls and returns: the handler is left behind
when the answer is true, and `none` stands for the answer false. -/
def OnRecv (h : MQTTSocketHandler) (data : List UInt8) (calls : List UpstreamCall)
    (answer : Option MQTTSocketHandler) : Prop :=
  ∃ ok h', While.Exec MQTTSocketHandler.decodeTurn (h, data) calls (some (ok, h')) ∧
    answer = if ok then some h' else none

end Mqtt
