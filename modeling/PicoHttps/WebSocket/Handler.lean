/-
**The WebSocket handler.**

The model of `pico_http/websocket_handler.cpp`: `WebSocketHandler::decodeData`, which turns the
bytes of a connection into calls of a `WebSocketInterface`, and `WebSocketHandler::encodeData`,
which frames a payload.

The callback object is a `WebSocketInterface` over a type `κ` of its own states, so it may do
anything between two calls and its answers may depend on everything it has seen.  The handler
reads nothing of it but the answers.

A size or an index is a natural number; the header buffer is a `Buffer` of 16 bytes and every
access to it is checked, as is the distance by which the data pointer moves.

Main definitions:

* `WebSocket.WebSocketInterface`, `WebSocket.recorder` — the callbacks, and the callback object
  that only writes down the calls it gets;
* `WebSocket.WebSocketHandler` — the fields of the handler;
* `WebSocket.WebSocketHandler.decodeTurn` — one iteration of the loop of `decodeData`;
* `WebSocket.WebSocketHandler.decodeData`, `WebSocket.WebSocketHandler.encodeData`.
-/

import PicoHttps.Basics.While
import PicoHttps.Basics.Buffer
import PicoHttps.Basics.Bytes
import Mathlib.Data.Fin.VecNotation

set_option relaxedAutoImplicit false
set_option autoImplicit false

namespace WebSocket

/-- `MAX_WEBSOCKET_HEADER`. -/
abbrev MAX_WEBSOCKET_HEADER : ℕ := 16

/-- `enum WebSocketState`. -/
inductive WebSocketState
  | WAIT_PACKET
  | WAIT_DATA
  deriving DecidableEq, Repr

/-- `enum WebSocketOperation`: any value of its four bits can be stored in it. -/
abbrev WebSocketOperation := UInt8

abbrev CONTINUATION_FRAME : WebSocketOperation := 0x00
abbrev TEXT_FRAME : WebSocketOperation := 0x01
abbrev BINARY_FRAME : WebSocketOperation := 0x02

/-! ### The callbacks -/

/-- `class WebSocketInterface`, for a callback object whose state is a `κ`. -/
structure WebSocketInterface (κ : Type) where
  onWebSocketData : List UInt8 → κ → Bool × κ
  onFinishedPacket : κ → Bool × κ
  onWebsocketEncodedData : List UInt8 → κ → Bool × κ

/-- A call of the callback object. -/
inductive Call
  | onWebSocketData (data : List UInt8)
  | onFinishedPacket
  | onWebsocketEncodedData (data : List UInt8)
  deriving DecidableEq, Repr

/-- The callback object that accepts everything and writes down the calls it gets. -/
def recorder : WebSocketInterface (List Call) where
  onWebSocketData data log := (true, log ++ [.onWebSocketData data])
  onFinishedPacket log := (true, log ++ [.onFinishedPacket])
  onWebsocketEncodedData data log := (true, log ++ [.onWebsocketEncodedData data])

/-! ### The handler -/

/-- The fields of `class WebSocketHandler`. -/
structure WebSocketHandler where
  fin : Bool
  mask : Bool
  webSocketOperation : WebSocketOperation
  webSocketDataLen : ℕ
  webSocketDataIndex : ℕ
  maskingKey : Fin 4 → UInt8
  state : WebSocketState
  bufferIndex : ℕ
  buffer : Buffer MAX_WEBSOCKET_HEADER

namespace WebSocketHandler

/-- A new handler; the fields without an initialiser hold whatever the memory held. -/
def fresh (op : WebSocketOperation) (key : Fin 4 → UInt8)
    (buffer : Buffer MAX_WEBSOCKET_HEADER) : WebSocketHandler where
  fin := false
  mask := false
  webSocketOperation := op
  webSocketDataLen := 0
  webSocketDataIndex := 0
  maskingKey := key
  state := .WAIT_PACKET
  bufferIndex := 0
  buffer := buffer

/-- The length that the bytes after the second header byte announce, and the index `i` of the
first byte after them. -/
def readLength (buffer : Buffer MAX_WEBSOCKET_HEADER) (payloadLen : UInt8) : Option (ℕ × ℕ) :=
  if payloadLen < 126 then some (payloadLen.toNat, 2)
  else if payloadLen = 126 then do
    let b2 ← buffer.read 2
    let b3 ← buffer.read 3
    return (b2.toNat <<< 8 ||| b3.toNat, 4)
  else do
    let b2 ← buffer.read 2
    let b3 ← buffer.read 3
    let b4 ← buffer.read 4
    let b5 ← buffer.read 5
    let b6 ← buffer.read 6
    let b7 ← buffer.read 7
    let b8 ← buffer.read 8
    let b9 ← buffer.read 9
    return (b2.toNat <<< 56 ||| b3.toNat <<< 48 ||| b4.toNat <<< 40 ||| b5.toNat <<< 32 |||
      b6.toNat <<< 24 ||| b7.toNat <<< 16 ||| b8.toNat <<< 8 ||| b9.toNat, 10)

/-- The masking key, read from the buffer at `i` when the frame is masked. -/
def readKey (buffer : Buffer MAX_WEBSOCKET_HEADER) (mask : Bool) (i : ℕ) :
    Option (Fin 4 → UInt8) :=
  if mask then do
    let k0 ← buffer.read (i + 0)
    let k1 ← buffer.read (i + 1)
    let k2 ← buffer.read (i + 2)
    let k3 ← buffer.read (i + 3)
    return ![k0, k1, k2, k3]
  else some ![0, 0, 0, 0]

/-- The branch `WAIT_PACKET` of the loop.  The handler is returned with the rest of the data, or
with `none` where the source returns `true` to wait for more bytes of the header. -/
def waitPacket (h : WebSocketHandler) (data : List UInt8) :
    Option (WebSocketHandler × Option (List UInt8)) := do
  let bytesToCopy := min data.length (MAX_WEBSOCKET_HEADER - h.bufferIndex)
  let buffer ← h.buffer.memcpy h.bufferIndex (data.take bytesToCopy)
  let h := { h with buffer := buffer, bufferIndex := h.bufferIndex + bytesToCopy }
  if h.bufferIndex < 2 then
    return (h, none)
  let b0 ← buffer.read 0
  let b1 ← buffer.read 1
  let h := { h with
    fin := b0 &&& 0x80 != 0
    webSocketOperation := b0 &&& 0x0f
    mask := b1 &&& 0x80 != 0 }
  let payloadLen := b1 &&& 0x7f
  let websocketHeaderSize := 2 + (if payloadLen = 126 then 2 else 0) +
    (if payloadLen = 127 then 8 else 0) + (if h.mask then 4 else 0)
  if h.bufferIndex < websocketHeaderSize then
    return (h, none)
  -- an `int`: a negative distance would move the data pointer before the chunk
  let extraBytes : ℤ := bytesToCopy - (h.bufferIndex - websocketHeaderSize : ℕ)
  if extraBytes < 0 ∨ data.length < extraBytes then
    none
  let data := data.drop extraBytes.toNat
  let (webSocketDataLen, i) ← readLength buffer payloadLen
  let maskingKey ← readKey buffer h.mask i
  return ({ h with
    webSocketDataLen := webSocketDataLen
    maskingKey := maskingKey
    webSocketDataIndex := 0
    state := .WAIT_DATA
    bufferIndex := 0 }, some data)

/-- The `for` loop of the branch `WAIT_DATA`, from `m_webSocketDataIndex = index` on: the bytes it
has gone over, unmasked in place when the frame is masked. -/
def unmask (mask : Bool) (key : Fin 4 → UInt8) (dataLen : ℕ) : ℕ → List UInt8 → List UInt8
  | _, [] => []
  | index, b :: data =>
    if index < dataLen then
      (if mask then b ^^^ key (Fin.ofNat 4 (index &&& 3)) else b) ::
        unmask mask key dataLen (index + 1) data
    else []

/-- Whether `m_webSocketOperation` is one of the operations that carry data. -/
def carriesData (op : WebSocketOperation) : Bool :=
  op == TEXT_FRAME || op == BINARY_FRAME || op == CONTINUATION_FRAME

variable {κ : Type}

/-- What an iteration of the loop leaves: the handler, the data left, the callback object. -/
abbrev Loop (κ : Type) := WebSocketHandler × List UInt8 × κ

/-- The branch `WAIT_DATA` of the loop: the state it leaves, or the value it returns. -/
def waitData (cb : WebSocketInterface κ) (h : WebSocketHandler) (data : List UInt8) (k : κ) :
    Loop κ ⊕ (Bool × WebSocketHandler × κ) :=
  if carriesData h.webSocketOperation then
    let unmasked := unmask h.mask h.maskingKey h.webSocketDataLen h.webSocketDataIndex data
    let i := unmasked.length
    let h := { h with webSocketDataIndex := h.webSocketDataIndex + i }
    match cb.onWebSocketData unmasked k with
    | (false, k) => .inr (false, h, k)
    | (true, k) =>
      if h.webSocketDataIndex = h.webSocketDataLen then
        let h := { h with state := .WAIT_PACKET }
        match cb.onFinishedPacket k with
        | (false, k) => .inr (false, h, k)
        | (true, k) => .inl (h, data.drop i, k)
      else .inl (h, data.drop i, k)
  else .inr (false, h, k)

/-- One iteration of `while (len > 0)` in `decodeData`.  The loop leaves with the value returned,
or with `none` after an access outside a buffer. -/
def decodeTurn (cb : WebSocketInterface κ) :
    While.Body (Loop κ) Empty (Option (Bool × WebSocketHandler × κ))
  | (h, data, k) =>
    if 0 < data.length then
      match h.state with
      | .WAIT_PACKET =>
        match h.waitPacket data with
        | none => ([], .inr none)
        | some (h, none) => ([], .inr (some (true, h, k)))
        | some (h, some data) => ([], .inl (h, data, k))
      | .WAIT_DATA =>
        match waitData cb h data k with
        | .inl s => ([], .inl s)
        | .inr r => ([], .inr (some r))
    else ([], .inr (some (true, h, k)))

/-- `WebSocketHandler::decodeData`.  The bound on the number of iterations is never reached
(`WebSocket.WebSocketHandler.decodeData_returns`). -/
def decodeData (cb : WebSocketInterface κ) (h : WebSocketHandler) (data : List UInt8) (k : κ) :
    Option (Bool × WebSocketHandler × κ) :=
  (While.run (decodeTurn cb) (2 * data.length + 2) (h, data, k)).bind (·.2)

/-- The header that `encodeData` writes before a payload of `len` bytes. -/
def encodeHeader (len : ℕ) : List UInt8 :=
  if len < 126 then [0x80 ||| BINARY_FRAME, 0 ||| UInt8.ofNat len]
  else if len ≤ 0xffff then
    [0x80 ||| BINARY_FRAME, 0 ||| 126, Bytes.byte len 8, Bytes.byte len 0]
  else
    [0x80 ||| BINARY_FRAME, 0 ||| 127, 0, 0, 0, 0, Bytes.byte len 24, Bytes.byte len 16,
      Bytes.byte len 8, Bytes.byte len 0]

/-- `WebSocketHandler::encodeData`; it reads and writes no field of the handler. -/
def encodeData (cb : WebSocketInterface κ) (data : List UInt8) (k : κ) : Bool × κ :=
  match cb.onWebsocketEncodedData (encodeHeader data.length) k with
  | (false, k) => (false, k)
  | (true, k) => cb.onWebsocketEncodedData data k

end WebSocketHandler

end WebSocket
