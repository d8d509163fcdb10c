/-
**The HTTP session.**

The model of `pico_http/http_session.cpp`.  An `HTTPSession` owns a `Tls.Session` and is its
callback object; an application derives from it, is called with the request, with the data that
follows it and with the payloads of WebSocket frames, and may enter the session from inside these
calls.  The methods of both classes are one program: what the TLS session calls is handled by the
HTTP session, `on_recv` and `on_closed` by its methods, and `on_sent`, which it does not define
otherwise, by the application.

The data that `on_recv` goes over is a part of the world, since `HTTPHeader::parse` and
`WebSocketHandler::decodeData` work in place.  An object that has deleted itself is a world like
any other: what a method that is still running reads of it is what it has left there.

Main definitions:

* `Http.HTTPSessionState`, `Http.HTTPSession`, `Http.World` — the states and fields of the session,
  and its surroundings;
* `Http.Call`, `Http.Event` — what it calls, and what it does;
* `Http.HTTPSession.onRecv`, with `Http.HTTPSession.decodeData`, and the other methods;
* `Http.Entry`, `Http.Entry.run`, `Http.Proper` — the ways in, and the moves of an application and
  of lwIP.
-/

import PicoHttps.Http.Header
import PicoHttps.Tls.Session
import PicoHttps.WebSocket.Handler

set_option relaxedAutoImplicit false
set_option autoImplicit false

namespace Http

open WebSocket (WebSocketHandler)

/-- `enum HTTPSessionState`. -/
inductive HTTPSessionState
  | INIT
  | HEADER_RECEIVED
  | WEBSOCKET_ESTABLISHED
  | FAIL
  deriving DecidableEq, Repr

/-- The functions of `mbedtls_wrapper.c`; `none` is an error of theirs.  `base64Encode` gives the
string that is left in a buffer of 128 bytes. -/
structure Crypto where
  sha1 : List UInt8 → Option (List UInt8)
  base64Encode : List UInt8 → Option (List UInt8)

/-! ### What the session calls -/

/-- A call that is answered: of the application, or of lwIP through the TLS session.  A `fault` is
an access outside of an object, and is not answered. -/
inductive Call
  | onRequestReceived (header : HTTPHeader) (data : List UInt8)
  | onHttpData (data : List UInt8)
  | onWebSocketData (data : List UInt8)
  | onFinishedPacket
  | onSent (len : ℕ)
  | lwip (c : Tls.Call)
  | fault
  deriving DecidableEq, Repr

/-- What a call is answered with. -/
abbrev Call.Answer : Call → Type
  | .onRequestReceived _ _ | .onHttpData _ | .onWebSocketData _ | .onFinishedPacket => Bool
  | .onSent _ => Bool
  | .lwip c => c.Answer
  | .fault => Empty

/-- What the session does: it is given data, calls the application and is answered, decodes data,
has accepted a WebSocket or failed to, closes, and deletes itself. -/
inductive Event
  | onRecv (data : List UInt8)
  | call (c : Call)
  | answered (c : Call)
  | decodeData (data : List UInt8)
  | acceptWebSocket (accepted : Bool)
  | close
  | deleted
  deriving DecidableEq, Repr

/-! ### The session and its surroundings -/

/-- The fields of `class HTTPSession`, but for `m_session`. -/
structure HTTPSession where
  state : HTTPSessionState
  header : HTTPHeader
  websocketHandler : WebSocketHandler

/-- A session, its TLS session, the data that is left of what `on_recv` has been given, and the log
of what happened. -/
structure World where
  crypto : Crypto
  http : HTTPSession
  tls : Tls.World
  data : List UInt8
  log : List Event

/-- Code of the session. -/
abbrev Prog := Reentrant.Prog World Call Call.Answer

namespace World

/-- Changes the HTTP session. -/
def set (f : HTTPSession → HTTPSession) (w : World) : World := { w with http := f w.http }

/-- Puts an event into the log. -/
def emit (e : Event) (w : World) : World := { w with log := w.log ++ [e] }

/-- Changes the TLS session and its surroundings. -/
def setTls (s : Tls.World) (w : World) : World := { w with tls := s }

/-- Changes the data that is left. -/
def setData (data : List UInt8) (w : World) : World := { w with data := data }

variable (f : HTTPSession → HTTPSession) (s : Tls.World) (data : List UInt8) (e : Event)
  (w : World)

@[simp] theorem set_crypto : (w.set f).crypto = w.crypto := rfl
@[simp] theorem set_http : (w.set f).http = f w.http := rfl
@[simp] theorem set_tls : (w.set f).tls = w.tls := rfl
@[simp] theorem set_data : (w.set f).data = w.data := rfl
@[simp] theorem set_log : (w.set f).log = w.log := rfl
@[simp] theorem emit_crypto : (w.emit e).crypto = w.crypto := rfl
@[simp] theorem emit_http : (w.emit e).http = w.http := rfl
@[simp] theorem emit_tls : (w.emit e).tls = w.tls := rfl
@[simp] theorem emit_data : (w.emit e).data = w.data := rfl
@[simp] theorem emit_log : (w.emit e).log = w.log ++ [e] := rfl
@[simp] theorem setTls_crypto : (w.setTls s).crypto = w.crypto := rfl
@[simp] theorem setTls_http : (w.setTls s).http = w.http := rfl
@[simp] theorem setTls_tls : (w.setTls s).tls = s := rfl
@[simp] theorem setTls_data : (w.setTls s).data = w.data := rfl
@[simp] theorem setTls_log : (w.setTls s).log = w.log := rfl
@[simp] theorem setData_crypto : (w.setData data).crypto = w.crypto := rfl
@[simp] theorem setData_http : (w.setData data).http = w.http := rfl
@[simp] theorem setData_tls : (w.setData data).tls = w.tls := rfl
@[simp] theorem setData_data : (w.setData data).data = data := rfl
@[simp] theorem setData_log : (w.setData data).log = w.log := rfl

end World

open Reentrant (Prog.get Prog.modify)

/-- Changes the HTTP session. -/
def set (f : HTTPSession → HTTPSession) : Prog Unit := Prog.modify (World.set f)

/-- Leaves an event in the log. -/
def emit (e : Event) : Prog Unit := Prog.modify (World.emit e)

/-- Changes the data that is left. -/
def setData (data : List UInt8) : Prog Unit := Prog.modify (World.setData data)

/-- Calls the application, which the log shows, and so it does when it is answered. -/
def call (c : Call) : Prog c.Answer := do
  emit (.call c)
  let a ← Reentrant.Prog.call c
  emit (.answered c)
  return a

/-- A call of lwIP, which the log of the TLS session shows. -/
def lwip (c : Tls.Call) : Prog c.Answer := Reentrant.Prog.call (Call.lwip c)

/-- An access outside of an object, after which nothing is known. -/
def fault {α : Type} : Prog α := do
  nomatch (← Reentrant.Prog.call .fault)

/-- Where the TLS session is in the world. -/
def tlsPart : Reentrant.Part Tls.World World where
  part := World.tls
  put := World.setTls

namespace HTTPSession

/-! ### Receiving -/

/-- The branch `WAIT_PACKET` of the loop of `decodeData`: the value that it returns, if any. -/
def waitPacket : Prog (Option Bool) := do
  let w ← Prog.get
  match w.http.websocketHandler.waitPacket w.data with
  | none => fault
  | some (h, none) =>
    set fun s => { s with websocketHandler := h }
    return some true
  | some (h, some data) =>
    set fun s => { s with websocketHandler := h }
    setData data
    return none

/-- The branch `WAIT_DATA` of the loop of `decodeData`: the value that it returns, if any. -/
def waitData : Prog (Option Bool) := do
  let w ← Prog.get
  let h := w.http.websocketHandler
  if WebSocketHandler.carriesData h.webSocketOperation then
    let unmasked := WebSocketHandler.unmask h.mask h.maskingKey h.webSocketDataLen
      h.webSocketDataIndex w.data
    let i := unmasked.length
    set fun s => { s with websocketHandler :=
      { h with webSocketDataIndex := h.webSocketDataIndex + i } }
    if !(← call (.onWebSocketData unmasked)) then
      return some false
    setData ((← Prog.get).data.drop i)
    let h := (← Prog.get).http.websocketHandler
    if h.webSocketDataIndex = h.webSocketDataLen then
      set fun s => { s with websocketHandler := { h with state := .WAIT_PACKET } }
      if !(← call .onFinishedPacket) then
        return some false
    return none
  else
    return some false

/-- `while (len > 0)` of `decodeData`, with `turns` turns left. -/
def decodeLoop : ℕ → Prog Bool
  | 0 => fault
  | turns + 1 => do
    let w ← Prog.get
    if w.data.length > 0 then
      match ← match w.http.websocketHandler.state with
        | .WAIT_PACKET => waitPacket
        | .WAIT_DATA => waitData with
      | some r => return r
      | none => decodeLoop turns
    else return true

/-- `m_websocketHandler.decodeData(data, len, this)`.  The bound on the number of turns is the one
of `WebSocket.WebSocketHandler.decodeData`. -/
def decodeData : Prog Bool := do
  let data := (← Prog.get).data
  emit (.decodeData data)
  decodeLoop (2 * data.length + 2)

/-- `HTTPSession::on_recv` in the state `INIT`. -/
def onRecvHeader : Prog Bool := do
  let w ← Prog.get
  match w.http.header.parse w.data with
  | none => fault
  | some (parsed, header, data) =>
    set fun s => { s with header := header }
    setData data
    if !parsed then
      return false
    set fun s => { s with state := .HEADER_RECEIVED }
    if !(← call (.onRequestReceived header data)) then
      return false
    let w ← Prog.get
    let data := w.data.drop w.http.header.getHeaderSize
    setData data
    if data.length > 0 then
      return ← call (.onHttpData data)
    return true

/-- `HTTPSession::on_recv`. -/
def onRecv (data : List UInt8) : Prog Bool := do
  emit (.onRecv data)
  setData data
  match (← Prog.get).http.state with
  | .INIT => onRecvHeader
  | .HEADER_RECEIVED => call (.onHttpData data)
  | .WEBSOCKET_ESTABLISHED => decodeData
  | .FAIL => return false

/-! ### What the TLS session calls -/

/-- `delete this`, with `HTTPSession::~HTTPSession` and `Session::~Session`, which closes a session
that has a pcb, with nobody to notify. -/
def destroy : Prog Unit := do
  emit .deleted
  let s := (← Prog.get).tls
  if s.session.pcb.isSome then
    Prog.modify (World.setTls (s.set fun s => { s with callback := false }))
    let _ ← Reentrant.Prog.link tlsPart lwip Tls.Session.close

/-- `HTTPSession::on_closed`. -/
def onClosed : Prog Unit := destroy

/-- What becomes of a call of the TLS session; `on_connected` is the empty method of
`ISessionCallback`, and `on_sent` is the one of the application. -/
def handle : (c : Tls.Call) → Prog c.Answer
  | .onConnected => pure ()
  | .onRecv data => onRecv data
  | .onSent len => call (.onSent len)
  | .onClosed => onClosed
  | .altcpWrite pcb data => lwip (.altcpWrite pcb data)
  | .altcpOutput pcb => lwip (.altcpOutput pcb)
  | .dnsGethostbyname host => lwip (.dnsGethostbyname host)
  | .altcpNew tls => lwip (.altcpNew tls)
  | .altcpConnect pcb ipaddr port => lwip (.altcpConnect pcb ipaddr port)

/-- A method of the TLS session. -/
def session {α : Type} (x : Tls.Prog α) : Prog α := Reentrant.Prog.link tlsPart handle x

/-! ### What the application calls -/

/-- `HTTPSession::onWebsocketEncodedData`. -/
def onWebsocketEncodedData (data : List UInt8) : Prog Bool := do
  let err ← session (Tls.Session.send (some data))
  return err = .ERR_OK

/-- `HTTPSession::sendWebSocketData`, with `WebSocketHandler::encodeData`. -/
def sendWebSocketData (body : List UInt8) : Prog Bool := do
  if !(← onWebsocketEncodedData (WebSocketHandler.encodeHeader body.length)) then
    return false
  onWebsocketEncodedData body

/-- The header of a reply, with `extraHeaders` in it. -/
def replyHeader (extraHeaders : List UInt8) (bodyLen : ℤ) : List UInt8 :=
  Text.ascii "HTTP/1.0 200 OK\r\n" ++ extraHeaders ++ Text.ascii "Content-Length: " ++
    Text.decimal bodyLen ++ Text.ascii "\r\n\r\n"

/-- `HTTPSession::sendHttpReply`; `body` is what the pointer points to, `none` a null pointer. -/
def sendHttpReply (extraHeaders : List UInt8) (body : Option (List UInt8)) (bodyLen : ℤ) :
    Prog Bool := do
  let buffer := replyHeader extraHeaders bodyLen
  if buffer.length ≥ 128 then
    return false
  if (← session (Tls.Session.send (some buffer))) ≠ .ERR_OK then
    return false
  match body with
  | none => return true
  | some body =>
    if (← session (Tls.Session.send (some body))) ≠ .ERR_OK then
      return false
    return true

/-- `KEY_BUFFER`. -/
def KEY_BUFFER : List UInt8 := Text.ascii "258EAFA5-E914-47DA-95CA-C5AB0DC85B11"

/-- The name of the header that `acceptWebSocket` looks for. -/
def keyName : List UInt8 := Text.ascii "Sec-WebSocket-Key"

/-- The reply to a request for a WebSocket. -/
def acceptReply (key : List UInt8) : List UInt8 :=
  Text.ascii "HTTP/1.1 101 Switching Protocols\r\nUpgrade: websocket\r\n" ++
    Text.ascii "Connection: Upgrade\r\nSec-WebSocket-Accept: " ++ key ++ Text.ascii "\r\n\r\n"

/-- `HTTPSession::acceptWebSocket`, for a header with pointers into `data`. -/
def acceptWebSocket (header : HTTPHeader) (data : List UInt8) : Prog Bool := do
  match header.getHeaderValue data keyName with
  | none => fault
  | some none => return false
  | some (some key) =>
    if key.length + 1 ≥ 128 - KEY_BUFFER.length then
      return false
    let crypto := (← Prog.get).crypto
    match crypto.sha1 (key ++ KEY_BUFFER) with
    | none => return false
    | some sha1sum =>
      match crypto.base64Encode sha1sum with
      | none => return false
      | some buffer =>
        let reply := acceptReply buffer
        if reply.length ≥ 256 then
          return false
        if (← session (Tls.Session.send (some reply))) ≠ .ERR_OK then
          return false
        set fun s => { s with state := .WEBSOCKET_ESTABLISHED }
        return true

/-- `HTTPSession::close`. -/
def close : Prog Unit := do
  emit .close
  set fun s => { s with state := .FAIL }
  let _ ← session Tls.Session.close

end HTTPSession

/-! ### The ways in -/

/-- A method that is entered: by the application, or by lwIP for a pcb. -/
inductive Entry
  | sendHttpReply (extraHeaders : List UInt8) (body : Option (List UInt8)) (bodyLen : ℤ)
  | sendWebSocketData (body : List UInt8)
  | acceptWebSocket (header : HTTPHeader) (data : List UInt8)
  | close
  | lwipRecv (pcb : ℕ) (p : List Tls.Pbuf) (err : Tls.Err)
  | lwipSent (pcb len : ℕ)
  | lwipErr (pcb : ℕ)
  deriving DecidableEq, Repr

/-- What a method returns. -/
inductive Result
  | void
  | bool (b : Bool)
  | err (e : Tls.Err)
  deriving DecidableEq, Repr

/-- The method that is entered.  The log shows whether a WebSocket has been accepted. -/
def Entry.run : Entry → Prog Result
  | .sendHttpReply extraHeaders body bodyLen => do
    return .bool (← HTTPSession.sendHttpReply extraHeaders body bodyLen)
  | .sendWebSocketData body => do return .bool (← HTTPSession.sendWebSocketData body)
  | .acceptWebSocket header data => do
    let accepted ← HTTPSession.acceptWebSocket header data
    emit (.acceptWebSocket accepted)
    return .bool accepted
  | .close => do
    HTTPSession.close
    return .void
  | .lwipRecv pcb p err => do
    return .err (← HTTPSession.session (Tls.Entry.run (.lwipRecv pcb p err)))
  | .lwipSent pcb len => do
    return .err (← HTTPSession.session (Tls.Entry.run (.lwipSent pcb len)))
  | .lwipErr pcb => do return .err (← HTTPSession.session (Tls.Entry.run (.lwipErr pcb)))

/-- A move at the session. -/
abbrev Move := Reentrant.Move Entry Call Call.Answer

/-- A session that waits for its surroundings. -/
abbrev Config := Reentrant.Config World Entry Call Call.Answer Result

/-- The calls in which the application may enter the session, as it may at the top level. -/
def Call.isCallback : Call → Bool
  | .lwip _ | .fault => false
  | _ => true

/-- The calls in which lwIP may report sent bytes or an error. -/
def Call.isOutput : Call → Bool
  | .lwip c => c.isOutput
  | _ => false

/-- The calls that deliver data to the application. -/
def Call.isData : Call → Bool
  | .onRequestReceived _ _ | .onHttpData _ | .onWebSocketData _ | .onFinishedPacket => true
  | _ => false

/-- **The moves of an application and of lwIP.**  The application enters the session at the top
level and inside its callbacks, with a body of the length it gives and with a header that points
into data; lwIP enters it for a pcb it has, at the top level and, to report sent bytes or an error,
inside `altcp_write` and `altcp_output`.  The length of a segment is a `u16_t`. -/
def Proper (pending : List Call) (w : World) : Move → Prop
  | .enter (.sendHttpReply _ body bodyLen) =>
    pending.head?.all Call.isCallback ∧ ∀ b ∈ body, bodyLen = b.length
  | .enter (.sendWebSocketData _) => pending.head?.all Call.isCallback
  | .enter (.acceptWebSocket header data) =>
    pending.head?.all Call.isCallback ∧ (header.getHeaderValue data HTTPSession.keyName).isSome
  | .enter .close => pending.head?.all Call.isCallback
  | .enter (.lwipRecv pcb p _) =>
    pending = [] ∧ pcb ∈ w.tls.net.live ∧ ∀ q ∈ p, q.payload.length < 2 ^ 16
  | .enter (.lwipSent pcb _) => pending.head?.all Call.isOutput ∧ pcb ∈ w.tls.net.live
  | .enter (.lwipErr pcb) => pending.head?.all Call.isOutput ∧ pcb ∈ w.tls.net.live
  | .answer _ _ => True

instance : ∀ pending w m, Decidable (Proper pending w m)
  | _, _, .enter (.sendHttpReply _ _ _) => inferInstanceAs (Decidable (_ = true ∧ _))
  | _, _, .enter (.sendWebSocketData _) => inferInstanceAs (Decidable (_ = true))
  | _, _, .enter (.acceptWebSocket _ _) => inferInstanceAs (Decidable (_ = true ∧ _ = true))
  | _, _, .enter .close => inferInstanceAs (Decidable (_ = true))
  | _, _, .enter (.lwipRecv _ _ _) => inferInstanceAs (Decidable (_ ∧ _ ∧ _))
  | _, _, .enter (.lwipSent _ _) => inferInstanceAs (Decidable (_ = true ∧ _))
  | _, _, .enter (.lwipErr _) => inferInstanceAs (Decidable (_ = true ∧ _))
  | _, _, .answer _ _ => inferInstanceAs (Decidable True)

/-- A new session, `HTTPSession::HTTPSession`, for the pcb `arg` of a connection that has been
accepted; the handler's fields without an initialiser hold what the memory held. -/
def World.start (crypto : Crypto) (setup : Tls.Setup) (arg : Option ℕ) (tls : Bool)
    (op : WebSocket.WebSocketOperation) (key : Fin 4 → UInt8)
    (buffer : Buffer WebSocket.MAX_WEBSOCKET_HEADER) : World where
  crypto := crypto
  http := ⟨.INIT, .new, .fresh op key buffer⟩
  tls := .start setup arg tls true
  data := []
  log := []

/-- The SHA-1 digest of the key `k` with `KEY_BUFFER` behind it. -/
def digest : List UInt8 :=
  [0x71, 0xa8, 0xb4, 0x1c, 0x55, 0x8b, 0xec, 0x31, 0x07, 0x66, 0x4c, 0x87, 0xc5, 0xdc, 0xaf, 0xd4,
    0xf9, 0xf7, 0x47, 0xa3]

/-- The digest in base64. -/
def acceptKey : List UInt8 := Text.ascii "cai0HFWL7DEHZkyHxdyv1Pn3R6M="

/-- What the functions of `mbedtls_wrapper.c` give for the key `k`. -/
def keyCrypto : Crypto where
  sha1 input := if input = Text.ascii "k" ++ HTTPSession.KEY_BUFFER then some digest else none
  base64Encode src := if src = digest then some acceptKey else none

/-- A session for the pcb 1. -/
def listening : World := .start keyCrypto .byDefault (some 1) false 0 (fun _ => 0) (.filled _ 0)

end Http
