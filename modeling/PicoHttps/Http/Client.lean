/-
**A request and its session.**

The model of `pico_http/http_request.cpp` with the session that the object owns: `send` connects it,
and what the session calls is handled by the request.  The methods of both classes are one program,
which calls lwIP and the `IHttpCallback` of the application, and which both may enter again
meanwhile.  `Http.HTTPRequest` has the fields and the methods that stay within the object.

The session calls the request from `send` and from `connect`, too, while the request waits for
these; but there it only tells of sent bytes and that it is closed.  An object that has deleted
itself is a world like any other: what a method that is still running reads of it is what it has
left there.

Main definitions:

* `Http.Client.Call`, `Http.Client.Event`, `Http.Client.World` — what is called, what is done, and
  the request with its session;
* `Http.Client.send`, `Http.Client.onConnected`, `Http.Client.onRecv`, `Http.Client.destroy` — the
  methods that use the session or the callback object;
* `Http.Client.Entry`, `Http.Client.Entry.run`, `Http.Client.Proper` — the ways in, and the moves of
  the application and of lwIP.
-/

import PicoHttps.Http.Request

set_option relaxedAutoImplicit false
set_option autoImplicit false

namespace Http.Client

/-! ### What the request calls -/

/-- A call that is answered: of the callback object, or of lwIP through the session.  A `fault` is
an access outside of an object, and is not answered. -/
inductive Call
  | onHeaderReceived (header : HTTPHeader) (data : List UInt8)
  | onHttpData (data : List UInt8)
  | onRequestDestroyed
  | lwip (c : Tls.Call)
  | fault
  deriving DecidableEq, Repr

/-- What a call is answered with. -/
abbrev Call.Answer : Call → Type
  | .onHeaderReceived _ _ | .onHttpData _ => Bool
  | .onRequestDestroyed => Unit
  | .lwip c => c.Answer
  | .fault => Empty

/-- What the request does: it is given data, calls the callback object and is answered, and deletes
itself. -/
inductive Event
  | onRecv (data : List UInt8)
  | call (c : Call)
  | answered (c : Call)
  | deleted
  deriving DecidableEq, Repr

/-- A request, whether it has a callback object, its session, and the log of what happened. -/
structure World where
  request : HTTPRequest
  callback : Bool
  tls : Tls.World
  log : List Event

/-- Code of the request. -/
abbrev Prog := Reentrant.Prog World Call Call.Answer

namespace World

/-- Changes the request. -/
def set (f : HTTPRequest → HTTPRequest) (w : World) : World := { w with request := f w.request }

/-- Changes whether there is a callback object. -/
def setCallback (callback : Bool) (w : World) : World := { w with callback := callback }

/-- Puts an event into the log. -/
def emit (e : Event) (w : World) : World := { w with log := w.log ++ [e] }

/-- Changes the session and its surroundings. -/
def setTls (s : Tls.World) (w : World) : World := { w with tls := s }

variable (f : HTTPRequest → HTTPRequest) (b : Bool) (s : Tls.World) (e : Event) (w : World)

@[simp] theorem set_request : (w.set f).request = f w.request := rfl
@[simp] theorem set_callback : (w.set f).callback = w.callback := rfl
@[simp] theorem set_tls : (w.set f).tls = w.tls := rfl
@[simp] theorem set_log : (w.set f).log = w.log := rfl
@[simp] theorem setCallback_request : (w.setCallback b).request = w.request := rfl
@[simp] theorem setCallback_callback : (w.setCallback b).callback = b := rfl
@[simp] theorem setCallback_tls : (w.setCallback b).tls = w.tls := rfl
@[simp] theorem setCallback_log : (w.setCallback b).log = w.log := rfl
@[simp] theorem emit_request : (w.emit e).request = w.request := rfl
@[simp] theorem emit_callback : (w.emit e).callback = w.callback := rfl
@[simp] theorem emit_tls : (w.emit e).tls = w.tls := rfl
@[simp] theorem emit_log : (w.emit e).log = w.log ++ [e] := rfl
@[simp] theorem setTls_request : (w.setTls s).request = w.request := rfl
@[simp] theorem setTls_callback : (w.setTls s).callback = w.callback := rfl
@[simp] theorem setTls_tls : (w.setTls s).tls = s := rfl
@[simp] theorem setTls_log : (w.setTls s).log = w.log := rfl

end World

open Reentrant (Prog.get Prog.modify)

/-- Changes the request. -/
def set (f : HTTPRequest → HTTPRequest) : Prog Unit := Prog.modify (World.set f)

/-- Leaves an event in the log. -/
def emit (e : Event) : Prog Unit := Prog.modify (World.emit e)

/-- Calls the callback object, which the log shows, and so it does when it is answered. -/
def call (c : Call) : Prog c.Answer := do
  emit (.call c)
  let a ← Reentrant.Prog.call c
  emit (.answered c)
  return a

/-- A call of lwIP, which the log of the session shows. -/
def lwip (c : Tls.Call) : Prog c.Answer := Reentrant.Prog.call (Call.lwip c)

section primitives

variable (f : HTTPRequest → HTTPRequest) (e : Event) (w : World)

@[simp] theorem set_apply : set f w = .done () (w.set f) := rfl
@[simp] theorem emit_apply : emit e w = .done () (w.emit e) := rfl

theorem call_apply (c : Call) : call c w = .call c (w.emit (.call c)) fun a w' =>
    .done a (w'.emit (.answered c)) := rfl

end primitives

/-- An access outside of an object, after which nothing is known. -/
def fault {α : Type} : Prog α := do
  nomatch (← Reentrant.Prog.call .fault)

/-- Where the session is in the world. -/
def tlsPart : Reentrant.Part Tls.World World where
  part := World.tls
  put := World.setTls

/-! ### Deletion -/

/-- `Session::~Session`, which closes a session that has a pcb, with nobody to notify. -/
def destroySession : Prog Unit := do
  let s := (← Prog.get).tls
  if s.session.pcb.isSome then
    Prog.modify (World.setTls (s.set fun s => { s with callback := false }))
    let _ ← Reentrant.Prog.link tlsPart lwip Tls.Session.close

/-- `delete this`, with `HTTPRequest::~HTTPRequest`. -/
def destroy : Prog Unit := do
  emit .deleted
  set fun r => { r with body := none }
  if (← Prog.get).callback then
    call .onRequestDestroyed
    Prog.modify (World.setCallback false)
  destroySession

/-- `HTTPRequest::on_closed`. -/
def onClosed : Prog Unit := destroy

/-! ### Sending -/

/-- What becomes of a call that the session makes in `send` and in `connect`: they hand nothing on,
and `on_sent` does nothing. -/
def handleSending : (c : Tls.Call) → Prog c.Answer
  | .onConnected => fault
  | .onRecv _ => fault
  | .onSent _ => return true
  | .onClosed => onClosed
  | .altcpWrite pcb data => lwip (.altcpWrite pcb data)
  | .altcpOutput pcb => lwip (.altcpOutput pcb)
  | .dnsGethostbyname host => lwip (.dnsGethostbyname host)
  | .altcpNew tls => lwip (.altcpNew tls)
  | .altcpConnect pcb ipaddr port => lwip (.altcpConnect pcb ipaddr port)

/-- A method of the session that the request calls. -/
def connection {α : Type} (x : Tls.Prog α) : Prog α := Reentrant.Prog.link tlsPart handleSending x

/-- `HTTPRequest::send`. -/
def send : Prog Bool := do
  let r := (← Prog.get).request
  if r.state = .FAIL then
    return false
  if r.port = 0 then
    return false
  if r.headerIndex ≥ MAX_HEADER_SIZE - 3 then
    return false
  match (⟨r.header, r.headerIndex⟩ : Buffer.Cursor _).putAll [0x0d, 0x0a, 0] with
  | none => fault
  | some c =>
    set fun r => { r with header := c.buffer, headerIndex := c.pos }
    match Text.stringAt c.buffer.bytes 0 with
    | none => fault
    | some host =>
      let err ← connection (Tls.Session.connect host r.port.toNat)
      if err ≠ .ERR_OK then
        return false
      return true

/-- `HTTPRequest::on_connected`. -/
def onConnected : Prog Unit := do
  let r := (← Prog.get).request
  if r.headerIndex < r.headerStart + 1 then
    fault
  else match r.header.slice r.headerStart (r.headerIndex - r.headerStart - 1) with
  | none => fault
  | some header =>
    let _ ← connection (Tls.Session.send (some header))
    match (← Prog.get).request.body with
    | none => return ()
    | some data =>
      if 0 < data.bytes.length then
        let _ ← connection (Tls.Session.send (some data.bytes))

/-! ### Receiving -/

/-- A call of the callback object that may refuse; without one everything is fine. -/
def notify (c : Call) (accepts : c.Answer → Bool) : Prog Bool := do
  if (← Prog.get).callback then
    return accepts (← call c)
  return true

/-- `HTTPRequest::on_recv` in the state `INIT`. -/
def onRecvHeader (data : List UInt8) : Prog Bool := do
  match HTTPHeader.new.parse data with
  | none => fault
  | some (parsed, header, data) =>
    if !parsed then
      return false
    set fun r => { r with state := .HEADER_RECEIVED }
    if !(← notify (.onHeaderReceived header data) id) then
      return false
    -- `len` must not wrap
    if header.getHeaderSize > data.length then
      fault
    else
      let data := data.drop header.getHeaderSize
      if data.length > 0 then
        return ← notify (.onHttpData data) id
      return true

/-- `HTTPRequest::on_recv`. -/
def onRecv (data : List UInt8) : Prog Bool := do
  emit (.onRecv data)
  match (← Prog.get).request.state with
  | .INIT => onRecvHeader data
  | .HEADER_RECEIVED => notify (.onHttpData data) id
  | .WEBSOCKET_ESTABLISHED => return true
  | .FAIL => return false

/-- What becomes of a call of the session. -/
def handle : (c : Tls.Call) → Prog c.Answer
  | .onConnected => onConnected
  | .onRecv data => onRecv data
  | c => handleSending c

/-- A method of the session that lwIP calls. -/
def session {α : Type} (x : Tls.Prog α) : Prog α := Reentrant.Prog.link tlsPart handle x

/-! ### The ways in -/

/-- A method that is entered: by the application, by the resolver, or by lwIP for a pcb. -/
inductive Entry
  | addHeader (header value : CString)
  | setBody (data : Block)
  | setHttpCallback (callback : Bool)
  | send
  | dnsCallback (host : Tls.Host) (ipaddr : Option ℕ)
  | lwipConnected (pcb : ℕ) (err : Tls.Err)
  | lwipRecv (pcb : ℕ) (p : List Tls.Pbuf) (err : Tls.Err)
  | lwipSent (pcb len : ℕ)
  | lwipErr (pcb : ℕ)
  deriving DecidableEq

/-- A method that stays within the object. -/
def within (f : HTTPRequest → Option (Bool × HTTPRequest)) : Prog Result := do
  match f (← Prog.get).request with
  | none => fault
  | some (ok, r) =>
    set fun _ => r
    return .bool ok

/-- The method that is entered. -/
def Entry.run : Entry → Prog Result
  | .addHeader header value => within fun r => r.addHeader header value
  | .setBody data => within fun r => r.setBody data
  | .setHttpCallback callback => do
    Prog.modify (World.setCallback callback)
    return .void
  | .send => do return .bool (← Client.send)
  | .dnsCallback host ipaddr => do
    return .err (← session (Tls.Entry.run (.dnsCallback host ipaddr)))
  | .lwipConnected pcb err => do
    return .err (← session (Tls.Entry.run (.lwipConnected pcb err)))
  | .lwipRecv pcb p err => do return .err (← session (Tls.Entry.run (.lwipRecv pcb p err)))
  | .lwipSent pcb len => do return .err (← session (Tls.Entry.run (.lwipSent pcb len)))
  | .lwipErr pcb => do return .err (← session (Tls.Entry.run (.lwipErr pcb)))

/-- A move at the request. -/
abbrev Move := Reentrant.Move Entry Call Call.Answer

/-- A request that waits for its surroundings. -/
abbrev Config := Reentrant.Config World Entry Call Call.Answer Result

/-- An invocation that has returned. -/
abbrev Record := Reentrant.Record World Entry Call Result

/-- The calls that hand on what has been received, in which the application may enter the request,
as it may at the top level. -/
def Call.isData : Call → Bool
  | .onHeaderReceived _ _ | .onHttpData _ => true
  | _ => false

/-- The calls in which lwIP may report sent bytes or an error. -/
def Call.isOutput : Call → Bool
  | .lwip c => c.isOutput
  | _ => false

/-- The pcb that an answer brings. -/
def Call.newPcb : (c : Call) → c.Answer → Option ℕ
  | .lwip c, a => c.newPcb a
  | _, _ => none

/-- **The moves of the application and of lwIP.**  The application enters the request at the top
level and in the callbacks that are given data, as long as it is there; the resolver answers a
lookup at the top level, and lwIP enters the session for a pcb it has, at the top level and, to
report sent bytes or an error, inside `altcp_write` and `altcp_output`.  A new pcb is none of those
that lwIP has. -/
def Proper (pending : List Call) (w : World) : Move → Prop
  | .enter (.addHeader _ _) => (∀ c ∈ pending, c.isData = true) ∧ .deleted ∉ w.log
  | .enter (.setBody _) => (∀ c ∈ pending, c.isData = true) ∧ .deleted ∉ w.log
  | .enter (.setHttpCallback _) => (∀ c ∈ pending, c.isData = true) ∧ .deleted ∉ w.log
  | .enter .send => (∀ c ∈ pending, c.isData = true) ∧ .deleted ∉ w.log
  | .enter (.dnsCallback host _) => pending = [] ∧ host ∈ w.tls.net.lookups
  | .enter (.lwipConnected pcb _) => pending = [] ∧ pcb ∈ w.tls.net.live
  | .enter (.lwipRecv pcb p _) =>
    pending = [] ∧ pcb ∈ w.tls.net.live ∧ ∀ q ∈ p, q.payload.length < 2 ^ 16
  | .enter (.lwipSent pcb _) => pending.head?.all Call.isOutput ∧ pcb ∈ w.tls.net.live
  | .enter (.lwipErr pcb) => pending.head?.all Call.isOutput ∧ pcb ∈ w.tls.net.live
  | .answer c a => ∀ pcb ∈ c.newPcb a, pcb ∉ w.tls.net.live

instance : ∀ pending w m, Decidable (Proper pending w m)
  | _, _, .enter (.addHeader _ _) => inferInstanceAs (Decidable (_ ∧ _))
  | _, _, .enter (.setBody _) => inferInstanceAs (Decidable (_ ∧ _))
  | _, _, .enter (.setHttpCallback _) => inferInstanceAs (Decidable (_ ∧ _))
  | _, _, .enter .send => inferInstanceAs (Decidable (_ ∧ _))
  | _, _, .enter (.dnsCallback _ _) => inferInstanceAs (Decidable (_ ∧ _))
  | _, _, .enter (.lwipConnected _ _) => inferInstanceAs (Decidable (_ ∧ _))
  | _, _, .enter (.lwipRecv _ _ _) => inferInstanceAs (Decidable (_ ∧ _ ∧ _))
  | _, _, .enter (.lwipSent _ _) => inferInstanceAs (Decidable (_ = true ∧ _))
  | _, _, .enter (.lwipErr _) => inferInstanceAs (Decidable (_ = true ∧ _))
  | _, _, .answer _ _ => inferInstanceAs (Decidable (∀ pcb ∈ Call.newPcb _ _, _))

/-- A request that has been constructed, with its session. -/
def World.start (r : HTTPRequest) (setup : Tls.Setup) (tls callback : Bool) : World where
  request := r
  callback := callback
  tls := .start setup none tls true
  log := []

end Http.Client
