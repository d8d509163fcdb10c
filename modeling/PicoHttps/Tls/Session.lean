/-
**The TLS session.**

The model of `pico_tls/session.cpp`: a `Session` between an application, which it calls through an
`ISessionCallback`, and lwIP, whose `altcp` functions it calls and whose pcb callbacks it is.  Both
may enter the session again while it waits for a call of theirs, so its methods are programs of
`Reentrant.Prog` over a `World`: the session, what lwIP knows of it, and the log of what happened.

A pcb is a number and `none` is a null pointer.  A function that neither answers nor enters the
session again only leaves an event in the log.  `m_sentBytes` and the lengths of lwIP are `u16_t`,
with their wrap-around written out.

Main definitions:

* `Tls.Call`, `Tls.Event` — what the session calls, and what it does;
* `Tls.Session`, `Tls.World` — the fields of the session, and its surroundings;
* `Tls.Session.send`, `Tls.Session.close`, `Tls.Session.lwipRecv` and the other methods;
* `Tls.Entry`, `Tls.Entry.run` — the ways in, with what lwIP does on its own part of them;
* `Tls.Proper` — the moves of an application and of lwIP.
-/

import PicoHttps.Basics.Reentrant
import Mathlib.Algebra.Group.Nat.Defs

set_option relaxedAutoImplicit false
set_option autoImplicit false

namespace Tls

/-- The values of `err_t`. -/
inductive Err
  | ERR_OK
  | ERR_MEM
  | ERR_BUF
  | ERR_TIMEOUT
  | ERR_RTE
  | ERR_INPROGRESS
  | ERR_VAL
  | ERR_WOULDBLOCK
  | ERR_USE
  | ERR_ALREADY
  | ERR_ISCONN
  | ERR_CONN
  | ERR_IF
  | ERR_ABRT
  | ERR_RST
  | ERR_CLSD
  | ERR_ARG
  deriving DecidableEq, Repr

/-- A segment of a `struct pbuf` chain; `len` is the length of the payload. -/
structure Pbuf where
  payload : List UInt8
  totLen : ℕ
  deriving DecidableEq, Repr

/-- The name of a host, a C string. -/
abbrev Host := List UInt8

/-! ### What the session calls -/

/-- A call that is answered: of the callback object, which may enter the session before it answers,
or of lwIP. -/
inductive Call
  | onConnected
  | onRecv (data : List UInt8)
  | onSent (len : ℕ)
  | onClosed
  | altcpWrite (pcb : Option ℕ) (data : List UInt8)
  | altcpOutput (pcb : Option ℕ)
  | dnsGethostbyname (host : Host)
  | altcpNew (tls : Bool)
  | altcpConnect (pcb : Option ℕ) (ipaddr port : ℕ)
  deriving DecidableEq, Repr

/-- What a call is answered with; `dns_gethostbyname` also stores an address. -/
abbrev Call.Answer : Call → Type
  | .onConnected => Unit
  | .onRecv _ => Bool
  | .onSent _ => Bool
  | .onClosed => Unit
  | .altcpWrite _ _ => Err
  | .altcpOutput _ => Err
  | .dnsGethostbyname _ => Err × ℕ
  | .altcpNew _ => Option ℕ
  | .altcpConnect _ _ _ => Err

/-- What the session does. -/
inductive Event
  | call (c : Call)
  | setCallbacks (pcb : Option ℕ)
  | clearCallbacks (pcb : Option ℕ)
  | setHostname (pcb : Option ℕ) (host : Host)
  | altcpAbort (pcb : ℕ)
  | altcpRecved (pcb len : ℕ)
  | pbufFree (p : List Pbuf)
  deriving DecidableEq, Repr

/-! ### The session and its surroundings -/

/-- The fields of `class Session`; `callback` tells whether there is a callback object. -/
structure Session where
  connected : Bool
  closing : Bool
  processing : Bool
  tls : Bool
  sentBytes : ℕ
  port : ℕ
  callback : Bool
  pcb : Option ℕ
  deriving DecidableEq, Repr

/-- What is fixed at build time and before the first session: `MBEDTLS_SSL_OUT_CONTENT_LEN`, and
whether `TLS_CLIENT_CONFIG` has been created. -/
structure Setup where
  outContentLen : ℕ
  tlsClientConfig : Bool
  outContentLen_pos : 0 < outContentLen

/-- The output buffer that mbedTLS has by default, with a configuration for clients. -/
def Setup.byDefault : Setup := ⟨16384, true, by decide⟩

/-- A pcb callback of the session. -/
inductive Callback
  | connected
  | recv
  | sent
  | err
  deriving DecidableEq, Repr

/-- What lwIP knows of the session: the pcbs it has, the callbacks of theirs that have not
returned, the lookups it has not answered, and whether one of them has failed; and how often
`connect` has been called. -/
structure Net where
  live : List ℕ
  calling : List Callback
  lookups : List Host
  failed : Bool
  connects : ℕ
  deriving DecidableEq, Repr

/-- lwIP has the pcb no more. -/
def Net.drop (pcb : ℕ) (n : Net) : Net := { n with live := n.live.filter (· ≠ pcb) }

/-- A session, its surroundings and the log of what it has done. -/
structure World where
  setup : Setup
  session : Session
  net : Net
  log : List Event

/-- Code of the session. -/
abbrev Prog := Reentrant.Prog World Call Call.Answer

namespace World

/-- Changes the session. -/
def set (f : Session → Session) (w : World) : World := { w with session := f w.session }

/-- Puts an event into the log. -/
def emit (e : Event) (w : World) : World := { w with log := w.log ++ [e] }

/-- Changes what lwIP knows. -/
def update (f : Net → Net) (w : World) : World := { w with net := f w.net }

variable (f : Session → Session) (g : Net → Net) (e : Event) (w : World)

@[simp] theorem set_setup : (w.set f).setup = w.setup := rfl
@[simp] theorem set_session : (w.set f).session = f w.session := rfl
@[simp] theorem set_net : (w.set f).net = w.net := rfl
@[simp] theorem set_log : (w.set f).log = w.log := rfl
@[simp] theorem emit_setup : (w.emit e).setup = w.setup := rfl
@[simp] theorem emit_session : (w.emit e).session = w.session := rfl
@[simp] theorem emit_net : (w.emit e).net = w.net := rfl
@[simp] theorem emit_log : (w.emit e).log = w.log ++ [e] := rfl
@[simp] theorem update_setup : (w.update g).setup = w.setup := rfl
@[simp] theorem update_session : (w.update g).session = w.session := rfl
@[simp] theorem update_net : (w.update g).net = g w.net := rfl
@[simp] theorem update_log : (w.update g).log = w.log := rfl

end World

open Reentrant (Prog.get Prog.modify)

/-- Changes the session. -/
def set (f : Session → Session) : Prog Unit := Prog.modify (World.set f)

/-- Leaves an event in the log. -/
def emit (e : Event) : Prog Unit := Prog.modify (World.emit e)

/-- Changes what lwIP knows. -/
def update (f : Net → Net) : Prog Unit := Prog.modify (World.update f)

/-- Makes a call, which the log shows. -/
def call (c : Call) : Prog c.Answer := do
  emit (.call c)
  Reentrant.Prog.call c

section primitives

variable (f : Session → Session) (g : Net → Net) (e : Event) (c : Call) (w : World)

@[simp] theorem set_apply : set f w = .done () (w.set f) := rfl
@[simp] theorem emit_apply : emit e w = .done () (w.emit e) := rfl
@[simp] theorem update_apply : update g w = .done () (w.update g) := rfl
@[simp] theorem call_apply : call c w = .call c (w.emit (.call c)) .done := rfl

end primitives

/-! ### The methods of `class Session` -/

namespace Session

/-- A new session, `Session::Session`, with its callback object. -/
def new (arg : Option ℕ) (tls callback : Bool) : Session where
  connected := arg.isSome
  closing := false
  processing := false
  tls := tls
  sentBytes := 0
  port := 0
  callback := callback
  pcb := arg

/-- `m_callback->on_closed()`, when there is a callback object. -/
def onClosed : Prog Unit := do
  if (← Prog.get).session.callback then
    call .onClosed

/-- `altcp_abort`, after which lwIP has the pcb no more. -/
def altcpAbort (pcb : ℕ) : Prog Unit := do
  emit (.altcpAbort pcb)
  update (Net.drop pcb)

/-- `Session::close`. -/
def close : Prog Err := do
  let self := (← Prog.get).session
  if self.closing then
    return .ERR_OK
  set fun s => { s with connected := false, closing := true }
  match self.pcb with
  | none =>
    if !self.processing then
      onClosed
    return .ERR_OK
  | some pcb =>
    emit (.clearCallbacks pcb)
    altcpAbort pcb
    set fun s => { s with pcb := none }
    if !self.processing then
      onClosed
    return .ERR_ABRT

/-- `Session::check_send_failure`. -/
def checkSendFailure (err : Err) : Prog Err := do
  if err ≠ .ERR_OK then
    set fun s => { s with processing := false }
    return err
  let self := (← Prog.get).session
  if self.closing || self.pcb.isNone then
    set fun s => { s with processing := false }
    onClosed
    return .ERR_ABRT
  return .ERR_OK

/-- `Session::flush`. -/
def flush : Prog Err := do
  let self := (← Prog.get).session
  if self.closing || self.pcb.isNone then
    return .ERR_OK
  call (.altcpOutput self.pcb)

/-- `Session::lwip_sent`, on a session. -/
def lwipSent (len : ℕ) : Prog Err := do
  let self := (← Prog.get).session
  if self.processing then
    set fun s => { s with sentBytes := (s.sentBytes + len) % 2 ^ 16 }
    return .ERR_OK
  let len := (len + self.sentBytes) % 2 ^ 16
  set fun s => { s with sentBytes := 0 }
  if self.callback then
    if !(← call (.onSent len)) then
      return ← close
  return .ERR_OK

/-- The loop of `send`, with `turns` turns left: the value that `send` returns out of it, if any.
Every turn sends a byte at least, so there are enough turns for the bytes. -/
def writeLoop : ℕ → List UInt8 → Prog (Option Err)
  | 0, _ => return none
  | turns + 1, data => do
    if data.length > 0 then
      let w ← Prog.get
      let bytesToSend :=
        if data.length > w.setup.outContentLen then w.setup.outContentLen else data.length
      let err ← call (.altcpWrite w.session.pcb (data.take bytesToSend))
      if (← checkSendFailure err) ≠ .ERR_OK then
        return some err
      writeLoop turns (data.drop bytesToSend)
    else return none

/-- The end of `send`, after its loop. -/
def finishSend : Prog Err := do
  let err ← flush
  if (← checkSendFailure err) ≠ .ERR_OK then
    return err
  set fun s => { s with processing := false }
  if (← Prog.get).session.sentBytes > 0 then
    return ← lwipSent 0
  return .ERR_OK

/-- `Session::send`; `none` is a null pointer. -/
def send (data : Option (List UInt8)) : Prog Err := do
  match data with
  | none => return .ERR_VAL
  | some data =>
    if (← Prog.get).session.pcb.isNone then
      return .ERR_OK
    -- prevent partial write notifications back to the caller
    set fun s => { s with processing := true }
    match ← writeLoop data.length data with
    | some err => return err
    | none => finishSend

/-- `altcp_recved(pcb, p->tot_len)` and `pbuf_free(p)`. -/
def releaseChain (pcb : ℕ) (p : List Pbuf) : Prog Unit := do
  emit (.altcpRecved pcb (p.head?.elim 0 Pbuf.totLen))
  emit (.pbufFree p)

/-- The loop over the segments in `lwip_recv`, and what it returns out of it, if anything; `p` is
the whole chain. -/
def recvLoop (pcb : ℕ) (p : List Pbuf) : List Pbuf → Prog (Option Err)
  | [] => return none
  | it :: next => do
    let recvStatus ← call (.onRecv it.payload)
    let self := (← Prog.get).session
    if self.closing || self.pcb.isNone then
      set fun s => { s with processing := false }
      onClosed
      return some .ERR_ABRT
    if !recvStatus then
      set fun s => { s with processing := false }
      releaseChain pcb p
      return some (← close)
    if it.totLen = it.payload.length then
      return none
    recvLoop pcb p next

/-- `Session::lwip_recv`, on a session; the empty chain is a null pointer. -/
def lwipRecv (pcb : ℕ) (p : List Pbuf) (err : Err) : Prog Err := do
  if err = .ERR_ABRT then
    set fun s => { s with pcb := none }
  if p = [] then
    return ← close
  if err ≠ .ERR_OK then
    let _ ← close
    return .ERR_ABRT
  if (← Prog.get).session.callback then
    set fun s => { s with processing := true }
    match ← recvLoop pcb p p with
    | some err => return err
    | none => set fun s => { s with processing := false }
  releaseChain pcb p
  return .ERR_OK

/-- `Session::lwip_err`, on a session; it returns nothing. -/
def lwipErr : Prog Err := do
  emit (.clearCallbacks (← Prog.get).session.pcb)
  set fun s => { s with pcb := none }
  let _ ← close
  return .ERR_OK

/-- `mbedtls_ssl_set_hostname`, for a TLS session with a host. -/
def setHostname (tls : Bool) (host : Option Host) (pcb : Option ℕ) : Prog Unit := do
  if tls then
    match host with
    | none => pure ()
    | some host => emit (.setHostname pcb host)

/-- `Session::connect` to an address. -/
def connectAddress (host : Option Host) (ipaddr port : ℕ) : Prog Err := do
  let w ← Prog.get
  if w.session.tls && !w.setup.tlsClientConfig then
    return ← close
  let pcb ← call (.altcpNew w.session.tls)
  set fun s => { s with pcb := pcb }
  update fun n => { n with live := n.live ++ pcb.toList }
  setHostname w.session.tls host pcb
  emit (.setCallbacks pcb)
  let err ← call (.altcpConnect pcb ipaddr port)
  if err ≠ .ERR_OK then
    return ← close
  return .ERR_OK

/-- `Session::connect` to a host. -/
def connect (host : Host) (port : ℕ) : Prog Err := do
  set fun s => { s with closing := false, connected := false, sentBytes := 0, port := port }
  let (err, targetIp) ← call (.dnsGethostbyname host)
  if err = .ERR_OK then
    return ← connectAddress (some host) targetIp port
  if err = .ERR_INPROGRESS then
    update fun n => { n with lookups := n.lookups ++ [host] }
  return err

/-- `Session::dns_callback`, on a session; it returns nothing. -/
def dnsCallback (host : Host) (ipaddr : Option ℕ) : Prog Err := do
  match ipaddr with
  | none =>
    onClosed
    return .ERR_OK
  | some ipaddr =>
    let _ ← connectAddress (some host) ipaddr (← Prog.get).session.port
    return .ERR_OK

/-- `Session::lwip_connected`, on a session. -/
def lwipConnected (err : Err) : Prog Err := do
  if err ≠ .ERR_OK then
    return ← close
  set fun s => { s with connected := true }
  if (← Prog.get).session.callback then
    call .onConnected
  return .ERR_OK

/-- `Session::is_connected`. -/
def isConnected (s : Session) : Bool := s.pcb.isSome && !s.closing && s.connected

end Session

/-! ### The ways in -/

/-- A method that is entered: by the application, by the resolver, or by lwIP for a pcb. -/
inductive Entry
  | send (data : Option (List UInt8))
  | close
  | connect (host : Host) (port : ℕ)
  | connectAddress (host : Option Host) (ipaddr port : ℕ)
  | dnsCallback (host : Host) (ipaddr : Option ℕ)
  | lwipConnected (pcb : ℕ) (err : Err)
  | lwipRecv (pcb : ℕ) (p : List Pbuf) (err : Err)
  | lwipSent (pcb len : ℕ)
  | lwipErr (pcb : ℕ)
  deriving DecidableEq, Repr

/-- lwIP calls a callback, and waits for it to return. -/
def fromLwip (cb : Callback) (x : Prog Err) : Prog Err := do
  update fun n => { n with calling := cb :: n.calling }
  let r ← x
  update fun n => { n with calling := n.calling.tail }
  return r

/-- The method, after what the side that enters it has done: a lookup is over, or the pcb is gone,
as it is when an error is reported and when data comes with `ERR_ABRT`. -/
def Entry.run : Entry → Prog Err
  | .send data => Session.send data
  | .close => Session.close
  | .connect host port => do
    update fun n => { n with connects := n.connects + 1 }
    Session.connect host port
  | .connectAddress host ipaddr port => do
    update fun n => { n with connects := n.connects + 1 }
    Session.connectAddress host ipaddr port
  | .dnsCallback host ipaddr => do
    update fun n => { n with
      lookups := n.lookups.erase host, failed := n.failed || ipaddr.isNone }
    Session.dnsCallback host ipaddr
  | .lwipConnected _ err => fromLwip .connected (Session.lwipConnected err)
  | .lwipRecv pcb p err => do
    if err = .ERR_ABRT then
      update (Net.drop pcb)
    fromLwip .recv (Session.lwipRecv pcb p err)
  | .lwipSent _ len => fromLwip .sent (Session.lwipSent len)
  | .lwipErr pcb => do
    update (Net.drop pcb)
    fromLwip .err Session.lwipErr

/-- A move at the session. -/
abbrev Move := Reentrant.Move Entry Call Call.Answer

/-- The application connects the session. -/
def Move.connects : Move → Bool
  | .enter (.connect _ _) | .enter (.connectAddress _ _ _) => true
  | _ => false

/-- The application connects the session, or the resolver answers it. -/
def Move.opens : Move → Bool
  | .enter (.dnsCallback _ _) => true
  | m => m.connects

/-- The application closes the session, or has it closed by its answer. -/
def Move.closes : Move → Bool
  | .enter .close => true
  | .answer (.onSent _) accepted => !accepted
  | _ => false

/-- lwIP takes the bytes it was given. -/
def Move.writes : Move → Bool
  | .answer (.altcpWrite _ _) err => err = .ERR_OK
  | .answer (.altcpOutput _) err => err = .ERR_OK
  | _ => false

/-- The pcb for which lwIP calls a callback other than `lwip_err`. -/
def Move.callsBack : Move → Option ℕ
  | .enter (.lwipConnected pcb _) => some pcb
  | .enter (.lwipRecv pcb _ _) => some pcb
  | .enter (.lwipSent pcb _) => some pcb
  | _ => none

/-- lwIP reports an error. -/
def Move.reportsError : Move → Bool
  | .enter (.lwipErr _) => true
  | _ => false

/-- A call is answered. -/
def Move.isAnswer : Move → Bool
  | .answer _ _ => true
  | .enter _ => false

/-- lwIP brings a chain together with an error. -/
def Move.failsChain : Move → Bool
  | .enter (.lwipRecv _ p err) => p ≠ [] && err ≠ .ERR_OK
  | _ => false

/-- The application answers `on_recv`. -/
def Move.answersRecv : Move → Bool
  | .answer (.onRecv _) _ => true
  | _ => false

/-- A session that waits for its surroundings. -/
abbrev Config := Reentrant.Config World Entry Call Call.Answer Err

/-- An invocation that has returned. -/
abbrev Record := Reentrant.Record World Entry Call Err

/-- The application may call the session at the top level and from inside its callbacks. -/
def Call.isCallback : Call → Bool
  | .onConnected | .onRecv _ | .onSent _ | .onClosed => true
  | _ => false

/-- The calls in which lwIP may report sent bytes or an error. -/
def Call.isOutput : Call → Bool
  | .altcpWrite _ _ | .altcpOutput _ => true
  | _ => false

/-- A call of `on_recv`. -/
def Call.isRecv : Call → Bool
  | .onRecv _ => true
  | _ => false

/-- The pcb that an answer brings. -/
def Call.newPcb : (c : Call) → c.Answer → Option ℕ
  | .altcpNew _, pcb => pcb
  | _, _ => none

/-- **The moves of an application and of lwIP.**  The application enters the session at the top
level and inside its callbacks; lwIP enters it for a pcb it has, at the top level and, to report
sent bytes or an error, inside `altcp_write` and `altcp_output`; the resolver answers a lookup at
the top level.  A new pcb is none of those that lwIP has. -/
def Proper (pending : List Call) (w : World) : Move → Prop
  | .enter (.send _) => pending.head?.all Call.isCallback
  | .enter .close => pending.head?.all Call.isCallback
  | .enter (.connect _ _) => pending.head?.all Call.isCallback
  | .enter (.connectAddress _ _ _) => pending.head?.all Call.isCallback
  | .enter (.dnsCallback host _) => pending = [] ∧ host ∈ w.net.lookups
  | .enter (.lwipConnected pcb _) => pending = [] ∧ pcb ∈ w.net.live
  | .enter (.lwipRecv pcb _ _) => pending = [] ∧ pcb ∈ w.net.live
  | .enter (.lwipSent pcb _) => pending.head?.all Call.isOutput ∧ pcb ∈ w.net.live
  | .enter (.lwipErr pcb) => pending.head?.all Call.isOutput ∧ pcb ∈ w.net.live
  | .answer c a => ∀ pcb ∈ c.newPcb a, pcb ∉ w.net.live

instance : ∀ pending w m, Decidable (Proper pending w m)
  | _, _, .enter (.send _) => inferInstanceAs (Decidable (_ = true))
  | _, _, .enter .close => inferInstanceAs (Decidable (_ = true))
  | _, _, .enter (.connect _ _) => inferInstanceAs (Decidable (_ = true))
  | _, _, .enter (.connectAddress _ _ _) => inferInstanceAs (Decidable (_ = true))
  | _, _, .enter (.dnsCallback _ _) => inferInstanceAs (Decidable (_ ∧ _))
  | _, _, .enter (.lwipConnected _ _) => inferInstanceAs (Decidable (_ ∧ _))
  | _, _, .enter (.lwipRecv _ _ _) => inferInstanceAs (Decidable (_ ∧ _))
  | _, _, .enter (.lwipSent _ _) => inferInstanceAs (Decidable (_ = true ∧ _))
  | _, _, .enter (.lwipErr _) => inferInstanceAs (Decidable (_ = true ∧ _))
  | _, _, .answer _ _ => inferInstanceAs (Decidable (∀ pcb ∈ Call.newPcb _ _, _))

/-- A session that has been constructed: accepted with a pcb that lwIP has, or without one. -/
def World.start (setup : Setup) (arg : Option ℕ) (tls callback : Bool) : World where
  setup := setup
  session := .new arg tls callback
  net := ⟨arg.toList, [], [], false, 0⟩
  log := if arg.isSome then [.setCallbacks arg] else []

end Tls
