/-
**What the methods of a session come to.**

The methods of `Tls.Session` are written in the order of the source.  Here each is run as far as
its next call: what it does until then, what it waits for, and how it goes on from the answer.  An
invariant of the session is then a walk through these equations, one for each method.

Main definitions:

* `Tls.World.shut` — the world after a close has taken effect;
* `Tls.World.prepare` — the world after a new pcb has been stored and prepared.

Main results:

* `Tls.Session.close_apply`, `Tls.Session.send_apply`, `Tls.Session.writeLoop_succ`,
  `Tls.Session.lwipRecv_apply`, `Tls.Session.recvLoop_cons`, `Tls.Session.lwipSent_apply`,
  `Tls.Session.connectAddress_apply` and the others.
-/

import PicoHttps.Tls.Session

set_option relaxedAutoImplicit false
set_option autoImplicit false

namespace Tls

/-! ### Closing and connecting -/

/-- The world after a close that takes effect, before it is notified. -/
def World.shut (w : World) : World :=
  match w.session.pcb with
  | none => w.set fun s => { s with connected := false, closing := true }
  | some pcb =>
    ((((w.set fun s => { s with connected := false, closing := true }).emit
      (.clearCallbacks pcb)).emit (.altcpAbort pcb)).update (Net.drop pcb)).set
        fun s => { s with pcb := none }

namespace World

variable (w : World)

@[simp] theorem shut_session : w.shut.session =
    { w.session with connected := false, closing := true, pcb := none } := by
  cases hpcb : w.session.pcb <;> simp [shut, hpcb]

@[simp] theorem shut_setup : w.shut.setup = w.setup := by
  cases hpcb : w.session.pcb <;> simp [shut, hpcb]

theorem shut_net : w.shut.net = w.session.pcb.elim w.net fun pcb => w.net.drop pcb := by
  cases hpcb : w.session.pcb <;> simp [shut, hpcb]

theorem shut_log : w.shut.log = w.log ++ w.session.pcb.elim []
    fun pcb => [.clearCallbacks (some pcb), .altcpAbort pcb] := by
  cases hpcb : w.session.pcb <;> simp [shut, hpcb]

end World

/-- The world after a new pcb has been stored and prepared. -/
def World.prepare (tls : Bool) (host : Option Host) (pcb : Option ℕ) (w : World) : World :=
  let w' := (w.set fun s => { s with pcb := pcb }).update fun n =>
    { n with live := n.live ++ pcb.toList }
  ((if tls then host.elim w' fun host => w'.emit (.setHostname pcb host) else w')).emit
    (.setCallbacks pcb)

namespace World

variable (tls : Bool) (host : Option Host) (pcb : Option ℕ) (w : World)

@[simp] theorem prepare_session :
    (w.prepare tls host pcb).session = { w.session with pcb := pcb } := by
  cases tls <;> cases host <;> rfl

@[simp] theorem prepare_net :
    (w.prepare tls host pcb).net = { w.net with live := w.net.live ++ pcb.toList } := by
  cases tls <;> cases host <;> rfl

theorem prepare_log : (w.prepare tls host pcb).log = w.log ++
    ((if tls then host.elim [] fun host => [.setHostname pcb host] else []) ++
      [.setCallbacks pcb]) := by
  cases tls <;> cases host <;> simp [prepare]

end World

/-! ### The methods -/

namespace Session

open Reentrant (Res)
open Reentrant.Prog

section methods

variable (w : World)

theorem onClosed_apply :
    onClosed w = if w.session.callback then .call .onClosed (w.emit (.call .onClosed)) .done
      else .done () w := by
  simp [onClosed]

theorem close_apply :
    close w = if w.session.closing then .done .ERR_OK w
      else if w.session.processing then
        .done (if w.session.pcb.isSome then .ERR_ABRT else .ERR_OK) w.shut
      else (onClosed w.shut).bind fun _ w' =>
        .done (if w.session.pcb.isSome then .ERR_ABRT else .ERR_OK) w' := by
  cases hpcb : w.session.pcb <;> cases hprocessing : w.session.processing <;>
    simp [close, altcpAbort, World.shut, hpcb, hprocessing]

theorem checkSendFailure_apply (err : Err) :
    checkSendFailure err w = if err ≠ .ERR_OK then
        .done err (w.set fun s => { s with processing := false })
      else if w.session.closing || w.session.pcb.isNone then
        (onClosed (w.set fun s => { s with processing := false })).bind fun _ w' =>
          .done .ERR_ABRT w'
      else .done .ERR_OK w := by
  simp [checkSendFailure]

theorem flush_apply :
    flush w = if w.session.closing || w.session.pcb.isNone then .done .ERR_OK w
      else .call (.altcpOutput w.session.pcb) (w.emit (.call (.altcpOutput w.session.pcb)))
        .done := by
  simp [flush]

theorem lwipSent_apply (len : ℕ) :
    lwipSent len w = if w.session.processing then
        .done .ERR_OK (w.set fun s => { s with sentBytes := (s.sentBytes + len) % 2 ^ 16 })
      else if w.session.callback then
        let w' := w.set fun s => { s with sentBytes := 0 }
        let n := (len + w.session.sentBytes) % 2 ^ 16
        .call (.onSent n) (w'.emit (.call (.onSent n))) fun accepted w'' =>
          if accepted = false then close w'' else .done .ERR_OK w''
      else .done .ERR_OK (w.set fun s => { s with sentBytes := 0 }) := by
  simp [lwipSent]

theorem writeLoop_succ (turns : ℕ) {data : List UInt8} (hdata : data ≠ []) :
    ∃ n, 0 < n ∧ n ≤ w.setup.outContentLen ∧ writeLoop (turns + 1) data w =
      .call (.altcpWrite w.session.pcb (data.take n))
        (w.emit (.call (.altcpWrite w.session.pcb (data.take n)))) fun err w' =>
          (checkSendFailure err w').bind fun r w'' =>
            if r ≠ .ERR_OK then .done (some err) w'' else writeLoop turns (data.drop n) w'' := by
  have hpos : 0 < data.length := List.length_pos_iff.2 hdata
  refine ⟨if data.length > w.setup.outContentLen then w.setup.outContentLen else data.length,
    ?_, ?_, ?_⟩
  · split
    · exact w.setup.outContentLen_pos
    · exact hpos
  · split <;> omega
  · simp [writeLoop, hpos]

theorem finishSend_apply :
    finishSend w = (flush w).bind fun err w' => (checkSendFailure err w').bind fun r w'' =>
      if r ≠ .ERR_OK then .done err w''
      else if w''.session.sentBytes > 0 then
        lwipSent 0 (w''.set fun s => { s with processing := false })
      else .done .ERR_OK (w''.set fun s => { s with processing := false }) := by
  simp only [finishSend, bind_apply, get_apply, set_apply, if_apply, pure_apply, Res.bind_done]
  rfl

theorem send_apply (data : List UInt8) :
    send (some data) w = if w.session.pcb.isNone then .done .ERR_OK w
      else (writeLoop data.length data (w.set fun s => { s with processing := true })).bind
        fun r w' => r.elim (finishSend w') fun err => .done err w' := by
  simp only [send, bind_apply, get_apply, set_apply, if_apply, pure_apply, Res.bind_done]
  refine congrArg _ (Res.bind_congr fun r w' => ?_)
  cases r <;> rfl

theorem releaseChain_apply (pcb : ℕ) (p : List Pbuf) :
    releaseChain pcb p w = .done () ((w.emit (.altcpRecved pcb (p.head?.elim 0 Pbuf.totLen))).emit
      (.pbufFree p)) := rfl

theorem recvLoop_cons (pcb : ℕ) (p : List Pbuf) (it : Pbuf) (next : List Pbuf) :
    recvLoop pcb p (it :: next) w =
      .call (.onRecv it.payload) (w.emit (.call (.onRecv it.payload))) fun accepted w' =>
        if w'.session.closing || w'.session.pcb.isNone then
          (onClosed (w'.set fun s => { s with processing := false })).bind fun _ w'' =>
            .done (some .ERR_ABRT) w''
        else if accepted = false then
          (releaseChain pcb p (w'.set fun s => { s with processing := false })).bind fun _ w'' =>
            (close w'').bind fun err w'' => .done (some err) w''
        else if it.totLen = it.payload.length then .done none w'
        else recvLoop pcb p next w' := by
  simp [recvLoop]

theorem lwipRecv_apply (pcb : ℕ) (p : List Pbuf) (err : Err) :
    lwipRecv pcb p err w =
      let w' := if err = .ERR_ABRT then w.set fun s => { s with pcb := none } else w
      if p = [] then close w'
      else if err ≠ .ERR_OK then (close w').bind fun _ w'' => .done .ERR_ABRT w''
      else if w'.session.callback then
        (recvLoop pcb p p (w'.set fun s => { s with processing := true })).bind fun r w'' =>
          r.elim ((releaseChain pcb p (w''.set fun s => { s with processing := false })).bind
            fun _ w'' => .done .ERR_OK w'') fun err => .done err w''
      else (releaseChain pcb p w').bind fun _ w'' => .done .ERR_OK w'' := by
  cases err with
  | ERR_OK =>
      simp only [lwipRecv, bind_apply, get_apply, set_apply, if_apply, pure_apply,
        Res.bind_done, reduceCtorEq, if_false, ne_eq, not_true_eq_false]
      refine if_congr Iff.rfl rfl (if_congr Iff.rfl (Res.bind_congr fun r w'' => ?_) rfl)
      cases r <;> rfl
  | _ => simp [lwipRecv]

theorem connectAddress_apply (host : Option Host) (ipaddr port : ℕ) :
    connectAddress host ipaddr port w =
      if w.session.tls && !w.setup.tlsClientConfig then close w
      else .call (.altcpNew w.session.tls) (w.emit (.call (.altcpNew w.session.tls)))
        fun pcb w' =>
          .call (.altcpConnect pcb ipaddr port)
            ((w'.prepare w.session.tls host pcb).emit (.call (.altcpConnect pcb ipaddr port)))
              fun err w'' => if err ≠ .ERR_OK then close w'' else .done .ERR_OK w'' := by
  have hname (tls : Bool) (pcb : Option ℕ) (w' : World) :
      setHostname tls host pcb w' = .done ()
        (if tls then host.elim w' fun host => w'.emit (.setHostname pcb host) else w') := by
    cases tls <;> cases host <;> rfl
  simp [connectAddress, World.prepare, hname]

theorem connect_apply (host : Host) (port : ℕ) :
    connect host port w =
      let w' := w.set fun s =>
        { s with closing := false, connected := false, sentBytes := 0, port := port }
      .call (.dnsGethostbyname host) (w'.emit (.call (.dnsGethostbyname host))) fun found w'' =>
        if found.1 = .ERR_OK then connectAddress (some host) found.2 port w''
        else if found.1 = .ERR_INPROGRESS then
          .done found.1 (w''.update fun n => { n with lookups := n.lookups ++ [host] })
        else .done found.1 w'' := by
  simp [connect]

theorem lwipConnected_apply (err : Err) :
    lwipConnected err w = if err ≠ .ERR_OK then close w
      else
        let w' := w.set fun s => { s with connected := true }
        if w.session.callback then
          .call .onConnected (w'.emit (.call .onConnected)) fun _ w'' => .done .ERR_OK w''
        else .done .ERR_OK w' := by
  simp only [lwipConnected, bind_apply, get_apply, set_apply, if_apply, pure_apply, call_apply,
    Res.bind_done, Res.bind_call]
  rfl

end methods

end Session

/-! ### The ways in -/

/-- The world while lwIP waits for a callback. -/
def World.callBack (cb : Callback) (w : World) : World :=
  w.update fun n => { n with calling := cb :: n.calling }

/-- The world after a callback of lwIP has returned. -/
def World.returned (w : World) : World := w.update fun n => { n with calling := n.calling.tail }

theorem fromLwip_apply (cb : Callback) (x : Prog Err) (w : World) :
    fromLwip cb x w = (x (w.callBack cb)).bind fun r w' => .done r w'.returned := by
  simp [fromLwip, World.callBack, World.returned]

theorem Entry.run_lwipRecv (pcb : ℕ) (p : List Pbuf) (err : Err) (w : World) :
    Entry.run (.lwipRecv pcb p err) w = fromLwip .recv (Session.lwipRecv pcb p err)
      (if err = .ERR_ABRT then w.update (Net.drop pcb) else w) := by
  rcases eq_or_ne err .ERR_ABRT with rfl | herr
  · simp [Entry.run]
  · simp [Entry.run, herr]

theorem Session.lwipErr_apply (w : World) :
    lwipErr w = (close ((w.emit (.clearCallbacks w.session.pcb)).set fun s =>
      { s with pcb := none })).bind fun _ w' => .done .ERR_OK w' := by
  simp [lwipErr]

theorem Entry.run_lwipErr (pcb : ℕ) (w : World) :
    Entry.run (.lwipErr pcb) w = fromLwip .err Session.lwipErr (w.update (Net.drop pcb)) := by
  simp [Entry.run]

theorem Entry.run_connect (host : Host) (port : ℕ) (w : World) :
    Entry.run (.connect host port) w = Session.connect host port
      (w.update fun n => { n with connects := n.connects + 1 }) := by
  simp [Entry.run]

theorem Entry.run_connectAddress (host : Option Host) (ipaddr port : ℕ) (w : World) :
    Entry.run (.connectAddress host ipaddr port) w = Session.connectAddress host ipaddr port
      (w.update fun n => { n with connects := n.connects + 1 }) := by
  simp [Entry.run]

/-- The world after the resolver has come to the end of a lookup. -/
def World.resolved (host : Host) (ipaddr : Option ℕ) (w : World) : World :=
  w.update fun n =>
    { n with lookups := n.lookups.erase host, failed := n.failed || ipaddr.isNone }

theorem Entry.run_dnsCallback_none (host : Host) (w : World) :
    Entry.run (.dnsCallback host none) w = (Session.onClosed (w.resolved host none)).bind
      fun _ w' => .done .ERR_OK w' := by
  simp [Entry.run, Session.dnsCallback, World.resolved]

theorem Entry.run_dnsCallback_some (host : Host) (ipaddr : ℕ) (w : World) :
    Entry.run (.dnsCallback host (some ipaddr)) w =
      (Session.connectAddress (some host) ipaddr w.session.port
        (w.resolved host (some ipaddr))).bind fun _ w' => .done .ERR_OK w' := by
  simp [Entry.run, Session.dnsCallback, World.resolved]

end Tls
