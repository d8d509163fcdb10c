/-
**How a session delivers.**

An invariant of a whole HTTP session speaks of what it has delivered, and most of its code delivers
nothing: what the application calls and what lwIP calls, but for `lwip_recv`, only sends and closes.
This module goes through that code once, for every invariant that such steps keep
(`Http.Delivery.Steady`), and through the loop of `decodeData`, which delivers the payloads of
frames; an invariant is left with what `on_recv` does with a header and with data.

While a call waits nobody enters `lwip_recv`, so the data that is left, and where the decoder is in
it, are found again as they were.

Main definitions:

* `Http.Delivery.Ready` — where a handler can be between two callbacks;
* `Http.Delivery.Steady` — what an invariant has to be;
* `Http.Delivery.contract` — the contract of an invariant, with what every method relies on;
* `Http.Delivery.Quiet` — the loop of `decodeData` calls the application no more.

Main results:

* `Http.Delivery.spec_run` — the methods that only send and close keep the contract;
* `Http.Delivery.spec_decodeLoop` — **so does the loop of `decodeData`**, and it returns;
* `Http.Delivery.Steady.run` — **an invariant that `on_recv` keeps holds in every run.**
-/

import PicoHttps.Http.Parse
import PicoHttps.Http.Session
import PicoHttps.Tls.Serving
import PicoHttps.WebSocket.Decode

set_option relaxedAutoImplicit false
set_option autoImplicit false

namespace Http

open Reentrant (Res)
open Reentrant.Prog
open WebSocket (WebSocketHandler readHead)

/-! ### What the methods come to -/

section primitives

variable (f : HTTPSession → HTTPSession) (data : List UInt8) (e : Event) (c : Call) (w : World)

@[simp] theorem set_apply : set f w = .done () (w.set f) := rfl
@[simp] theorem emit_apply : emit e w = .done () (w.emit e) := rfl
@[simp] theorem setData_apply : setData data w = .done () (w.setData data) := rfl

theorem call_apply : call c w = .call c (w.emit (.call c)) fun a w' =>
    .done a (w'.emit (.answered c)) := rfl

end primitives

/-- The bytes that the branch `WAIT_DATA` hands over. -/
def World.payload (w : World) : List UInt8 :=
  let h := w.http.websocketHandler
  WebSocketHandler.unmask h.mask h.maskingKey h.webSocketDataLen h.webSocketDataIndex w.data

/-- The world after the index has moved over them. -/
def World.advance (w : World) : World :=
  w.set fun s => { s with websocketHandler := { w.http.websocketHandler with
    webSocketDataIndex := w.http.websocketHandler.webSocketDataIndex + w.payload.length } }

/-- The world after the end of a packet. -/
def World.finish (w : World) : World :=
  w.set fun s => { s with websocketHandler := { w.http.websocketHandler with
    state := .WAIT_PACKET } }

namespace HTTPSession

variable (w : World)

theorem waitPacket_apply :
    waitPacket w = match w.http.websocketHandler.waitPacket w.data with
      | none => fault w
      | some (h, none) => .done (some true) (w.set fun s => { s with websocketHandler := h })
      | some (h, some data) =>
        .done none ((w.set fun s => { s with websocketHandler := h }).setData data) := by
  rw [waitPacket, bind_apply, get_apply, Res.bind_done]
  rcases w.http.websocketHandler.waitPacket w.data with _ | ⟨h, _ | data⟩ <;> rfl

theorem waitData_apply :
    waitData w =
      if WebSocketHandler.carriesData w.http.websocketHandler.webSocketOperation then
        .call (.onWebSocketData w.payload) (w.advance.emit (.call (.onWebSocketData w.payload)))
          fun accepted w' =>
            let w' := w'.emit (.answered (.onWebSocketData w.payload))
            if accepted = false then .done (some false) w'
            else
              let w' := w'.setData (w'.data.drop w.payload.length)
              if w'.http.websocketHandler.webSocketDataIndex =
                  w'.http.websocketHandler.webSocketDataLen then
                .call .onFinishedPacket (w'.finish.emit (.call .onFinishedPacket))
                  fun accepted w' =>
                    .done (if accepted = false then some false else none)
                      (w'.emit (.answered .onFinishedPacket))
              else .done none w'
      else .done (some false) w := by
  simp only [waitData, bind_apply, get_apply, set_apply, setData_apply, if_apply, pure_apply,
    call_apply, Res.bind_done, Res.bind_call]
  refine if_congr Iff.rfl ?_ rfl
  congr 1
  funext accepted w'
  cases accepted with
  | false => rfl
  | true =>
      simp only [Bool.not_true, Bool.false_eq_true, if_false, Bool.true_eq_false]
      refine if_congr Iff.rfl ?_ rfl
      congr 1
      funext accepted w'
      cases accepted <;> rfl

theorem decodeLoop_succ (turns : ℕ) :
    decodeLoop (turns + 1) w =
      if w.data.length > 0 then
        (match w.http.websocketHandler.state with
          | .WAIT_PACKET => waitPacket w
          | .WAIT_DATA => waitData w).bind fun r w' =>
            r.elim (decodeLoop turns w') fun r => .done r w'
      else .done true w := by
  simp only [decodeLoop, bind_apply, get_apply, if_apply, pure_apply, Res.bind_done]
  refine if_congr Iff.rfl ?_ rfl
  cases w.http.websocketHandler.state with
  | WAIT_PACKET =>
      refine Res.bind_congr fun r w' => ?_
      cases r <;> rfl
  | WAIT_DATA =>
      refine Res.bind_congr fun r w' => ?_
      cases r <;> rfl

theorem onRecvHeader_apply :
    onRecvHeader w = match w.http.header.parse w.data with
      | none => fault w
      | some (parsed, header, data) =>
        let w' := (w.set fun s => { s with header := header }).setData data
        if parsed = false then .done false w'
        else
          .call (.onRequestReceived header data)
            ((w'.set fun s => { s with state := .HEADER_RECEIVED }).emit
              (.call (.onRequestReceived header data))) fun accepted w' =>
              let w' := w'.emit (.answered (.onRequestReceived header data))
              if accepted = false then .done false w'
              else
                let data := w'.data.drop w'.http.header.getHeaderSize
                let w' := w'.setData data
                if data.length > 0 then call (.onHttpData data) w' else .done true w' := by
  rw [onRecvHeader, bind_apply, get_apply, Res.bind_done]
  rcases w.http.header.parse w.data with _ | ⟨parsed, header, data⟩
  · rfl
  · cases parsed with
    | false => rfl
    | true =>
        simp only [bind_apply, set_apply, setData_apply, if_apply, call_apply, Res.bind_done,
          Res.bind_call, Bool.not_true, Bool.false_eq_true, Bool.true_eq_false, if_false]
        congr 1
        funext accepted w'
        cases accepted with
        | false => rfl
        | true =>
            simp only [Bool.not_true, Bool.false_eq_true, Bool.true_eq_false, if_false, get_apply,
              Res.bind_done]
            rfl

theorem onRecv_apply (data : List UInt8) :
    onRecv data w =
      let w' := (w.emit (.onRecv data)).setData data
      match w.http.state with
      | .INIT => onRecvHeader w'
      | .HEADER_RECEIVED => call (.onHttpData data) w'
      | .WEBSOCKET_ESTABLISHED => decodeData w'
      | .FAIL => .done false w' := by
  rw [onRecv, bind_apply, emit_apply, Res.bind_done, bind_apply, setData_apply, Res.bind_done,
    bind_apply, get_apply, Res.bind_done]
  dsimp only [World.setData_http, World.emit_http]
  cases w.http.state <;> rfl

open Tls.Reopening (Sane) in
/-- An object that deletes itself closes its TLS session, which notifies nobody. -/
theorem destroy_apply {w : World} (h : Sane w.tls) :
    destroy w =
      if w.tls.session.pcb.isSome then
        .done () ((w.emit .deleted).setTls (w.tls.set fun s => { s with callback := false }).shut)
      else .done () (w.emit .deleted) := by
  simp only [destroy, bind_apply, emit_apply, get_apply, if_apply, modify_apply, pure_apply,
    Res.bind_done]
  by_cases hpcb : w.tls.session.pcb.isSome = true
  · have hopen : w.tls.session.closing = false := by
      refine Bool.eq_false_iff.2 fun hclosing => ?_
      rw [h.closed hclosing] at hpcb
      cases hpcb
    have hclose : ∃ err, Tls.Session.close (w.tls.set fun s => { s with callback := false }) =
        .done err (w.tls.set fun s => { s with callback := false }).shut := by
      rw [Tls.Session.close_apply]
      simp only [Tls.World.set_session, hopen, Bool.false_eq_true, if_false,
        Tls.Session.onClosed_apply, Tls.World.shut_session, Res.bind_done]
      split <;> exact ⟨_, rfl⟩
    obtain ⟨err, hclose⟩ := hclose
    refine (if_pos hpcb).trans ?_
    rw [if_pos hpcb]
    simp only [Reentrant.Prog.link, tlsPart, World.setTls_tls, World.emit_tls, hclose,
      Res.link_done, Res.bind_done]
    rfl
  · rw [if_neg hpcb]
    exact if_neg hpcb

end HTTPSession

/-! ### The contract of an invariant -/

namespace Delivery

open Tls (Serving.Kept Serving.Serves Serving.Served)
open Tls.Reopening (Sane)

/-- What an invariant speaks of. -/
structure View where
  state : HTTPSessionState
  closing : Bool
  log : List Event

/-- What an invariant sees of a world. -/
def view (w : World) : View := ⟨w.http.state, w.tls.session.closing, w.log⟩

/-- One more event. -/
def View.emit (e : Event) (v : View) : View := { v with log := v.log ++ [e] }

/-- An invariant, for the calls that wait. -/
abbrev Invariant := List Call → View → Prop

/-- Where a handler can be between two callbacks: in a head whose bytes are in the buffer, or in a
payload, at its end at most. -/
def Ready (h : WebSocketHandler) : Prop :=
  match h.state with
  | .WAIT_PACKET => ∃ received, WebSocket.Rel h (.header received)
  | .WAIT_DATA => h.bufferIndex = 0 ∧ h.webSocketDataIndex ≤ h.webSocketDataLen

/-- What nobody changes while a call waits: the data that is left, and where the decoder is. -/
structure Same (w w' : World) : Prop where
  data : w'.data = w.data
  handler : w'.http.websocketHandler = w.http.websocketHandler
  header : w'.http.header = w.http.header

/-- What holds whenever the environment is to move. -/
structure Good (I : Invariant) (pending : List Call) (w : World) : Prop where
  sane : Sane w.tls
  ready : Ready w.http.websocketHandler
  sound : Call.fault ∉ pending
  inv : I pending (view w)

/-- The contract of the invariant `I`. -/
def contract (ok : List Call → World → Move → Prop) (I : Invariant) :
    Reentrant.Contract World Entry Call Call.Answer where
  ok := ok
  good := Good I
  rely pending w w' := pending ≠ [] → Same w w'

/-- The events of code that neither delivers nor closes, and accepts no WebSocket. -/
def neutral : Event → Bool
  | .call c | .answered c => !c.isData
  | .acceptWebSocket accepted => !accepted
  | .deleted => true
  | _ => false

/-- **What an invariant has to be** for code that delivers nothing to keep it: it does not depend
on the calls that deliver nothing, and it survives a TLS session that closes, a WebSocket that is
accepted, and a close. -/
structure Steady (ok : List Call → World → Move → Prop) (I : Invariant) : Prop where
  proper : ∀ {pending w m}, ok pending w m → Proper pending w m
  closing : ∀ {below v}, I below v → I below { v with closing := true }
  pass : ∀ {c : Call} {below v}, c.isData = false → (I (c :: below) v ↔ I below v)
  emit : ∀ {e : Event} {below v}, neutral e = true → I below v → I below (v.emit e)
  accepted : ∀ {below v}, I below v →
    I below (View.emit (.acceptWebSocket true) { v with state := .WEBSOCKET_ESTABLISHED })
  close : ∀ {below v}, I below v → v.closing = true →
    I below (View.emit .close { v with state := .FAIL })

theorem Same.refl (w : World) : Same w w := ⟨rfl, rfl, rfl⟩

theorem Same.trans {w w' w'' : World} (h : Same w w') (h' : Same w' w'') : Same w w'' :=
  ⟨h'.data.trans h.data, h'.handler.trans h.handler, h'.header.trans h.header⟩

theorem Ready.fresh (op : WebSocket.WebSocketOperation) (key : Fin 4 → UInt8)
    (buffer : Buffer WebSocket.MAX_WEBSOCKET_HEADER) : Ready (.fresh op key buffer) :=
  ⟨[], WebSocket.rel_fresh op key buffer⟩

section steady

variable {ok : List Call → World → Move → Prop} {I : Invariant} {below : List Call}
  {w₀ w w' : World}

/-- Code that begins in the state `w₀` keeps the contract, and what waits below finds its data
again. -/
structure Keeps (I : Invariant) (below : List Call) (w₀ w : World) : Prop where
  good : Good I below w
  same : below ≠ [] → Same w₀ w

/-- The contract is kept by code that runs while the calls `below` wait. -/
abbrev Spec (ok : List Call → World → Move → Prop) (I : Invariant) (below : List Call) {α : Type}
    (post : α → World → Prop) : Res World Call Call.Answer α → Prop :=
  (contract ok I).Spec below post

/-- A step that changes nothing that is delivered or decoded. -/
theorem Keeps.step (h : Keeps I below w₀ w) (hsame : Same w w') (hsane : Sane w'.tls)
    (hinv : I below (view w')) : Keeps I below w₀ w' where
  good := ⟨hsane, by rw [hsame.handler]; exact h.good.ready, h.good.sound, hinv⟩
  same := fun hne => (h.same hne).trans hsame

variable (hI : Steady ok I)
include hI

/-- A TLS session that has stayed closed, if it was. -/
theorem Steady.setTls {s : Tls.World} (h : I below (view w))
    (hs : w.tls.session.closing = true → s.session.closing = true) :
    I below (view (w.setTls s)) := by
  have hview : view (w.setTls s) = { view w with closing := s.session.closing } := rfl
  rw [hview]
  cases hclosing : s.session.closing with
  | true => exact hI.closing h
  | false =>
      have hopen : w.tls.session.closing = false :=
        Bool.eq_false_iff.2 fun hw => absurd (hs hw) (by rw [hclosing]; exact Bool.false_ne_true)
      rw [← hopen]
      exact h

theorem Keeps.emit {e : Event} (h : Keeps I below w₀ w) (he : neutral e = true) :
    Keeps I below w₀ (w.emit e) :=
  h.step ⟨rfl, rfl, rfl⟩ h.good.sane (hI.emit he h.good.inv)

theorem Keeps.setTls {s : Tls.World} (h : Keeps I below w₀ w) (hs : Serving.Kept w.tls s) :
    Keeps I below w₀ (w.setTls s) :=
  h.step ⟨rfl, rfl, rfl⟩ hs.sane (hI.setTls h.good.inv hs.closing)

/-- A call that delivers nothing. -/
theorem spec_pass {α : Type} {post : α → World → Prop} {c : Call}
    {k : c.Answer → World → Res World Call Call.Answer α} (hc : c.isData = false)
    (hfault : c ≠ .fault) (h : Keeps I below w₀ w)
    (hk : ∀ a w', Keeps I below w₀ w' → Spec ok I below post (k a w')) :
    Spec ok I below post (.call c w k) := by
  have hsound : Call.fault ∉ c :: below := by
    rw [List.mem_cons, not_or]
    exact ⟨Ne.symm hfault, h.good.sound⟩
  refine ⟨⟨h.good.sane, h.good.ready, hsound, (hI.pass hc).2 h.good.inv⟩, ?_⟩
  intro a w' hgood hrely _
  have hsame : Same w w' := hrely (List.cons_ne_nil _ _)
  exact hk a w' (h.step hsame hgood.sane ((hI.pass hc).1 hgood.inv))

omit hI in
/-- A call that delivers data. -/
theorem spec_deliver {α : Type} {post : α → World → Prop} {c : Call}
    {k : c.Answer → World → Res World Call Call.Answer α} (hc : c.isData = true)
    (hsane : Sane w.tls) (hready : Ready w.http.websocketHandler)
    (hcall : I [c] (view (w.emit (.call c))))
    (hk : ∀ a w', Same w w' → Good I [c] w' → ok [c] w' (.answer c a) →
      Spec ok I [] post (k a w')) :
    Spec ok I [] post (.call c (w.emit (.call c)) k) := by
  have hsound : Call.fault ∉ [c] := by
    rw [List.mem_singleton]
    rintro rfl
    cases hc
  refine ⟨⟨hsane, hready, hsound, hcall⟩, ?_⟩
  intro a w' hgood hrely hok
  have hsame : Same (w.emit (.call c)) w' := hrely (List.cons_ne_nil _ _)
  exact hk a w' ⟨hsame.data, hsame.handler, hsame.header⟩ hgood hok

/-! #### What the TLS session calls -/

theorem spec_destroy (h : Keeps I below w₀ w) :
    Spec ok I below (fun _ w' => Keeps I below w₀ w') (HTTPSession.destroy w) := by
  have hdeleted : Keeps I below w₀ (w.emit .deleted) := h.emit hI rfl
  rw [HTTPSession.destroy_apply h.good.sane]
  split
  · exact hdeleted.setTls hI (.shut ⟨h.good.sane.live, h.good.sane.closed⟩)
  · exact hdeleted

/-- What the TLS session calls, if that is not `on_recv`, or if `on_recv` keeps the contract. -/
theorem spec_handle {recv : Bool} {c : Tls.Call} {s : Tls.World} (h : Keeps I below w₀ w)
    (hs : Serving.Kept w.tls s) (hc : Serving.Served recv s c)
    (hrecv : ∀ data w, recv = true → Good I below w → w.tls.session.closing = false →
      data.length < 2 ^ 16 →
        Spec ok I below (fun _ w' => Keeps I below w₀ w') (HTTPSession.onRecv data w)) :
    Spec ok I below (fun _ w' => Keeps I below w₀ w' ∧ Sane w'.tls)
      (HTTPSession.handle c (w.setTls s)) := by
  have hset : Keeps I below w₀ (w.setTls s) := h.setTls hI hs
  refine Reentrant.Contract.Spec.mono ?_ fun _ w' (h' : Keeps I below w₀ w') => ⟨h', h'.good.sane⟩
  cases c with
  | onRecv data => exact hrecv data _ hc.1 hset.good hc.2.1 hc.2.2
  | onSent len =>
      refine spec_pass hI rfl nofun (hset.emit hI rfl) fun _ _ h' => ?_
      exact h'.emit hI rfl
  | onClosed => exact spec_destroy hI hset
  | altcpWrite | altcpOutput => exact spec_pass hI rfl nofun hset fun _ _ h' => h'
  | onConnected | dnsGethostbyname | altcpNew | altcpConnect => exact hc.elim

/-- A method of the TLS session. -/
theorem spec_session {recv : Bool} {α : Type} {x : Tls.Prog α} (h : Keeps I below w₀ w)
    (hx : Serving.Serves recv w.tls (x w.tls))
    (hrecv : ∀ data w, recv = true → Good I below w → w.tls.session.closing = false →
      data.length < 2 ^ 16 →
        Spec ok I below (fun _ w' => Keeps I below w₀ w') (HTTPSession.onRecv data w)) :
    Spec ok I below (fun _ w' => Keeps I below w₀ w') (HTTPSession.session x w) := by
  refine (Res.Serves.link (L := tlsPart) ?_ hx h).mono ?_
  · exact fun c w s hw hc => spec_handle hI hw hc.1 hc.2 hrecv
  · rintro a w' ⟨w₁, s, hw₁, hs, rfl⟩
    exact hw₁.setTls hI hs

/-! #### What the application calls -/

theorem spec_send {data : List UInt8} (h : Keeps I below w₀ w) :
    Spec ok I below (fun _ w' => Keeps I below w₀ w')
      (HTTPSession.session (Tls.Session.send (some data)) w) := by
  have hserves : Serving.Serves false w.tls (Tls.Session.send (some data) w.tls) :=
    Tls.Serving.serves_send (.refl h.good.sane)
  exact spec_session hI h hserves fun _ _ hrecv => absurd hrecv Bool.false_ne_true

theorem spec_onWebsocketEncodedData {data : List UInt8} (h : Keeps I below w₀ w) :
    Spec ok I below (fun _ w' => Keeps I below w₀ w')
      (HTTPSession.onWebsocketEncodedData data w) :=
  (spec_send hI h).bind fun _ _ h' => h'

theorem spec_sendWebSocketData {body : List UInt8} (h : Keeps I below w₀ w) :
    Spec ok I below (fun _ w' => Keeps I below w₀ w') (HTTPSession.sendWebSocketData body w) := by
  refine (spec_onWebsocketEncodedData hI h).bind fun sent w' h' => ?_
  cases sent with
  | false => exact h'
  | true => exact spec_onWebsocketEncodedData hI h'

theorem spec_sendHttpReply {extraHeaders : List UInt8} {body : Option (List UInt8)} {bodyLen : ℤ}
    (h : Keeps I below w₀ w) :
    Spec ok I below (fun _ w' => Keeps I below w₀ w')
      (HTTPSession.sendHttpReply extraHeaders body bodyLen w) := by
  simp only [HTTPSession.sendHttpReply, if_apply]
  split
  · exact h
  · refine (spec_send hI h).bind fun err w' h' => ?_
    simp only [if_apply]
    split
    · exact h'
    · cases body with
      | none => exact h'
      | some body =>
          refine (spec_send hI h').bind fun err w'' h'' => ?_
          simp only [if_apply]
          split <;> exact h''

/-- Whether a WebSocket has been accepted is told when the method returns. -/
theorem spec_acceptWebSocket {header : HTTPHeader} {data : List UInt8}
    (hkey : (header.getHeaderValue data HTTPSession.keyName).isSome) (h : Keeps I below w₀ w) :
    Spec ok I below (fun accepted w' => Keeps I below w₀ (w'.emit (.acceptWebSocket accepted)))
      (HTTPSession.acceptWebSocket header data w) := by
  have hrefused : ∀ w', Keeps I below w₀ w' → Keeps I below w₀ (w'.emit (.acceptWebSocket false)) :=
    fun _ h' => h'.emit hI rfl
  obtain ⟨value, hvalue⟩ := Option.isSome_iff_exists.1 hkey
  simp only [HTTPSession.acceptWebSocket, hvalue]
  cases value with
  | none => exact hrefused w h
  | some key =>
      simp only [if_apply, bind_apply, get_apply, Res.bind_done]
      split
      · exact hrefused w h
      · cases w.crypto.sha1 (key ++ HTTPSession.KEY_BUFFER) with
        | none => exact hrefused w h
        | some sha1sum =>
            dsimp only
            cases w.crypto.base64Encode sha1sum with
            | none => exact hrefused w h
            | some buffer =>
                simp only [if_apply]
                split
                · exact hrefused w h
                · refine (spec_send hI h).bind fun err w' h' => ?_
                  simp only [if_apply]
                  split
                  · exact hrefused w' h'
                  · exact h'.step ⟨rfl, rfl, rfl⟩ h'.good.sane (hI.accepted h'.good.inv)

/-- The TLS session closes itself, and notifies the HTTP session or leaves that to a caller. -/
theorem spec_close (h : Keeps I below w₀ w) :
    Spec ok I below (fun _ w' => Keeps I below w₀ w') (HTTPSession.close w) := by
  -- the state when the TLS session is closed and `m_state` is `FAIL`
  have hclosed : ∀ s, Serving.Kept w.tls s → s.session.closing = true →
      Keeps I below w₀ (((w.emit .close).set fun s => { s with state := .FAIL }).setTls s) := by
    intro s hs hclosing
    exact (h.setTls hI hs).step ⟨rfl, rfl, rfl⟩ hs.sane
      (hI.close (hI.setTls h.good.inv hs.closing) hclosing)
  have hshut : Serving.Kept w.tls w.tls.shut := .shut h.good.sane
  have hshutting : w.tls.shut.session.closing = true := by rw [Tls.World.shut_session]
  have hlink : Spec ok I below (fun _ w' => Keeps I below w₀ w')
      ((Tls.Session.close w.tls).link tlsPart HTTPSession.handle
        ((w.emit .close).set fun s => { s with state := .FAIL })) := by
    rw [Tls.Session.close_apply]
    split
    · rename_i hclosing
      exact hclosed _ (.refl h.good.sane) hclosing
    · split
      · exact hclosed _ hshut hshutting
      · rw [Tls.Session.onClosed_apply]
        split
        · refine (spec_destroy hI (hclosed _ hshut.emit hshutting)).bind fun _ w' h' => ?_
          exact h'.setTls hI (.refl h'.good.sane)
        · exact hclosed _ hshut hshutting
  simp only [HTTPSession.close, bind_apply, emit_apply, set_apply, Res.bind_done]
  exact hlink.bind fun _ _ h' => h'

/-! #### The ways in -/

/-- **The methods that only send and close keep the contract**, and so does `lwip_recv` when
`on_recv` does. -/
theorem spec_run {e : Entry} (h : Good I below w) (hok : ok below w (.enter e))
    (hrecv : ∀ data w, below = [] → Good I [] w → w.tls.session.closing = false →
      data.length < 2 ^ 16 →
        Spec ok I [] (fun _ w' => Good I [] w') (HTTPSession.onRecv data w)) :
    Spec ok I below (fun _ w' => Keeps I below w w') (e.run w) := by
  have hself : Keeps I below w w := ⟨h, fun _ => .refl w⟩
  have hproper := hI.proper hok
  cases e with
  | sendHttpReply extraHeaders body bodyLen =>
      exact (spec_sendHttpReply hI hself).bind fun _ _ h' => h'
  | sendWebSocketData body => exact (spec_sendWebSocketData hI hself).bind fun _ _ h' => h'
  | acceptWebSocket header data =>
      exact (spec_acceptWebSocket hI hproper.2 hself).bind fun _ _ h' => h'
  | close => exact (spec_close hI hself).bind fun _ _ h' => h'
  | lwipRecv pcb p err =>
      obtain ⟨rfl, hpcb, hshort⟩ := hproper
      have hserves : Serving.Serves true w.tls (Tls.Entry.run (.lwipRecv pcb p err) w.tls) :=
        Tls.Serving.serves_run_lwipRecv h.sane hpcb hshort
      refine (spec_session hI hself hserves fun data w' _ hgood hopen hlen => ?_).bind
        fun _ _ h' => h'
      refine (hrecv data w' rfl hgood hopen hlen).mono fun _ w'' h'' => ?_
      exact ⟨h'', fun hne => absurd rfl hne⟩
  | lwipSent pcb len =>
      have hserves : Serving.Serves false w.tls (Tls.Entry.run (.lwipSent pcb len) w.tls) :=
        Tls.Serving.serves_run_lwipSent h.sane
      exact Reentrant.Contract.Spec.bind (spec_session hI hself hserves fun _ _ hrecv =>
        absurd hrecv Bool.false_ne_true) fun _ _ h' => h'
  | lwipErr pcb =>
      have hserves : Serving.Serves false w.tls (Tls.Entry.run (.lwipErr pcb) w.tls) :=
        Tls.Serving.serves_run_lwipErr h.sane hproper.2
      exact Reentrant.Contract.Spec.bind (spec_session hI hself hserves fun _ _ hrecv =>
        absurd hrecv Bool.false_ne_true) fun _ _ h' => h'

end steady

/-! ### The loop of `decodeData` -/

/-- The bytes do not reach into the payload of a frame that carries data, nor past its head when it
is empty. -/
def Spent (data : List UInt8) : Prop :=
  match readHead data with
  | none => True
  | some (hd, rest) => rest = [] ∨ hd.isData = false

instance (data : List UInt8) : Decidable (Spent data) :=
  match h : readHead data with
  | none => .isTrue (by simp only [Spent, h])
  | some (hd, rest) => decidable_of_iff (rest = [] ∨ hd.isData = false) (by simp only [Spent, h])

/-- **The answer `true` to a call that delivers data leads to no other one**: there is no data after
the header, the frame is not at its end, or the next one does not begin its payload. -/
def Rests : Call → World → Prop
  | .onRequestReceived header data, _ => data.length ≤ header.getHeaderSize
  | .onWebSocketData _, w =>
    w.http.websocketHandler.webSocketDataIndex ≠ w.http.websocketHandler.webSocketDataLen
  | .onFinishedPacket, w => Spent w.data
  | _, _ => True

instance : ∀ c w, Decidable (Rests c w)
  | .onRequestReceived _ _, _ => inferInstanceAs (Decidable (_ ≤ _))
  | .onWebSocketData _, _ => inferInstanceAs (Decidable (_ ≠ _))
  | .onFinishedPacket, w => inferInstanceAs (Decidable (Spent w.data))
  | .onHttpData _, _ | .onSent _, _ | .lwip _, _ | .fault, _ => inferInstanceAs (Decidable True)

/-- The calls that deliver a frame. -/
def isFrame : Call → Bool
  | .onWebSocketData _ | .onFinishedPacket => true
  | _ => false

/-- **What an invariant has to be** for the loop of `decodeData` to keep it; the loop may call the
application after a log that is `may`. -/
structure Decodes (ok : List Call → World → Move → Prop) (I : Invariant)
    (may : List Event → Prop) : Prop where
  frame : ∀ {c : Call} {v : View}, isFrame c = true → I [] v → may v.log → I [c] (v.emit (.call c))
  framed : ∀ {c : Call} {v : View}, isFrame c = true → I [c] v → I [] (v.emit (.answered c))
  onWebSocketData : ∀ {data w}, I [.onWebSocketData data] (view w) →
    ok [.onWebSocketData data] w (.answer (.onWebSocketData data) true) →
      may (w.emit (.answered (.onWebSocketData data))).log ∨ Rests (.onWebSocketData data) w
  onFinishedPacket : ∀ {w}, I [.onFinishedPacket] (view w) →
    ok [.onFinishedPacket] w (.answer .onFinishedPacket true) →
      may (w.emit (.answered .onFinishedPacket)).log ∨ Rests .onFinishedPacket w

/-- **What an invariant has to be** for `on_recv` to keep it: for a chunk that is refused, a chunk
with a message at its front, the data after the message, and a chunk of data or of frames. -/
structure Receives (ok : List Call → World → Move → Prop) (I : Invariant)
    (may : List Event → Prop) : Prop extends Decodes ok I may where
  refused : ∀ {data v}, I [] v → v.closing = false →
    (v.state = .FAIL ∨ v.state = .INIT ∧ readMessage data = none) → I [] (v.emit (.onRecv data))
  request : ∀ {data v m header mem}, I [] v → v.closing = false → v.state = .INIT →
    readMessage data = some m → header.getHeaderSize = m.size →
      mem.drop m.size = data.drop m.size → header.Holds mem m →
        I [.onRequestReceived header mem] (View.emit (.call (.onRequestReceived header mem))
          { v.emit (.onRecv data) with state := .HEADER_RECEIVED })
  requested : ∀ {header data accepted w}, I [.onRequestReceived header data] (view w) →
    ok [.onRequestReceived header data] w (.answer (.onRequestReceived header data) accepted) →
      (accepted = true → data.drop header.getHeaderSize = []) →
        I [] (view (w.emit (.answered (.onRequestReceived header data))))
  rest : ∀ {header data w}, I [.onRequestReceived header data] (view w) →
    ok [.onRequestReceived header data] w (.answer (.onRequestReceived header data) true) →
      data.drop header.getHeaderSize ≠ [] →
        I [.onHttpData (data.drop header.getHeaderSize)]
          (view ((w.emit (.answered (.onRequestReceived header data))).emit
            (.call (.onHttpData (data.drop header.getHeaderSize)))))
  received : ∀ {data v}, I [] v → v.closing = false → v.state = .HEADER_RECEIVED →
    I [.onHttpData data] ((v.emit (.onRecv data)).emit (.call (.onHttpData data)))
  answered : ∀ {data v}, I [.onHttpData data] v → I [] (v.emit (.answered (.onHttpData data)))
  decode : ∀ {data v}, I [] v → v.closing = false → v.state = .WEBSOCKET_ESTABLISHED →
    I [] ((v.emit (.onRecv data)).emit (.decodeData data)) ∧
      may ((v.emit (.onRecv data)).emit (.decodeData data)).log

/-- **The loop of `decodeData` calls the application no more.** -/
def Quiet (w : World) : Prop :=
  w.data = [] ∨
    match w.http.websocketHandler.state with
    | .WAIT_PACKET => WebSocket.Rel w.http.websocketHandler (.header []) ∧ Spent w.data
    | .WAIT_DATA => WebSocketHandler.carriesData w.http.websocketHandler.webSocketOperation = false

/-- The turns of the loop that are left at most, but one: a frame without a payload takes no byte
when it ends. -/
def turns (w : World) : ℕ :=
  2 * w.data.length + match w.http.websocketHandler.state with
    | .WAIT_PACKET => 0
    | .WAIT_DATA => 1

/-- The bytes that the loop over a payload goes over. -/
theorem length_unmask (mask : Bool) (key : Fin 4 → UInt8) (len : ℕ) (data : List UInt8) :
    ∀ i, (WebSocketHandler.unmask mask key len i data).length = min data.length (len - i) := by
  induction data with
  | nil =>
      intro i
      simp [WebSocketHandler.unmask]
  | cons b data ih =>
      intro i
      rw [WebSocketHandler.unmask]
      split
      · rw [List.length_cons, ih, List.length_cons]
        omega
      · rw [List.length_nil]
        omega

section decode

variable {ok : List Call → World → Move → Prop} {I : Invariant} {may : List Event → Prop}
  {w : World}

/-- What a turn of the loop leaves: the value that is returned, or a shorter way to go. -/
structure Turned (I : Invariant) (may : List Event → Prop) (n : ℕ) (r : Option Bool) (w : World) :
    Prop where
  good : Good I [] w
  goes : r = none → (may w.log ∨ Quiet w) ∧ turns w < n

theorem spec_waitPacket (h : Good I [] w) (hmay : may w.log ∨ Quiet w) (hdata : w.data ≠ [])
    (hstate : w.http.websocketHandler.state = .WAIT_PACKET) :
    Spec ok I [] (Turned I may (turns w)) (HTTPSession.waitPacket w) := by
  have hready := h.ready
  simp only [Ready, hstate] at hready
  obtain ⟨received, hrel⟩ := hready
  rw [HTTPSession.waitPacket_apply]
  cases hread : readHead (received ++ w.data) with
  | none =>
      obtain ⟨h', hwait, hrel'⟩ := WebSocket.waitPacket_none hrel hread
      rw [hwait]
      have hstate' : h'.state = .WAIT_PACKET := by
        cases hrel'
        assumption
      refine ⟨⟨h.sane, ?_, h.sound, h.inv⟩, nofun⟩
      simp only [Ready, World.set_http, hstate']
      exact ⟨_, hrel'⟩
  | some r =>
      obtain ⟨hd, rest⟩ := r
      obtain ⟨h', hwait, hrel'⟩ := WebSocket.waitPacket_some hrel hread
      rw [hwait]
      have hhead : readHead received = none := by
        cases hrel
        assumption
      have hlt := (WebSocket.bytes_header received hhead hread).2.1
      cases hrel' with
      | payload hstate' hindex hop hkey hlen hi hle =>
          refine ⟨⟨h.sane, ?_, h.sound, h.inv⟩, fun _ => ⟨?_, ?_⟩⟩
          · simp only [Ready, World.setData_http, World.set_http, hstate']
            exact ⟨hindex, by omega⟩
          · refine hmay.imp id fun hquiet => ?_
            have hquiet := hquiet.resolve_left hdata
            simp only [hstate] at hquiet
            -- the buffer is empty, so the head is at the front of the data
            obtain rfl : received = [] := by
              obtain ⟨hempty, -⟩ := hquiet
              cases hempty with
              | header _ hindex₀ =>
                  cases hrel with
                  | header _ hindex₁ =>
                      exact List.eq_nil_of_length_eq_zero (hindex₁.symm.trans hindex₀)
            have hspent := hquiet.2
            rw [List.nil_append] at hread
            simp only [Spent, hread] at hspent
            rcases hspent with hrest | hcontrol
            · exact .inl hrest
            · refine .inr ?_
              simp only [World.setData_http, World.set_http, hstate', hop]
              rw [WebSocket.carriesData_eq, hcontrol]
          · simp only [turns, World.setData_data, World.setData_http, World.set_http, hstate',
              hstate]
            omega

theorem length_payload (w : World) : w.payload.length = min w.data.length
    (w.http.websocketHandler.webSocketDataLen - w.http.websocketHandler.webSocketDataIndex) :=
  length_unmask _ _ _ _ _

theorem Good.advance (h : Good I [] w) (hstate : w.http.websocketHandler.state = .WAIT_DATA) :
    Good I [] w.advance := by
  have hready := h.ready
  simp only [Ready, hstate] at hready
  have hlen := length_payload w
  refine ⟨h.sane, ?_, h.sound, h.inv⟩
  simp only [Ready, World.advance, World.set_http, hstate]
  exact ⟨hready.1, by omega⟩

variable (hD : Decodes ok I may)
include hD

/-- A frame is delivered, or is at its end. -/
theorem spec_frame {α : Type} {post : α → World → Prop} {c : Call}
    {k : c.Answer → World → Res World Call Call.Answer α} (hframe : isFrame c = true)
    (h : Good I [] w) (hmay : may w.log)
    (hk : ∀ a w', Same w w' → Good I [] (w'.emit (.answered c)) → I [c] (view w') →
      ok [c] w' (.answer c a) → Spec ok I [] post (k a w')) :
    Spec ok I [] post (.call c (w.emit (.call c)) k) := by
  have hdata : c.isData = true := by
    cases c <;> first | rfl | cases hframe
  refine spec_deliver hdata h.sane h.ready (hD.frame hframe h.inv hmay)
    fun a w' hsame hgood hok => ?_
  refine hk a w' hsame ?_ hgood.inv hok
  exact ⟨hgood.sane, hgood.ready, List.not_mem_nil, hD.framed hframe hgood.inv⟩

/-- The end of a frame: the next one begins with an empty buffer. -/
theorem spec_finish {n : ℕ} (h : Good I [] w) (hmay : may w.log)
    (hbuffer : w.http.websocketHandler.bufferIndex = 0) (hn : 2 * w.data.length < n) :
    Spec ok I [] (Turned I may n)
      (.call .onFinishedPacket (w.finish.emit (.call .onFinishedPacket)) fun accepted w' =>
        .done (if accepted = false then some false else none)
          (w'.emit (.answered .onFinishedPacket))) := by
  have hrel : WebSocket.Rel { w.http.websocketHandler with state := .WAIT_PACKET } (.header []) :=
    .header rfl hbuffer w.http.websocketHandler.buffer.holds_nil rfl
  have hfinish : Good I [] w.finish := ⟨h.sane, ⟨[], hrel⟩, h.sound, h.inv⟩
  refine spec_frame hD rfl hfinish hmay fun accepted w' hsame hgood hinv hok => ?_
  cases accepted with
  | false => exact ⟨hgood, nofun⟩
  | true =>
      refine ⟨hgood, fun _ => ⟨?_, ?_⟩⟩
      · refine (hD.onFinishedPacket hinv hok).imp id fun hspent => .inr ?_
        simp only [World.emit_http, hsame.handler]
        exact ⟨hrel, hspent⟩
      · have hdata : w'.data = w.data := hsame.data
        have hwait : w'.http.websocketHandler.state = .WAIT_PACKET := by
          rw [hsame.handler]
          rfl
        simp only [turns, World.emit_data, World.emit_http, hwait, hdata]
        exact hn

/-- Data of a frame that the application has taken. -/
theorem spec_taken {w' : World} (h : Good I [] w) (hdata : w.data ≠ [])
    (hstate : w.http.websocketHandler.state = .WAIT_DATA) (hsame : Same w.advance w')
    (hgood : Good I [] (w'.emit (.answered (.onWebSocketData w.payload))))
    (hinv : I [.onWebSocketData w.payload] (view w'))
    (hok : ok [.onWebSocketData w.payload] w' (.answer (.onWebSocketData w.payload) true)) :
    Spec ok I [] (Turned I may (turns w))
      (let w' := w'.emit (.answered (.onWebSocketData w.payload))
        let w' := w'.setData (w'.data.drop w.payload.length)
        if w'.http.websocketHandler.webSocketDataIndex =
            w'.http.websocketHandler.webSocketDataLen then
          .call .onFinishedPacket (w'.finish.emit (.call .onFinishedPacket))
            fun accepted w' =>
              .done (if accepted = false then some false else none)
                (w'.emit (.answered .onFinishedPacket))
        else .done none w') := by
  have hready := h.ready
  simp only [Ready, hstate] at hready
  have hpos := List.length_pos_of_ne_nil hdata
  have hlen := length_payload w
  have hdata' : w'.data = w.data := hsame.data
  dsimp only
  split
  · rename_i hend
    have hmay' := (hD.onWebSocketData hinv hok).resolve_right fun hrests => hrests hend
    refine spec_finish hD ⟨hgood.sane, hgood.ready, hgood.sound, hgood.inv⟩ hmay' ?_ ?_
    · simp only [World.setData_http, World.emit_http, hsame.handler]
      exact hready.1
    · simp only [turns, World.setData_data, World.emit_data, hdata', hstate, List.length_drop]
      omega
  · rename_i hnot
    have hindex : w'.http.websocketHandler.webSocketDataIndex =
        w.http.websocketHandler.webSocketDataIndex + w.payload.length := by
      rw [hsame.handler]
      rfl
    have hlen' : w'.http.websocketHandler.webSocketDataLen =
        w.http.websocketHandler.webSocketDataLen := by
      rw [hsame.handler]
      rfl
    have hstate' : w'.http.websocketHandler.state = .WAIT_DATA := by
      rw [hsame.handler]
      exact hstate
    simp only [World.setData_http, World.emit_http, hindex, hlen'] at hnot
    -- the frame goes on, so all the data has been handed over
    have hdrop : w'.data.drop w.payload.length = [] := by
      rw [hdata']
      exact List.drop_eq_nil_of_le (by omega)
    refine ⟨⟨hgood.sane, hgood.ready, hgood.sound, hgood.inv⟩, fun _ => ⟨.inr (.inl hdrop), ?_⟩⟩
    simp only [turns, World.setData_data, World.setData_http, World.emit_data, World.emit_http,
      hdrop, hstate', hstate, List.length_nil]
    omega

theorem spec_waitData (h : Good I [] w) (hmay : may w.log ∨ Quiet w) (hdata : w.data ≠ [])
    (hstate : w.http.websocketHandler.state = .WAIT_DATA) :
    Spec ok I [] (Turned I may (turns w)) (HTTPSession.waitData w) := by
  rw [HTTPSession.waitData_apply]
  split
  · rename_i hcarries
    have hmay : may w.log := by
      refine hmay.resolve_right fun hquiet => ?_
      have hquiet := hquiet.resolve_left hdata
      simp only [hstate, hcarries] at hquiet
      cases hquiet
    refine spec_frame hD rfl (h.advance hstate) hmay fun accepted w' hsame hgood hinv hok => ?_
    cases accepted with
    | false => exact ⟨hgood, nofun⟩
    | true =>
        simp only [Bool.true_eq_false, if_false]
        exact spec_taken hD h hdata hstate hsame hgood hinv hok
  · exact ⟨h, nofun⟩

/-- **The loop of `decodeData` keeps the contract**, and there are enough turns. -/
theorem spec_decodeLoop (n : ℕ) : ∀ {w : World}, Good I [] w → may w.log ∨ Quiet w →
    turns w < n → Spec ok I [] (fun _ w' => Good I [] w') (HTTPSession.decodeLoop n w) := by
  induction n with
  | zero =>
      intro w _ _ hturns
      exact absurd hturns (Nat.not_lt_zero _)
  | succ n ih =>
      intro w h hmay hturns
      rw [HTTPSession.decodeLoop_succ]
      split
      · rename_i hpos
        have hdata := List.ne_nil_of_length_pos hpos
        refine Reentrant.Contract.Spec.bind (?_ : Spec ok I [] (Turned I may (turns w)) _)
          fun r w' h' => ?_
        · cases hstate : w.http.websocketHandler.state with
          | WAIT_PACKET => exact spec_waitPacket h hmay hdata hstate
          | WAIT_DATA => exact spec_waitData hD h hmay hdata hstate
        · cases r with
          | some r => exact h'.good
          | none =>
              obtain ⟨hmay', hless⟩ := h'.goes rfl
              exact ih h'.good hmay' (by omega)
      · exact h

end decode

/-! ### `on_recv` -/

section recv

variable {ok : List Call → World → Move → Prop} {I : Invariant} {may : List Event → Prop}
  {w : World}

/-- A message that is read fits the 16 bits of its size. -/
theorem size_mod {data : List UInt8} {m : Message} (hread : readMessage data = some m)
    (hlen : data.length < 2 ^ 16) : m.size % 2 ^ 16 = m.size :=
  Nat.mod_eq_of_lt (lt_of_le_of_lt (size_le_of_readMessage hread) hlen)

variable (hR : Receives ok I may)
include hR

theorem spec_onHttpData {data : List UInt8} (hsane : Sane w.tls)
    (hready : Ready w.http.websocketHandler)
    (hcall : I [.onHttpData data] (view (w.emit (.call (.onHttpData data))))) :
    Spec ok I [] (fun _ w' => Good I [] w') (call (.onHttpData data) w) := by
  rw [call_apply]
  refine spec_deliver rfl hsane hready hcall fun _ w' _ hgood _ => ?_
  exact ⟨hgood.sane, hgood.ready, List.not_mem_nil, hR.answered hgood.inv⟩

/-- `on_recv` for the first chunk: the message at its front, and the data after it. -/
theorem spec_onRecvHeader {data : List UInt8} (h : Good I [] w)
    (hopen : w.tls.session.closing = false) (hstate : w.http.state = .INIT)
    (hlen : data.length < 2 ^ 16) :
    Spec ok I [] (fun _ w' => Good I [] w')
      (HTTPSession.onRecvHeader ((w.emit (.onRecv data)).setData data)) := by
  rw [HTTPSession.onRecvHeader_apply]
  cases hread : readMessage data with
  | none =>
      obtain ⟨header, mem, hparse⟩ := HTTPHeader.parse_none w.http.header hread
      simp only [World.setData_http, World.emit_http, World.setData_data, hparse]
      exact ⟨h.sane, h.ready, h.sound, hR.refused h.inv hopen (.inr ⟨hstate, hread⟩)⟩
  | some m =>
      obtain ⟨header, mem, hparse, hmem, hholds, -⟩ := HTTPHeader.parse_some w.http.header hread
      have hsize : header.getHeaderSize = m.size := hholds.headerSize.trans (size_mod hread hlen)
      have hdrop : (mem ++ data.drop m.size).drop m.size = data.drop m.size := by
        rw [← hmem, List.drop_left]
      simp only [World.setData_http, World.emit_http, World.setData_data, hparse,
        Bool.true_eq_false, if_false]
      refine spec_deliver rfl h.sane h.ready
        (hR.request h.inv hopen hstate hread hsize hdrop (hholds.append _))
        fun accepted w' hsame hgood hok => ?_
      have hrest : w'.data.drop w'.http.header.getHeaderSize =
          (mem ++ data.drop m.size).drop header.getHeaderSize := by
        rw [hsame.data, hsame.header]
        rfl
      cases accepted with
      | false =>
          exact ⟨hgood.sane, hgood.ready, List.not_mem_nil, hR.requested hgood.inv hok nofun⟩
      | true =>
          simp only [Bool.true_eq_false, if_false, World.emit_data, hrest]
          -- what follows the message in the chunk is data
          split
          · rename_i hpos
            refine spec_onHttpData hR hgood.sane hgood.ready ?_
            rw [hrest]
            exact hR.rest hgood.inv hok (List.ne_nil_of_length_pos hpos)
          · rename_i hnone
            refine ⟨hgood.sane, hgood.ready, List.not_mem_nil, ?_⟩
            exact hR.requested hgood.inv hok fun _ =>
              List.eq_nil_of_length_eq_zero (Nat.eq_zero_of_not_pos hnone)

/-- **`on_recv` keeps the contract.** -/
theorem spec_onRecv {data : List UInt8} (h : Good I [] w)
    (hopen : w.tls.session.closing = false) (hlen : data.length < 2 ^ 16) :
    Spec ok I [] (fun _ w' => Good I [] w') (HTTPSession.onRecv data w) := by
  rw [HTTPSession.onRecv_apply]
  dsimp only
  cases hstate : w.http.state with
  | INIT => exact spec_onRecvHeader hR h hopen hstate hlen
  | HEADER_RECEIVED =>
      exact spec_onHttpData hR h.sane h.ready (hR.received h.inv hopen hstate)
  | WEBSOCKET_ESTABLISHED =>
      obtain ⟨hinv, hmay⟩ : I [] (((view w).emit (.onRecv data)).emit (.decodeData data)) ∧
          may (((view w).emit (.onRecv data)).emit (.decodeData data)).log :=
        hR.decode h.inv hopen hstate
      refine spec_decodeLoop hR.toDecodes (2 * data.length + 2)
        ⟨h.sane, h.ready, h.sound, hinv⟩ (.inl hmay) ?_
      simp only [turns, World.emit_data, World.setData_data]
      split <;> omega
  | FAIL => exact ⟨h.sane, h.ready, h.sound, hR.refused h.inv hopen (.inl hstate)⟩

end recv

/-! ### Every run -/

section run

variable {ok : List Call → World → Move → Prop} {I : Invariant} {may : List Event → Prop}

instance [∀ pending w m, Decidable (ok pending w m)] :
    ∀ pending w m, Decidable ((contract ok I).ok pending w m) :=
  fun pending w m => inferInstanceAs (Decidable (ok pending w m))

/-- A new session is good. -/
theorem Good.start {crypto : Crypto} {setup : Tls.Setup} {arg : Option ℕ} {tls : Bool}
    {op : WebSocket.WebSocketOperation} {key : Fin 4 → UInt8}
    {buffer : Buffer WebSocket.MAX_WEBSOCKET_HEADER} (h : I [] ⟨.INIT, false, []⟩) :
    Good I [] (.start crypto setup arg tls op key buffer) :=
  ⟨⟨rfl, nofun⟩, Ready.fresh op key buffer, List.not_mem_nil, h⟩

/-- **An invariant that every step keeps holds in every run**, and nothing is accessed outside of
an object. -/
theorem Steady.run [∀ pending w m, Decidable (ok pending w m)] (hI : Steady ok I)
    (hR : Receives ok I may) {w : World} (hw : Good I [] w) {moves : List Move} {c : Config}
    (hrun : Reentrant.run Entry.run ok moves (.start w) = some c) : Good I c.pending c.state := by
  have hsound : (contract ok I).Sound Entry.run fun _ _ _ _ _ => True := by
    refine ⟨fun _ w _ => .refl w, fun _ _ _ _ h h' hne => (h hne).trans (h' hne), ?_⟩
    intro below w e hgood hok
    refine (spec_run hI hgood hok fun data w' _ => spec_onRecv hR).mono fun _ w' h' => ?_
    exact ⟨h'.good, h'.same, trivial⟩
  exact (hsound.run (K := contract ok I) hw hrun).1

end run

end Delivery

end Http
