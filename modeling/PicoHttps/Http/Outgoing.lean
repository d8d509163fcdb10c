/-
**What goes out is what has been sent.**

A reply and a frame are sent in two parts, a header and a body, each by a `send` of the TLS session,
which passes it to `altcp_write` in pieces.  lwIP may report sent bytes and errors between the
pieces, but the application gets no word before the last of them has been passed.  It is called
back then, in `on_sent`, which may be between the two parts of a frame: what it sends there is torn
into that frame.  An application that sends at the top level and in the callbacks that are given
data, and not in `on_sent`, has its messages go out one after the other.

Main definitions:

* `Http.Entry.text` — the bytes that a method is to send;
* `Http.Orderly` — the moves of an application that does not send in `on_sent`.

Main results:

* `Http.Outgoing.spec_send` — what `send` passes on;
* `Http.Outgoing.ledger`, `Http.Outgoing.shown` — the messages of a session make up a ledger of what
  it has written;
* `Http.written_in_order` — **what has been written is what has been sent, in order**, in every run.
-/

import PicoHttps.Basics.Ledger
import PicoHttps.Http.Routing
import PicoHttps.Tls.Outgoing

set_option relaxedAutoImplicit false
set_option autoImplicit false

namespace Http

open Reentrant (Res)
open Reentrant.Prog

/-! ### The property -/

/-- The reply with which a WebSocket is accepted, when it comes to that. -/
def HTTPSession.acceptText (crypto : Crypto) (header : HTTPHeader) (data : List UInt8) :
    Option (List UInt8) :=
  match header.getHeaderValue data keyName with
  | some (some key) =>
    if key.length + 1 ≥ 128 - KEY_BUFFER.length then none
    else do
      let sha1sum ← crypto.sha1 (key ++ KEY_BUFFER)
      let buffer ← crypto.base64Encode sha1sum
      if (acceptReply buffer).length ≥ 256 then none else some (acceptReply buffer)
  | _ => none

/-- The bytes that a method is to send; `none` when it is to send nothing, as when a header is too
long for the buffer. -/
def Entry.text (crypto : Crypto) : Entry → Option (List UInt8)
  | .sendHttpReply extraHeaders body bodyLen =>
    if (HTTPSession.replyHeader extraHeaders bodyLen).length ≥ 128 then none
    else some (HTTPSession.replyHeader extraHeaders bodyLen ++ body.getD [])
  | .sendWebSocketData body => some (WebSocket.WebSocketHandler.encodeHeader body.length ++ body)
  | .acceptWebSocket header data => HTTPSession.acceptText crypto header data
  | _ => none

/-- The methods that send. -/
def Entry.sends : Entry → Bool
  | .sendHttpReply _ _ _ | .sendWebSocketData _ | .acceptWebSocket _ _ => true
  | _ => false

/-- **The application sends at the top level and in the callbacks that are given data**, and not in
`on_sent`. -/
def Orderly (pending : List Call) (w : World) (m : Move) : Prop :=
  Proper pending w m ∧ match m with
    | .enter e => e.sends = true → ∀ c ∈ pending, c.isData = true
    | .answer _ _ => True

instance : ∀ pending w m, Decidable (Orderly pending w m)
  | _, _, .enter _ => inferInstanceAs (Decidable (_ ∧ (_ → _)))
  | _, _, .answer _ _ => inferInstanceAs (Decidable (_ ∧ True))

/-! ### Code that writes nothing -/

namespace Outgoing

/-- Nothing has been written, and a session that is open now was open before. -/
structure Later (w w' : World) : Prop where
  crypto : w'.crypto = w.crypto
  tls : Tls.Later w.tls w'.tls

variable {α : Type} {w₀ w w' w'' : World}

theorem Later.refl (w : World) : Later w w := ⟨rfl, .refl _⟩

theorem Later.trans (h : Later w w') (h' : Later w' w'') : Later w w'' :=
  ⟨h'.crypto.trans h.crypto, h.tls.trans h'.tls⟩

/-- A step that leaves the TLS session as it is. -/
theorem Later.same (h : Later w₀ w) (hcrypto : w'.crypto = w.crypto) (htls : w'.tls = w.tls) :
    Later w₀ w' := ⟨hcrypto.trans h.crypto, htls ▸ h.tls⟩

/-- **Code that writes nothing**, and opens no session. -/
abbrev Mute (w₀ : World) (r : Res World Call Call.Answer α) : Prop :=
  r.Within Later (fun c => c.isOutput = false) w₀

theorem Mute.after {r : Res World Call Call.Answer α} (h : Later w₀ w) (hr : Mute w r) :
    Mute w₀ r := Res.Within.after (fun _ _ _ => Later.trans) h hr

theorem Mute.bind {β : Type} {r : Res World Call Call.Answer α}
    {f : α → World → Res World Call Call.Answer β} (hr : Mute w₀ r) (hf : ∀ a w, Mute w (f a w)) :
    Mute w₀ (r.bind f) := Res.Within.bind (R := Later) (fun _ _ _ => Later.trans) hr hf

theorem mute_call {c : Call} {k : c.Answer → World → Res World Call Call.Answer α}
    (h : Later w₀ w) (hc : c.isOutput = false) (hk : ∀ a w', Mute w' (k a w')) :
    Mute w₀ (.call c w k) := Res.Within.call h hc hk

theorem mute_fault (h : Later w₀ w) : Mute w₀ ((fault : Prog α) w) :=
  mute_call h rfl fun a _ => a.elim

/-- Code of the TLS session that writes nothing, if what handles its calls does not, either. -/
theorem mute_link {handle : (c : Tls.Call) → Prog c.Answer}
    (hhandle : ∀ c, c.isMute = true → ∀ w, Mute w (handle c w))
    {r : Res Tls.World Tls.Call Tls.Call.Answer α} (hr : Tls.Mute w.tls r) :
    Mute w (r.link tlsPart handle w) :=
  Res.Within.link (L := tlsPart) (R := Tls.Later) (Q := Later) (fun _ _ _ => Later.trans)
    (fun h => ⟨rfl, h⟩) hhandle hr

theorem mute_lwip (c : Tls.Call) (hc : c.isMute = true) (w : World) : Mute w (lwip c w) :=
  mute_call (.refl w) (Tls.isOutput_of_isMute hc) fun _ w' => .refl w'

theorem mute_destroy (w : World) : Mute w (HTTPSession.destroy w) := by
  simp only [HTTPSession.destroy, bind_apply, emit_apply, get_apply, if_apply, modify_apply,
    pure_apply, Res.bind_done]
  split
  · have hset : Tls.Later w.tls (w.tls.set fun s => { s with callback := false }) :=
      (Tls.Later.refl w.tls).set id
    refine Mute.bind ?_ fun _ w' => Later.refl w'
    exact Mute.after (⟨rfl, hset⟩ : Later w ((w.emit .deleted).setTls _))
      (mute_link mute_lwip (Tls.mute_close _))
  · exact Later.same (.refl w) rfl rfl

theorem mute_data (c : Call) (hc : c.isOutput = false) (h : Later w₀ w) :
    Mute w₀ (call c w) := by
  rw [call_apply]
  exact mute_call (h.same rfl rfl) hc fun _ w' => Later.same (.refl w') rfl rfl

theorem mute_waitPacket (h : Later w₀ w) : Mute w₀ (HTTPSession.waitPacket w) := by
  rw [HTTPSession.waitPacket_apply]
  rcases w.http.websocketHandler.waitPacket w.data with _ | ⟨handler, _ | data⟩
  · exact mute_fault h
  · exact h.same rfl rfl
  · exact h.same rfl rfl

theorem mute_waitData (h : Later w₀ w) : Mute w₀ (HTTPSession.waitData w) := by
  rw [HTTPSession.waitData_apply]
  split
  · refine mute_call (h.same rfl rfl) rfl fun accepted w' => ?_
    have hself : Later w' w' := .refl w'
    dsimp only
    split
    · exact hself.same rfl rfl
    · split
      · exact mute_call (hself.same rfl rfl) rfl fun _ w'' => Later.same (.refl w'') rfl rfl
      · exact hself.same rfl rfl
  · exact h

theorem mute_decodeLoop {turns : ℕ} : ∀ {w₀ w : World}, Later w₀ w →
    Mute w₀ (HTTPSession.decodeLoop turns w) := by
  induction turns with
  | zero => exact mute_fault
  | succ turns ih =>
      intro w₀ w h
      rw [HTTPSession.decodeLoop_succ]
      split
      · refine Mute.bind ?_ fun r w' => ?_
        · cases w.http.websocketHandler.state with
          | WAIT_PACKET => exact mute_waitPacket h
          | WAIT_DATA => exact mute_waitData h
        · cases r with
          | none => exact ih (.refl w')
          | some r => exact Later.refl w'
      · exact h

theorem mute_onRecvHeader (h : Later w₀ w) : Mute w₀ (HTTPSession.onRecvHeader w) := by
  rw [HTTPSession.onRecvHeader_apply]
  rcases w.http.header.parse w.data with _ | ⟨parsed, header, data⟩
  · exact mute_fault h
  · dsimp only
    split
    · exact h.same rfl rfl
    · refine mute_call (h.same rfl rfl) rfl fun accepted w' => ?_
      have hself : Later w' w' := .refl w'
      cases accepted with
      | false => exact hself.same rfl rfl
      | true =>
          simp only [Bool.true_eq_false, if_false]
          split
          · exact mute_data _ rfl (hself.same rfl rfl)
          · exact hself.same rfl rfl

/-- **`on_recv` writes nothing.** -/
theorem mute_onRecv (data : List UInt8) (w : World) : Mute w (HTTPSession.onRecv data w) := by
  have hself : Later w ((w.emit (.onRecv data)).setData data) := Later.same (.refl w) rfl rfl
  rw [HTTPSession.onRecv_apply]
  dsimp only
  cases w.http.state with
  | INIT => exact mute_onRecvHeader hself
  | HEADER_RECEIVED => exact mute_data _ rfl hself
  | WEBSOCKET_ESTABLISHED => exact mute_decodeLoop (hself.same rfl rfl)
  | FAIL => exact hself

theorem mute_handle (c : Tls.Call) (hc : c.isMute = true) (w : World) :
    Mute w (HTTPSession.handle c w) := by
  cases c with
  | onConnected => cases hc
  | onRecv data => exact mute_onRecv data w
  | onSent len => exact mute_data _ rfl (.refl w)
  | onClosed => exact mute_destroy w
  | altcpWrite | altcpOutput => cases hc
  | dnsGethostbyname | altcpNew | altcpConnect => exact mute_lwip _ hc w

theorem mute_session {x : Tls.Prog α} (hx : Tls.Mute w.tls (x w.tls)) :
    Mute w (HTTPSession.session x w) := mute_link mute_handle hx

/-! ### Code that returns at once -/

theorem destroy_done (w : World) : ∃ w', HTTPSession.destroy w = .done () w' := by
  simp only [HTTPSession.destroy, bind_apply, emit_apply, get_apply, if_apply, modify_apply,
    pure_apply, Res.bind_done]
  split
  · obtain ⟨err, s, hclose⟩ :=
      Tls.close_done (w := w.tls.set fun s => { s with callback := false }) rfl
    have hlink : Reentrant.Prog.link tlsPart lwip Tls.Session.close ((w.emit .deleted).setTls
        (w.tls.set fun s => { s with callback := false })) =
        .done err (((w.emit .deleted).setTls
          (w.tls.set fun s => { s with callback := false })).setTls s) :=
      (congrArg (fun r => Res.link tlsPart lwip r _) hclose).trans rfl
    exact ⟨_, (congrArg (fun r => Res.bind r fun _ w' => .done () w') hlink).trans rfl⟩
  · exact ⟨_, rfl⟩

/-- `close` calls nobody: `on_closed` only deletes the object. -/
theorem close_done (w : World) : ∃ w', HTTPSession.close w = .done () w' ∧ Later w w' := by
  have hset : Later w ((w.emit .close).set fun s => { s with state := .FAIL }) :=
    Later.same (.refl w) rfl rfl
  have hhandle : ∀ c : Tls.Call, c = .onClosed → ∀ w, ∃ a w', HTTPSession.handle c w = .done a w' := by
    rintro c rfl w
    obtain ⟨w', hw'⟩ := destroy_done w
    exact ⟨(), w', hw'⟩
  obtain ⟨err, w', hclose⟩ := (Tls.makes_close w.tls).link_done (L := tlsPart) hhandle
    ((w.emit .close).set fun s => { s with state := .FAIL })
  have hmute : Mute ((w.emit .close).set fun s => { s with state := .FAIL })
      (HTTPSession.session Tls.Session.close
        ((w.emit .close).set fun s => { s with state := .FAIL })) :=
    mute_session (Tls.mute_close _)
  have hdone : HTTPSession.session Tls.Session.close
      ((w.emit .close).set fun s => { s with state := .FAIL }) = .done err w' := hclose
  rw [hdone] at hmute
  refine ⟨w', ?_, hset.trans hmute⟩
  simp only [HTTPSession.close, bind_apply, emit_apply, set_apply, Res.bind_done, hdone]
  rfl

/-! ### Sending -/

/-- `m_processing` is set whenever a call of `altcp` waits, and while a method that sends waits,
nothing is written and no session is opened. -/
def contract : Reentrant.Contract World Entry Call Call.Answer :=
  .ofKinds Orderly Call.isOutput Call.isData (fun w => w.tls.session.processing = true) Later

instance : ∀ pending w m, Decidable (contract.ok pending w m) :=
  inferInstanceAs (∀ pending w m, Decidable (Orderly pending w m))

variable {below : List Call}

/-- The contract is kept by code that runs while the calls `below` wait. -/
abbrev Spec (below : List Call) (post : α → World → Prop) : Res World Call Call.Answer α → Prop :=
  contract.Spec below post

/-- What becomes of a call of `send`. -/
theorem spec_handle (c : Tls.Call) (w : World) (s : Tls.World)
    (hgood : (Tls.Outgoing.contract fun _ _ _ => True).good [c] s) :
    Spec below (fun _ w' => w'.crypto = w.crypto ∧
        (Tls.Outgoing.contract fun _ _ _ => True).good [c] w'.tls ∧ Tls.Later s w'.tls ∧ True)
      (HTTPSession.handle c (w.setTls s)) := by
  obtain ⟨hdelivers, hprocessing⟩ := hgood c rfl
  have hpassed : ∀ {w' : World}, (w'.tls.session.processing = true ∨ c.isOutput = false) →
      Later (w.setTls s) w' → w'.crypto = w.crypto ∧
        (Tls.Outgoing.contract fun _ _ _ => True).good [c] w'.tls ∧ Tls.Later s w'.tls ∧ True := by
    intro w' hprocessing' hlater
    refine ⟨hlater.crypto, fun c' hc' => ?_, hlater.tls, trivial⟩
    obtain rfl : c = c' := Option.some.inj hc'
    refine ⟨hdelivers, fun houtput => hprocessing'.resolve_right fun hnot => ?_⟩
    rw [houtput] at hnot
    cases hnot
  cases c with
  | onConnected | onRecv => cases hdelivers
  | onSent len =>
      have hcall : Later (w.setTls s) ((w.setTls s).emit (.call (.onSent len))) :=
        Later.same (.refl _) rfl rfl
      refine Reentrant.Contract.spec_waits rfl rfl fun _ w' hlater => hpassed (.inr rfl) ?_
      exact (hcall.trans hlater).same rfl rfl
  | onClosed =>
      obtain ⟨w', hw'⟩ := destroy_done (w.setTls s)
      have hmute := mute_destroy (w.setTls s)
      rw [hw'] at hmute
      exact Eq.mpr (congrArg _ hw') (hpassed (.inr rfl) hmute)
  | altcpWrite | altcpOutput =>
      exact Reentrant.Contract.spec_out rfl rfl (hprocessing rfl)
        fun _ w' hlater hprocessing' _ => hpassed (.inl hprocessing') hlater
  | dnsGethostbyname | altcpNew | altcpConnect =>
      exact Reentrant.Contract.spec_waits rfl rfl fun _ w' hlater => hpassed (.inr rfl) hlater

/-- What `send` leaves: if the session is still open, and all is fine, the data has been written. -/
structure Sent (w : World) (data : List UInt8) (fine : Prop) (w' : World) : Prop where
  crypto : w'.crypto = w.crypto
  tls : Tls.Sent w.tls data fine w'.tls

/-- **What `send` passes on.** -/
theorem spec_send (data : List UInt8) (w : World) :
    Spec below (fun err w' => Sent w data (err = .ERR_OK) w')
      (HTTPSession.session (Tls.Session.send (some data)) w) := by
  have hsend := Tls.Outgoing.spec_send (fun _ _ _ => True) data w.tls
  refine (hsend.link (L := tlsPart) (P := fun w' => w'.crypto = w.crypto) ?_ rfl).mono ?_
  · intro c w₁ s hw₁ hgood
    exact (spec_handle c w₁ s hgood).mono fun _ w' h => ⟨h.1.trans hw₁, h.2⟩
  · rintro err w' ⟨w₁, s, hw₁, hsent, rfl⟩
    exact ⟨hw₁, hsent.opened, fun hopen hok => hsent.written hopen (.inl hok)⟩

/-! ### The messages -/

/-- What a method that sends leaves: its message has been written when it returns `true` and the
session is still open, and nothing has been when it has no message. -/
structure Booked (e : Entry) (w : World) (r : Result) (w' : World) : Prop where
  crypto : w'.crypto = w.crypto
  opened : w'.tls.IsOpen → w.tls.IsOpen
  message : ∀ text, e.text w.crypto = some text → w'.tls.IsOpen → r = .bool true →
    Tls.written w'.tls.log = Tls.written w.tls.log ++ text
  silent : e.text w.crypto = none → Tls.written w'.tls.log = Tls.written w.tls.log

/-- Nothing is sent, since there is no message. -/
theorem Booked.refused {e : Entry} (htext : e.text w.crypto = none) (r : Result) :
    Booked e w r w where
  crypto := rfl
  opened := id
  message := fun _ h => by
    rw [htext] at h
    cases h
  silent := fun _ => rfl

/-- The message has been sent, or the method does not return `true`. -/
theorem Sent.booked {e : Entry} {text : List UInt8} {ok : Prop} {r : Result}
    (h : Sent w text ok w') (htext : e.text w.crypto = some text) (hok : r = .bool true → ok) :
    Booked e w r w' := by
  refine ⟨h.crypto, h.tls.opened, fun text' htext' hopen hr => ?_, fun hnone => ?_⟩
  · obtain rfl := Option.some.inj (htext.symm.trans htext')
    exact h.tls.written hopen (hok hr)
  · rw [htext] at hnone
    cases hnone

/-- The method has returned `false`. -/
theorem Sent.unbooked {e : Entry} {text : List UInt8} {ok : Prop} (h : Sent w text ok w')
    (htext : e.text w.crypto = some text) : Booked e w (.bool false) w' :=
  h.booked htext fun hr => by cases hr

/-- One part of a message after another. -/
theorem Sent.trans {xs ys : List UInt8} {ok ok' : Prop} (h : Sent w xs ok w') (hok : ok)
    (h' : Sent w' ys ok' w'') : Sent w (xs ++ ys) ok' w'' where
  crypto := h'.crypto.trans h.crypto
  tls := h.tls.trans hok h'.tls

theorem spec_sendHttpReply (extraHeaders : List UInt8) (body : Option (List UInt8)) (bodyLen : ℤ)
    (w : World) :
    Spec below (fun accepted w' => Booked (.sendHttpReply extraHeaders body bodyLen) w
      (.bool accepted) w') (HTTPSession.sendHttpReply extraHeaders body bodyLen w) := by
  simp only [HTTPSession.sendHttpReply, if_apply]
  split
  · rename_i hlong
    have htext : Entry.text w.crypto (.sendHttpReply extraHeaders body bodyLen) = none :=
      if_pos hlong
    exact Booked.refused htext _
  · rename_i hshort
    have htext : Entry.text w.crypto (.sendHttpReply extraHeaders body bodyLen) =
        some (HTTPSession.replyHeader extraHeaders bodyLen ++ body.getD []) := if_neg hshort
    refine (spec_send _ w).bind fun err w' h => ?_
    simp only [if_apply]
    split
    · have hnot : Sent w (HTTPSession.replyHeader extraHeaders bodyLen ++ body.getD []) False w' :=
        ⟨h.crypto, h.tls.opened, fun _ hno => hno.elim⟩
      exact hnot.unbooked htext
    · rename_i herr
      have hok := not_not.1 herr
      cases body with
      | none =>
          rw [Option.getD_none, List.append_nil] at htext
          exact h.booked htext fun _ => hok
      | some body =>
          refine (spec_send body w').bind fun err' w'' h' => ?_
          have hboth := h.trans hok h'
          simp only [if_apply]
          split
          · rename_i herr'
            exact hboth.unbooked htext
          · rename_i herr'
            exact hboth.booked htext fun _ => not_not.1 herr'

theorem spec_onWebsocketEncodedData (data : List UInt8) (w : World) :
    Spec below (fun sent w' => Sent w data (sent = true) w')
      (HTTPSession.onWebsocketEncodedData data w) := by
  refine (spec_send data w).bind fun err w' h => ?_
  exact ⟨h.crypto, h.tls.opened, fun hopen hsent => h.tls.written hopen (of_decide_eq_true hsent)⟩

theorem spec_sendWebSocketData (body : List UInt8) (w : World) :
    Spec below (fun sent w' => Booked (.sendWebSocketData body) w (.bool sent) w')
      (HTTPSession.sendWebSocketData body w) := by
  refine (spec_onWebsocketEncodedData _ w).bind fun sent w' h => ?_
  cases sent with
  | false =>
      have hnot : Sent w (WebSocket.WebSocketHandler.encodeHeader body.length ++ body) False w' :=
        ⟨h.crypto, h.tls.opened, fun _ hno => hno.elim⟩
      exact hnot.unbooked rfl
  | true =>
      refine (spec_onWebsocketEncodedData body w').mono fun sent w'' h' => ?_
      refine (h.trans rfl h').booked rfl fun hsent => ?_
      cases hsent
      rfl

theorem spec_acceptWebSocket {header : HTTPHeader} {data : List UInt8}
    (hkey : (header.getHeaderValue data HTTPSession.keyName).isSome) (w : World) :
    Spec below (fun accepted w' => Booked (.acceptWebSocket header data) w (.bool accepted) w')
      (HTTPSession.acceptWebSocket header data w) := by
  obtain ⟨value, hvalue⟩ := Option.isSome_iff_exists.1 hkey
  simp only [HTTPSession.acceptWebSocket, hvalue]
  cases value with
  | none =>
      have htext : Entry.text w.crypto (.acceptWebSocket header data) = none := by
        simp only [Entry.text, HTTPSession.acceptText, hvalue]
      exact Booked.refused htext _
  | some key =>
      simp only [if_apply, bind_apply, get_apply, Res.bind_done]
      split
      · rename_i hlong
        have htext : Entry.text w.crypto (.acceptWebSocket header data) = none := by
          simp only [Entry.text, HTTPSession.acceptText, hvalue, if_pos hlong]
        exact Booked.refused htext _
      · rename_i hshort
        cases hsha : w.crypto.sha1 (key ++ HTTPSession.KEY_BUFFER) with
        | none =>
            have htext : Entry.text w.crypto (.acceptWebSocket header data) = none := by
              simp only [Entry.text, HTTPSession.acceptText, hvalue, if_neg hshort, hsha]
              rfl
            exact Booked.refused htext _
        | some sha1sum =>
            dsimp only
            cases hbase : w.crypto.base64Encode sha1sum with
            | none =>
                have htext : Entry.text w.crypto (.acceptWebSocket header data) = none := by
                  simp only [Entry.text, HTTPSession.acceptText, hvalue, if_neg hshort, hsha,
                    Option.bind_eq_bind, Option.bind_some, hbase, Option.bind_none]
                exact Booked.refused htext _
            | some buffer =>
                have hreply : Entry.text w.crypto (.acceptWebSocket header data) =
                    if (HTTPSession.acceptReply buffer).length ≥ 256 then none
                    else some (HTTPSession.acceptReply buffer) := by
                  simp only [Entry.text, HTTPSession.acceptText, hvalue, if_neg hshort, hsha,
                    Option.bind_eq_bind, Option.bind_some, hbase]
                simp only [if_apply]
                split
                · rename_i hlong
                  exact Booked.refused (hreply.trans (if_pos hlong)) _
                · rename_i hfits
                  have htext := hreply.trans (if_neg hfits)
                  refine (spec_send _ w).bind fun err w' h => ?_
                  simp only [if_apply]
                  split
                  · exact h.unbooked htext
                  · rename_i herr
                    have hset : Sent w (HTTPSession.acceptReply buffer) (err = .ERR_OK)
                        (w'.set fun s => { s with state := .WEBSOCKET_ESTABLISHED }) :=
                      ⟨h.crypto, h.tls⟩
                    exact hset.booked htext fun _ => not_not.1 herr

/-- **A method that sends.** -/
theorem spec_sends {e : Entry} (he : e.sends = true) (hproper : Proper below w (.enter e)) :
    Spec below (fun r w' => Booked e w r w') (e.run w) := by
  cases e with
  | sendHttpReply extraHeaders body bodyLen =>
      exact (spec_sendHttpReply extraHeaders body bodyLen w).bind fun _ _ h => h
  | sendWebSocketData body => exact (spec_sendWebSocketData body w).bind fun _ _ h => h
  | acceptWebSocket header data =>
      refine (spec_acceptWebSocket hproper.2 w).bind fun _ _ h => ?_
      exact ⟨h.crypto, h.opened, h.message, h.silent⟩
  | _ => cases he

/-! ### The contract -/

theorem run_close (w : World) :
    Entry.run .close w = (HTTPSession.close w).bind fun _ w' => .done .void w' := rfl

/-- **A method that does not send writes nothing.** -/
theorem mute_entry {e : Entry} (he : e.sends = false) (w : World) : Mute w (e.run w) := by
  cases e with
  | sendHttpReply | sendWebSocketData | acceptWebSocket => cases he
  | close =>
      obtain ⟨w', hw', hlater⟩ := close_done w
      rw [run_close, hw']
      exact hlater
  | lwipRecv pcb p err =>
      exact Mute.bind (mute_session (Tls.mute_run (.inr ⟨pcb, p, err, rfl⟩) _)) fun _ w => .refl w
  | lwipSent pcb len => exact Mute.bind (mute_session (Tls.mute_run (.inl rfl) _)) fun _ w => .refl w
  | lwipErr pcb => exact Mute.bind (mute_session (Tls.mute_run (.inl rfl) _)) fun _ w => .refl w

theorem isData_eq_false (c : Call) (hc : c.isOutput = true) : c.isData = false := by
  cases c <;> first | rfl | cases hc

/-- **A method that does not send returns at once** when another one is waiting. -/
theorem settles {e : Entry} (he : e.sends = false) (hbelow : below ≠ [])
    (hgood : contract.good below w) (hproper : Proper below w (.enter e)) :
    ∃ r w', e.run w = .done r w' ∧ contract.good below w' := by
  obtain ⟨c, below, rfl⟩ := List.exists_cons_of_ne_nil hbelow
  -- what lwIP reports is taken note of, and no more
  have hraised : ∀ {x : Tls.Entry}, x.isRaised = true → c.isOutput = true →
      ∃ err w', HTTPSession.session x.run w = .done err w' ∧ contract.good (c :: below) w' := by
    intro x hx hc
    obtain ⟨err, s, hrun, hprocessing, -, -⟩ := Tls.Sending.raised_run hx (hgood ⟨c, rfl, hc⟩)
    exact ⟨err, w.setTls s,
      (congrArg (fun r => Res.link tlsPart HTTPSession.handle r w) hrun).trans rfl,
      fun _ => hprocessing⟩
  cases e with
  | sendHttpReply | sendWebSocketData | acceptWebSocket => cases he
  | close =>
      obtain ⟨w', hw', -⟩ := close_done w
      refine ⟨.void, w', by rw [run_close, hw', Res.bind_done], ?_⟩
      rintro ⟨c', hc', houtput⟩
      cases hc'
      cases c with
      | lwip => cases hproper
      | _ => cases houtput
  | lwipRecv => cases hproper.1
  | lwipSent pcb len =>
      obtain ⟨err, w', hrun, hgood'⟩ := hraised (x := .lwipSent pcb len) rfl hproper.1
      exact ⟨.err err, w', (congrArg (fun r => Res.bind r _) hrun).trans rfl, hgood'⟩
  | lwipErr pcb =>
      obtain ⟨err, w', hrun, hgood'⟩ := hraised (x := .lwipErr pcb) rfl hproper.1
      exact ⟨.err err, w', (congrArg (fun r => Res.bind r _) hrun).trans rfl, hgood'⟩

/-- **Every method keeps the contract**, and a method that sends leaves what it should. -/
theorem sound : contract.Sound Entry.run fun _ e before r after =>
    e.sends = true → Booked e before r after where
  refl := fun _ w _ => .refl w
  trans := fun _ _ _ _ h h' hwaits => (h hwaits).trans (h' hwaits)
  method := by
    intro below w e hgood hok
    by_cases he : e.sends = true
    · -- only calls that deliver data are waiting, and the contract asks for nothing
      have hdata := hok.2 he
      exact (spec_sends he hok.1).mono fun r w' h =>
        ⟨Reentrant.Contract.good_of_free isData_eq_false hdata,
          Reentrant.Contract.rely_of_free hdata, fun _ => h⟩
    · rw [Bool.not_eq_true] at he
      have hmute := mute_entry he w
      have hnot : ∀ {r : Result} {w' : World}, e.sends = true → Booked e w r w' := by
        rw [he]
        exact fun h => absurd h Bool.false_ne_true
      rcases below with _ | ⟨c, below⟩
      · have hfree : ∀ c ∈ ([] : List Call), c.isData = true :=
          fun c hc => absurd hc List.not_mem_nil
        exact (Reentrant.Contract.spec_of_not_out hmute fun _ hc => hc).mono fun r w' _ =>
          ⟨Reentrant.Contract.good_of_free isData_eq_false hfree,
            Reentrant.Contract.rely_of_free hfree, hnot⟩
      · obtain ⟨r, w', hdone, hprocessing⟩ := settles he (List.cons_ne_nil c below) hgood hok.1
        rw [hdone] at hmute ⊢
        exact ⟨hprocessing, fun _ => hmute, hnot⟩

/-! ### The calls of methods that send -/

/-- Code that gives no data to the application. -/
abbrev Gives (r : Res World Call Call.Answer α) : Prop := r.Makes fun c => ¬ c.isData = true

theorem gives_handle (c : Tls.Call) (hc : c.delivers = false) (w : World) :
    Gives (HTTPSession.handle c w) := by
  cases c with
  | onConnected | onRecv => cases hc
  | onClosed =>
      obtain ⟨w', hw'⟩ := destroy_done w
      exact Eq.mpr (congrArg _ hw') trivial
  | _ => exact ⟨Bool.false_ne_true, fun _ _ => trivial⟩

theorem gives_send (data : List UInt8) (w : World) :
    Gives (HTTPSession.session (Tls.Session.send (some data)) w) :=
  (Tls.gives_send data w.tls).link gives_handle w

/-- **A method that sends gives no data to the application.** -/
theorem gives_sends {e : Entry} (he : e.sends = true) (w : World) : Gives (e.run w) := by
  cases e with
  | sendHttpReply extraHeaders body bodyLen =>
      refine Res.Makes.bind ?_ fun _ _ => trivial
      simp only [HTTPSession.sendHttpReply, if_apply]
      split
      · trivial
      · refine (gives_send _ w).bind fun err w' => ?_
        simp only [if_apply]
        split
        · trivial
        · cases body with
          | none => trivial
          | some body =>
              refine (gives_send body w').bind fun err' w'' => ?_
              simp only [if_apply]
              split <;> trivial
  | sendWebSocketData body =>
      refine Res.Makes.bind ?_ fun _ _ => trivial
      refine Res.Makes.bind ((gives_send _ w).bind fun _ _ => trivial) fun sent w' => ?_
      cases sent with
      | false => trivial
      | true => exact (gives_send body w').bind fun _ _ => trivial
  | acceptWebSocket header data =>
      refine Res.Makes.bind ?_ fun _ _ => trivial
      simp only [HTTPSession.acceptWebSocket]
      rcases header.getHeaderValue data HTTPSession.keyName with _ | _ | key
      · exact ⟨Bool.false_ne_true, fun a => a.elim⟩
      · trivial
      · simp only [if_apply, bind_apply, get_apply, Res.bind_done]
        split
        · trivial
        · cases w.crypto.sha1 (key ++ HTTPSession.KEY_BUFFER) with
          | none => trivial
          | some sha1sum =>
              dsimp only
              cases w.crypto.base64Encode sha1sum with
              | none => trivial
              | some buffer =>
                  simp only [if_apply]
                  split
                  · trivial
                  · refine (gives_send _ w).bind fun err w' => ?_
                    simp only [if_apply]
                    split <;> trivial
  | _ => cases he

/-! ### The ledger -/

/-- What a ledger shows of the bytes that have been written: `none` when it is not known. -/
def Shows (crypto : Crypto) (bytes : Option (List UInt8)) (w : World) : Prop :=
  w.crypto = crypto ∧ ∀ xs ∈ bytes, Tls.written w.tls.log = xs

/-- The message has been sent, and the session has not been lost meanwhile. -/
def Delivered (r : Reentrant.Record World Entry Call Result) : Prop :=
  r.result = .bool true ∧ r.after.tls.IsOpen

open Classical in
/-- The entry that an invocation makes. -/
noncomputable def book (crypto : Crypto) (r : Reentrant.Record World Entry Call Result)
    (bytes : Option (List UInt8)) : Option (List UInt8) :=
  match r.entry.text crypto with
  | none => bytes
  | some text => if Delivered r then bytes.map (· ++ text) else none

/-- **The messages of a session make up a ledger of what it has written.** -/
theorem ledger (crypto : Crypto) :
    contract.Ledger Entry.run (fun _ e before r after => e.sends = true → Booked e before r after)
      (Shows crypto) (book crypto) (fun e => e.sends = true) (fun c => c.isData = true)
      fun c => c.isOutput = false where
  alone := fun hok he => hok.2 he
  waits := fun w he => gives_sends he w
  silent := by
    intro e w he
    refine Res.Within.mono (mute_entry (Bool.eq_false_iff.2 he) w) ?_ fun _ hc => hc
    rintro w w' h m ⟨hcrypto, hshown⟩
    exact ⟨h.crypto.trans hcrypto, fun xs hxs => h.tls.written.trans (hshown xs hxs)⟩
  idle := by
    intro r m he
    have htext : r.entry.text crypto = none := by
      cases hr : r.entry with
      | sendHttpReply | sendWebSocketData | acceptWebSocket =>
          rw [hr] at he
          exact absurd rfl he
      | _ => rfl
    rw [book, htext]
  advance := by
    rintro r m he hpost ⟨rfl, hshown⟩
    have hbooked := hpost he
    refine ⟨hbooked.crypto, fun xs hxs => ?_⟩
    cases htext : r.entry.text r.before.crypto with
    | none =>
        rw [book, htext] at hxs
        exact (hbooked.silent htext).trans (hshown xs hxs)
    | some text =>
        rw [book, htext] at hxs
        dsimp only at hxs
        split at hxs
        · rename_i hdelivered
          obtain ⟨ys, hys, rfl⟩ := Option.mem_map.1 hxs
          rw [hbooked.message text htext hdelivered.2 hdelivered.1, hshown ys hys]
        · cases hxs

/-- The ledger of a history whose messages have all been sent. -/
theorem booked_of_delivered {crypto : Crypto}
    {history : List (Reentrant.Record World Entry Call Result)}
    (h : ∀ r ∈ history, (r.entry.text crypto).isSome → Delivered r) (bytes : List UInt8) :
    Reentrant.Contract.booked (book crypto) (some bytes) history =
      some (bytes ++ history.flatMap fun r => (r.entry.text crypto).getD []) := by
  induction history generalizing bytes with
  | nil => exact congrArg some (List.append_nil bytes).symm
  | cons r history ih =>
      have hrest := ih fun r hr => h r (List.mem_cons_of_mem _ hr)
      rw [Reentrant.Contract.booked, List.foldl_cons, List.flatMap_cons, ← List.append_assoc]
      cases htext : r.entry.text crypto with
      | none =>
          rw [book, htext, Option.getD_none, List.append_nil]
          exact hrest bytes
      | some text =>
          rw [book, htext, Option.getD_some]
          dsimp only
          rw [if_pos (h r List.mem_cons_self (by rw [htext]; rfl)), Option.map_some]
          exact hrest (bytes ++ text)

/-- **The ledger of a run shows what has been written.** -/
theorem shown (crypto : Crypto) (setup : Tls.Setup) (arg : Option ℕ) (tls : Bool)
    (op : WebSocket.WebSocketOperation) (key : Fin 4 → UInt8)
    (buffer : Buffer WebSocket.MAX_WEBSOCKET_HEADER) {moves : List Move} {c : Config}
    (hrun : Reentrant.run Entry.run Orderly moves
      (.start (.start crypto setup arg tls op key buffer)) = some c)
    (hpending : ∀ x ∈ c.pending, x.isData = true) :
    Shows crypto (Reentrant.Contract.booked (book crypto) (some []) c.history) c.state := by
  have hgood : contract.good [] (.start crypto setup arg tls op key buffer) := by
    rintro ⟨c, hc, -⟩
    cases hc
  have hstart : Shows crypto (some []) (.start crypto setup arg tls op key buffer) := by
    refine ⟨rfl, ?_⟩
    rintro xs ⟨⟩
    cases arg <;> rfl
  exact (ledger crypto).run sound hgood hstart hrun hpending

end Outgoing

/-! ### The result -/

/-- **What has been written is what has been sent, in order**: in every run of a session whose
application does not send in `on_sent`, and at each of its ends at which no method that sends is
waiting, the bytes that have been passed to `altcp_write` are the messages that have been sent, one
after the other, if each of them has been sent with the session still open when it had been. -/
theorem written_in_order (crypto : Crypto) (setup : Tls.Setup) (arg : Option ℕ) (tls : Bool)
    (op : WebSocket.WebSocketOperation) (key : Fin 4 → UInt8)
    (buffer : Buffer WebSocket.MAX_WEBSOCKET_HEADER) {moves : List Move} {c : Config}
    (hrun : Reentrant.run Entry.run Orderly moves
      (.start (.start crypto setup arg tls op key buffer)) = some c)
    (hpending : ∀ x ∈ c.pending, x.isData = true)
    (hsent : ∀ r ∈ c.history, (r.entry.text crypto).isSome →
      r.result = .bool true ∧ r.after.tls.IsOpen) :
    Tls.written c.state.tls.log = c.history.flatMap fun r => (r.entry.text crypto).getD [] := by
  have hshown := Outgoing.shown crypto setup arg tls op key buffer hrun hpending
  rw [Outgoing.booked_of_delivered hsent] at hshown
  exact hshown.2 _ rfl

/-- A WebSocket is accepted, and then a frame is sent at the top level. -/
def frameMoves : List Move :=
  upgrade [] ++ [.enter (.sendWebSocketData [1, 2]),
    .answer (.lwip (.altcpWrite (some 1) [0x82, 2])) .ERR_OK,
    .answer (.lwip (.altcpOutput (some 1))) .ERR_OK,
    .answer (.lwip (.altcpWrite (some 1) [1, 2])) .ERR_OK,
    .answer (.lwip (.altcpOutput (some 1))) .ERR_OK]

/-- The reply and a frame behind it. -/
theorem written_in_order_example :
    ∃ c : Config, Reentrant.run Entry.run Orderly frameMoves (.start listening) = some c ∧
      Tls.written c.state.tls.log = HTTPSession.acceptReply acceptKey ++ [0x82, 2, 1, 2] := by
  have hrun : ((Reentrant.run Entry.run Orderly frameMoves (.start listening)).any fun c =>
      c.pending = [] ∧ (∀ r ∈ c.history, (r.entry.text listening.crypto).isSome →
        r.result = .bool true ∧ r.after.tls.IsOpen) ∧
      (c.history.flatMap fun r => (r.entry.text listening.crypto).getD []) =
        HTTPSession.acceptReply acceptKey ++ [0x82, 2, 1, 2]) = true := by
    decide +kernel
  obtain ⟨c, hc, hsent⟩ := (Option.any_eq_true _ _).1 hrun
  obtain ⟨hpending, hsent, htexts⟩ := of_decide_eq_true hsent
  have hwritten := written_in_order _ _ _ _ _ _ _ hc (by
    rw [hpending]
    exact fun x hx => absurd hx List.not_mem_nil) hsent
  exact ⟨c, hc, hwritten.trans htexts⟩

/-- The application sends a frame in `on_sent`, which it is told of between the two parts of
another. -/
def tornMoves : List Move :=
  upgrade [] ++ [.enter (.sendWebSocketData [1, 2]),
    .answer (.lwip (.altcpWrite (some 1) [0x82, 2])) .ERR_OK, .enter (.lwipSent 1 5),
    .answer (.lwip (.altcpOutput (some 1))) .ERR_OK, .enter (.sendWebSocketData [3]),
    .answer (.lwip (.altcpWrite (some 1) [0x82, 1])) .ERR_OK,
    .answer (.lwip (.altcpOutput (some 1))) .ERR_OK,
    .answer (.lwip (.altcpWrite (some 1) [3])) .ERR_OK,
    .answer (.lwip (.altcpOutput (some 1))) .ERR_OK, .answer (.onSent 5) true,
    .answer (.lwip (.altcpWrite (some 1) [1, 2])) .ERR_OK,
    .answer (.lwip (.altcpOutput (some 1))) .ERR_OK]

-- what is sent in `on_sent` goes into the frame that is being sent, and all is reported as sent
example : ((Reentrant.run Entry.run Proper tornMoves (.start listening)).any fun c =>
    c.pending = [] ∧ (∀ r ∈ c.history, (r.entry.text listening.crypto).isSome →
      r.result = .bool true ∧ r.after.tls.IsOpen) ∧
    Tls.written c.state.tls.log =
      HTTPSession.acceptReply acceptKey ++ [0x82, 2] ++ [0x82, 1, 3] ++ [1, 2]) = true := by
  decide +kernel

end Http
