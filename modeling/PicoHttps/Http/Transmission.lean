/-
**A request with its session is a request.**

With the session that it owns, and whatever the application, lwIP and the resolver do meanwhile, a
request behaves as the plain object does that is called once after another: the calls that have
returned are calls of the plain object, with what it returns, and the bytes that have been passed to
`altcp_write` are those that it transmits.  The methods that send and connect leave the object as it
is, unless they delete it.

Main definitions:

* `Http.Client.told` — the call of the plain request that an invocation is;
* `Http.Client.Reliable` — lwIP takes what it is given;
* `Http.Client.Same`, `Http.Client.Kept`, `Http.Client.Later` — the request is as it was, nothing
  has been written, and no session has been opened.

Main results:

* `Http.Client.spec_onConnected` — what `on_connected` passes on;
* `Http.Client.sound` — the methods do what the calls do that they are;
* `Http.Client.ledger` — the calls make up a ledger of what has been written;
* `Http.Client.refines_request` — **what is written is what the plain request transmits**, in every
  run.
-/

import PicoHttps.Basics.Ledger
import PicoHttps.Http.Client
import PicoHttps.Http.Exchange
import PicoHttps.Http.Received
import PicoHttps.Tls.Outgoing

set_option relaxedAutoImplicit false
set_option autoImplicit false

namespace Http.Client

open Reentrant (Res)
open Reentrant.Prog

/-! ### The request as it was -/

/-- The request is as it was, but for its state; it has failed if it had. -/
structure Same (r r' : HTTPRequest) : Prop where
  eq : r' = { r with state := r'.state }
  failed : r'.state = .FAIL ↔ r.state = .FAIL

theorem Same.refl (r : HTTPRequest) : Same r r := ⟨rfl, Iff.rfl⟩

theorem Same.trans {r r' r'' : HTTPRequest} (h : Same r r') (h' : Same r' r'') : Same r r'' := by
  refine ⟨?_, h'.failed.trans h.failed⟩
  have heq := h'.eq
  rw [h.eq] at heq
  exact heq

/-- **A call does not depend on the state** of a request, but for whether it has failed. -/
theorem call_state {r : HTTPRequest} {s : HTTPSessionState} (hs : s = .FAIL ↔ r.state = .FAIL)
    (c : HTTPRequest.Call) : { r with state := s }.call c =
      (r.call c).map fun out => (out.1, out.2.1, { out.2.2 with state := s }) := by
  have hprint : ∀ (r : HTTPRequest) text limit, { r with state := s }.print text limit =
      (r.print text limit).map fun out => (out.1, { out.2 with state := s }) := by
    intro r text limit
    simp only [HTTPRequest.print, Option.bind_eq_bind]
    cases r.header.snprintf r.headerIndex (MAX_HEADER_SIZE - r.headerIndex) text with
    | none => rfl
    | some out =>
        simp only [Option.bind_some]
        split <;> rfl
  cases c with
  | addHeader header value =>
      simp only [HTTPRequest.call, HTTPRequest.addHeader, hs, hprint]
      split
      · rfl
      · split
        · rfl
        · cases r.print (HTTPRequest.headerLine header value) MAX_HEADER_SIZE <;> rfl
  | setBody data =>
      have hbody := hprint { r with body := some data } (HTTPRequest.contentLength data) MAX_HEADER_SIZE
      simp only [HTTPRequest.call, HTTPRequest.setBody, hs]
      split
      · rfl
      · split
        · rfl
        · split
          · rfl
          · rw [hbody]
            cases HTTPRequest.print { r with body := some data } (HTTPRequest.contentLength data)
              MAX_HEADER_SIZE <;> rfl
  | send err =>
      simp only [HTTPRequest.call, HTTPRequest.send, hs, Option.bind_eq_bind]
      split
      · rfl
      · split
        · rfl
        · split
          · rfl
          · cases (⟨r.header, r.headerIndex⟩ : Buffer.Cursor _).putAll [0x0d, 0x0a, 0] with
            | none => rfl
            | some c =>
                simp only [Option.bind_some]
                cases Text.stringAt c.buffer.bytes 0 <;> rfl
  | onConnected =>
      rw [HTTPRequest.call, HTTPRequest.call, Option.map_map]
      rfl

theorem Same.call {r r' r₁ : HTTPRequest} (h : Same r r') {c : HTTPRequest.Call}
    {outs : List HTTPRequest.Out} {ok : Bool} (hcall : r'.call c = some (outs, ok, r₁)) :
    ∃ r₂, r.call c = some (outs, ok, r₂) ∧ Same r₂ r₁ := by
  rw [h.eq, call_state h.failed] at hcall
  obtain ⟨⟨outs', ok', r₂⟩, hr₂, hout⟩ := Option.map_eq_some_iff.1 hcall
  cases hout
  refine ⟨r₂, hr₂, rfl, ?_⟩
  rw [HTTPRequest.call_state hr₂]
  exact h.failed

/-! ### Code that writes nothing -/

/-- **The request is as it was** as long as it is there. -/
structure Still (w w' : World) : Prop where
  deleted : .deleted ∈ w.log → .deleted ∈ w'.log
  same : .deleted ∉ w'.log → Same w.request w'.request

section still

variable {α β : Type} {w₀ w w' w'' : World}

theorem Still.refl (w : World) : Still w w := ⟨id, fun _ => .refl _⟩

theorem Still.trans (h : Still w w') (h' : Still w' w'') : Still w w'' where
  deleted := fun hw => h'.deleted (h.deleted hw)
  same := fun hnot => (h.same fun hw => hnot (h'.deleted hw)).trans (h'.same hnot)

/-- Only the log has grown, and the session has changed. -/
theorem Still.grown (h : Still w₀ w) (hrequest : w'.request = w.request) (hlog : w.log <+: w'.log) :
    Still w₀ w' where
  deleted := fun hw => hlog.subset (h.deleted hw)
  same := fun hnot => hrequest ▸ h.same fun hw => hnot (hlog.subset hw)

/-- Nothing has been written. -/
structure Kept (w w' : World) : Prop where
  still : Still w w'
  tls : Tls.Unwritten w.tls w'.tls

theorem Kept.refl (w : World) : Kept w w := ⟨.refl w, rfl⟩

theorem Kept.trans (h : Kept w w') (h' : Kept w' w'') : Kept w w'' :=
  ⟨h.still.trans h'.still, h.tls.trans h'.tls⟩

theorem Kept.grown (h : Kept w₀ w) (hrequest : w'.request = w.request) (hlog : w.log <+: w'.log)
    (htls : w'.tls = w.tls) : Kept w₀ w' :=
  ⟨h.still.grown hrequest hlog, htls ▸ h.tls⟩

/-- Nothing has been written, and a session that is open now was open before. -/
structure Later (w w' : World) : Prop where
  still : Still w w'
  tls : Tls.Later w.tls w'.tls

theorem Later.refl (w : World) : Later w w := ⟨.refl w, .refl _⟩

theorem Later.trans (h : Later w w') (h' : Later w' w'') : Later w w'' :=
  ⟨h.still.trans h'.still, h.tls.trans h'.tls⟩

theorem Later.grown (h : Later w₀ w) (hrequest : w'.request = w.request) (hlog : w.log <+: w'.log)
    (htls : w'.tls = w.tls) : Later w₀ w' :=
  ⟨h.still.grown hrequest hlog, htls ▸ h.tls⟩

theorem Later.kept (h : Later w w') : Kept w w' := ⟨h.still, h.tls.written⟩

/-- The deletion of the request, up to the call of the callback object. -/
theorem later_deleted (w : World) : Later w ((w.emit .deleted).set fun r => { r with body := none })
    where
  still := ⟨fun h => List.mem_append_left _ h, fun hnot => absurd (List.mem_append_right _
    (List.mem_singleton_self _)) hnot⟩
  tls := .refl _

/-- The calls of code that writes nothing; `data` tells whether it may hand on data. -/
def Call.Milder (data : Bool) (c : Call) : Prop :=
  c.isOutput = false ∧ (c.isData = true → data = true)

/-- **Code that writes nothing.** -/
abbrev Mute (data : Bool) (w₀ : World) (r : Res World Call Call.Answer α) : Prop :=
  r.Within Kept (Call.Milder data) w₀

variable {data : Bool}

theorem Mute.after {r : Res World Call Call.Answer α} (h : Kept w₀ w) (hr : Mute data w r) :
    Mute data w₀ r := Res.Within.after (fun _ _ _ => Kept.trans) h hr

theorem Mute.bind {r : Res World Call Call.Answer α} {f : α → World → Res World Call Call.Answer β}
    (hr : Mute data w₀ r) (hf : ∀ a w, Mute data w (f a w)) : Mute data w₀ (r.bind f) :=
  Res.Within.bind (R := Kept) (fun _ _ _ => Kept.trans) hr hf

theorem mute_call {c : Call} {k : c.Answer → World → Res World Call Call.Answer α}
    (h : Kept w₀ w) (hc : c.Milder data) (hk : ∀ a w', Mute data w' (k a w')) :
    Mute data w₀ (.call c w k) := Res.Within.call h hc hk

theorem milder_of_waits {c : Call} (hc : c.isOutput = false) (hdata : c.isData = false) :
    c.Milder data := ⟨hc, fun h => by rw [hdata] at h; cases h⟩

theorem mute_fault (w : World) : Mute data w ((fault : Prog α) w) :=
  mute_call (.refl w) (milder_of_waits rfl rfl) fun a _ => a.elim

/-- Code of the session that writes nothing, if what handles its calls does not, either. -/
theorem mute_link {handle : (c : Tls.Call) → Prog c.Answer}
    (hhandle : ∀ c, c.isMute = true → ∀ w, Mute data w (handle c w))
    {r : Res Tls.World Tls.Call Tls.Call.Answer α}
    (hr : r.Within Tls.Unwritten (fun c => c.isMute = true) w.tls) :
    Mute data w (r.link tlsPart handle w) :=
  Res.Within.link (L := tlsPart) (R := Tls.Unwritten) (Q := Kept) (fun _ _ _ => Kept.trans)
    (fun {w _} h => ⟨(Still.refl w).grown rfl (List.prefix_refl _), h⟩) hhandle hr

theorem mute_lwip (c : Tls.Call) (hc : c.isMute = true) (w : World) : Mute data w (lwip c w) :=
  mute_call (.refl w) (milder_of_waits (Tls.isOutput_of_isMute hc) rfl) fun _ w' => .refl w'

/-- `Session::~Session` calls nobody. -/
theorem destroySession_done (w : World) :
    ∃ s, destroySession w = .done () (w.setTls s) ∧ Later w (w.setTls s) := by
  simp only [destroySession, bind_apply, get_apply, if_apply, modify_apply, pure_apply,
    Res.bind_done]
  split
  · have hnobody : (w.tls.set fun s => { s with callback := false }).session.callback = false := rfl
    obtain ⟨err, s, hclose⟩ := Tls.close_done hnobody
    have hmute := Tls.mute_close (w.tls.set fun s => { s with callback := false })
    rw [hclose] at hmute
    have hlink : Reentrant.Prog.link tlsPart lwip Tls.Session.close
        (w.setTls (w.tls.set fun s => { s with callback := false })) =
        .done err ((w.setTls (w.tls.set fun s => { s with callback := false })).setTls s) :=
      (congrArg (fun r => Res.link tlsPart lwip r _) hclose).trans rfl
    refine ⟨s, (congrArg (fun r => Res.bind r fun _ w' => .done () w') hlink).trans rfl, ?_⟩
    exact ⟨(Still.refl w).grown rfl (List.prefix_refl _), ((Tls.Later.refl _).set id).trans hmute⟩
  · exact ⟨w.tls, rfl, .refl w⟩

/-- The end of the deletion, when the callback object has been told. -/
theorem later_told (c : Call) (w : World) : Later w ((w.emit (.answered c)).setCallback false) :=
  (Later.refl w).grown rfl (List.prefix_append _ _) rfl

theorem destroy_apply (w : World) : destroy w =
    let w' := (w.emit .deleted).set fun r => { r with body := none }
    if w.callback then .call .onRequestDestroyed (w'.emit (.call .onRequestDestroyed)) fun _ w'' =>
      destroySession ((w''.emit (.answered .onRequestDestroyed)).setCallback false)
    else destroySession w' := by
  simp only [destroy, bind_apply, emit_apply, set_apply, get_apply, if_apply, call_apply,
    modify_apply, Res.bind_done, Res.bind_call]
  rfl

theorem mute_destroySession (w : World) : Mute data w (destroySession w) := by
  obtain ⟨s, hdone, hlater⟩ := destroySession_done w
  rw [hdone]
  exact hlater.kept

theorem mute_destroy (w : World) : Mute data w (destroy w) := by
  have hdeleted := (later_deleted w).kept
  rw [destroy_apply]
  dsimp only
  split
  · refine mute_call (hdeleted.grown rfl (List.prefix_append _ _) rfl) (milder_of_waits rfl rfl)
      fun _ w' => ?_
    exact .after (later_told _ w').kept (mute_destroySession _)
  · exact .after hdeleted (mute_destroySession _)

theorem mute_handleSending (c : Tls.Call) (hc : c.isMute = true) (w : World) :
    Mute data w (handleSending c w) := by
  cases c with
  | onConnected | altcpWrite | altcpOutput => cases hc
  | onRecv => exact mute_fault w
  | onSent => exact Kept.refl w
  | onClosed => exact mute_destroy w
  | dnsGethostbyname | altcpNew | altcpConnect => exact mute_lwip _ rfl w

theorem mute_connection {x : Tls.Prog α} {w : World}
    (hx : (x w.tls).Within Tls.Unwritten (fun c => c.isMute = true) w.tls) :
    Mute data w (connection x w) := mute_link mute_handleSending hx

theorem mute_notify (c : Call) (accepts : c.Answer → Bool) (hc : c.isOutput = false) (w : World) :
    Mute true w (notify c accepts w) := by
  simp only [notify, bind_apply, get_apply, if_apply, call_apply, pure_apply, Res.bind_done,
    Res.bind_call]
  split
  · exact mute_call ((Kept.refl w).grown rfl (List.prefix_append _ _) rfl) ⟨hc, fun _ => rfl⟩ fun _ w' =>
      (Kept.refl w').grown rfl (List.prefix_append _ _) rfl
  · exact Kept.refl w

theorem mute_onRecvHeader (data : List UInt8) {w : World} (hstate : w.request.state = .INIT) :
    Mute true w (onRecvHeader data w) := by
  rw [onRecvHeader]
  rcases HTTPHeader.new.parse data with _ | ⟨parsed, header, data⟩
  · exact mute_fault w
  · simp only [if_apply, bind_apply, set_apply, pure_apply, Res.bind_done]
    have hset : Kept w (w.set fun r => { r with state := .HEADER_RECEIVED }) := by
      refine ⟨⟨id, fun _ => ⟨rfl, ?_⟩⟩, rfl⟩
      rw [hstate]
      exact iff_of_false (by simp) (by simp)
    split
    · exact Kept.refl w
    · refine .after hset ((mute_notify _ _ rfl _).bind fun accepted w' => ?_)
      split
      · exact Kept.refl w'
      · split
        · exact mute_fault w'
        · split
          · exact mute_notify (.onHttpData _) id rfl w'
          · exact Kept.refl w'

/-- **`on_recv` writes nothing**, and changes only the state of the request. -/
theorem mute_onRecv (data : List UInt8) (w : World) : Mute true w (onRecv data w) := by
  have hrecv : Kept w (w.emit (.onRecv data)) :=
    (Kept.refl w).grown rfl (List.prefix_append _ _) rfl
  refine .after hrecv ?_
  simp only [onRecv, bind_apply, emit_apply, get_apply, Res.bind_done, World.emit_request]
  cases hstate : w.request.state with
  | INIT => exact mute_onRecvHeader data hstate
  | HEADER_RECEIVED => exact mute_notify _ _ rfl _
  | WEBSOCKET_ESTABLISHED | FAIL => exact Kept.refl _

theorem mute_handle (c : Tls.Call) (hc : c.isMute = true) (w : World) :
    Mute true w (handle c w) := by
  cases c with
  | onRecv data => exact mute_onRecv data w
  | onConnected | altcpWrite | altcpOutput => cases hc
  | onSent | onClosed | dnsGethostbyname | altcpNew | altcpConnect =>
      exact mute_handleSending _ hc w

theorem mute_session {x : Tls.Prog α} {w : World}
    (hx : (x w.tls).Within Tls.Unwritten (fun c => c.isMute = true) w.tls) :
    Mute true w (session x w) := mute_link mute_handle hx

end still

/-! ### The contract -/

/-- lwIP does not take what it is given. -/
def Move.fails : Move → Bool
  | .answer (.lwip c) a => Tls.Move.fails (.answer c a)
  | _ => false

/-- **The moves of surroundings in which lwIP takes what it is given.** -/
def Reliable (pending : List Call) (w : World) (m : Move) : Prop :=
  Proper pending w m ∧ m.fails = false

instance : ∀ pending w m, Decidable (Reliable pending w m) :=
  fun _ _ _ => inferInstanceAs (Decidable (_ ∧ _))

/-- `m_processing` is set whenever a call of `altcp` waits, and while a call waits that does not hand
on data, nothing is written, no session is opened, and the request stays as it is. -/
def contract : Reentrant.Contract World Entry Call Call.Answer :=
  .ofKinds Reliable Call.isOutput Call.isData (fun w => w.tls.session.processing = true) Later

instance : ∀ pending w m, Decidable (contract.ok pending w m) :=
  inferInstanceAs (∀ pending w m, Decidable (Reliable pending w m))

section contract

variable {α : Type} {below : List Call} {w w' : World}

/-- The contract is kept by code that runs while the calls `below` wait. -/
abbrev Spec (below : List Call) (post : α → World → Prop) : Res World Call Call.Answer α → Prop :=
  contract.Spec below post

theorem spec_fault {post : α → World → Prop} : Spec below post ((fault : Prog α) w) :=
  Reentrant.Contract.spec_waits rfl rfl fun a _ _ => a.elim

theorem spec_destroy (w : World) : Spec below (fun _ w' => Later w w') (destroy w) := by
  have hdeleted := later_deleted w
  rw [destroy_apply]
  dsimp only
  split
  · refine Reentrant.Contract.spec_waits rfl rfl fun _ w' hlater => ?_
    obtain ⟨s, hdone, hlater'⟩ :=
      destroySession_done ((w'.emit (.answered .onRequestDestroyed)).setCallback false)
    rw [hdone]
    have hcalled : Later w (((w.emit .deleted).set fun r => { r with body := none }).emit
        (.call .onRequestDestroyed)) := hdeleted.grown rfl (List.prefix_append _ _) rfl
    exact (hcalled.trans hlater).trans ((later_told _ w').trans hlater')
  · obtain ⟨s, hdone, hlater'⟩ :=
      destroySession_done ((w.emit .deleted).set fun r => { r with body := none })
    rw [hdone]
    exact hdeleted.trans hlater'

/-! ### Sending -/

/-- No call of `altcp` fails. -/
abbrev Takes (_ : List Tls.Call) (_ : Tls.World) (m : Tls.Move) : Prop := m.fails = false

/-- What becomes of a call of `send`. -/
theorem spec_handleSending (c : Tls.Call) (w : World) (s : Tls.World)
    (hgood : (Tls.Outgoing.contract Takes).good [c] s) :
    Spec below (fun a w' => Still w w' ∧ (Tls.Outgoing.contract Takes).good [c] w'.tls ∧
        Tls.Later s w'.tls ∧ Tls.Move.fails (.answer c a) = false)
      (handleSending c (w.setTls s)) := by
  obtain ⟨hdelivers, hprocessing⟩ := hgood c rfl
  have hset : Still w (w.setTls s) := (Still.refl w).grown rfl (List.prefix_refl _)
  have hpassed : ∀ {w' : World} {a : c.Answer},
      (c.isOutput = true → w'.tls.session.processing = true) →
      Tls.Move.fails (.answer c a) = false → Later (w.setTls s) w' →
      Still w w' ∧ (Tls.Outgoing.contract Takes).good [c] w'.tls ∧ Tls.Later s w'.tls ∧
        Tls.Move.fails (.answer c a) = false := by
    intro w' a hprocessing' hfails hlater
    refine ⟨hset.trans hlater.still, fun c' hc' => ?_, hlater.tls, hfails⟩
    obtain rfl : c = c' := Option.some.inj hc'
    exact ⟨hdelivers, hprocessing'⟩
  cases c with
  | onConnected | onRecv => cases hdelivers
  | onSent => exact hpassed (fun h => by cases h) rfl (.refl _)
  | onClosed =>
      exact (spec_destroy _).mono fun _ _ hlater => hpassed (fun h => by cases h) rfl hlater
  | altcpWrite | altcpOutput =>
      exact Reentrant.Contract.spec_out rfl rfl (hprocessing rfl)
        fun _ w' hlater hprocessing' hok => hpassed (fun _ => hprocessing') hok.2 hlater
  | dnsGethostbyname | altcpNew | altcpConnect =>
      exact Reentrant.Contract.spec_waits rfl rfl fun _ w' hlater =>
        hpassed (fun h => by cases h) rfl hlater

/-- **What `m_connection.send` passes on.** -/
theorem spec_send (data : List UInt8) (w : World) :
    Spec below (fun _ w' => Still w w' ∧ Tls.Sent w.tls data True w'.tls)
      (connection (Tls.Session.send (some data)) w) := by
  have hsend := Tls.Outgoing.spec_send Takes data w.tls
  refine (hsend.link (L := tlsPart) (P := fun w' => Still w w') ?_ (.refl w)).mono ?_
  · intro c w₁ s hw₁ hgood
    exact (spec_handleSending c w₁ s hgood).mono fun _ w' h => ⟨hw₁.trans h.1, h.2⟩
  · rintro err w' ⟨w₁, s, hw₁, hsent, rfl⟩
    refine ⟨hw₁.grown rfl (List.prefix_refl _), hsent.opened, fun hopen _ => ?_⟩
    exact hsent.written hopen (.inr fun _ _ _ h => h)

/-- **What `on_connected` passes on**, if the session is still open and the request still there. -/
theorem spec_onConnected (w : World) :
    Spec below (fun _ w' => Still w w' ∧ (w'.tls.IsOpen → .deleted ∉ w'.log →
      ∃ outs, w.request.onConnected = some outs ∧ Tls.written w'.tls.log =
        Tls.written w.tls.log ++ outs.flatMap HTTPRequest.Out.data)) (onConnected w) := by
  have hplain : w.request.onConnected = if w.request.headerIndex < w.request.headerStart + 1 then
      none else (w.request.header.slice w.request.headerStart
        (w.request.headerIndex - w.request.headerStart - 1)).map fun header =>
          .send header :: w.request.body.elim [] fun data =>
            if 0 < data.bytes.length then [.send data.bytes] else [] := by
    rw [HTTPRequest.onConnected]
    split
    · rfl
    · cases w.request.header.slice w.request.headerStart
        (w.request.headerIndex - w.request.headerStart - 1) with
      | none => rfl
      | some header => cases w.request.body <;> rfl
  simp only [onConnected, bind_apply, get_apply, if_apply, Res.bind_done]
  split
  · exact spec_fault
  · rename_i hindex
    rw [if_neg hindex] at hplain
    cases hslice : w.request.header.slice w.request.headerStart
        (w.request.headerIndex - w.request.headerStart - 1) with
    | none => exact spec_fault
    | some header =>
        rw [hslice, Option.map_some] at hplain
        refine (spec_send header w).bind fun err w₁ h => ?_
        obtain ⟨hstill, hsent⟩ := h
        -- the body is still there, if the request is
        have hbody : ∀ {w' : World}, Still w₁ w' → .deleted ∉ w'.log →
            w₁.request.body = w.request.body := by
          intro w' hstill' hnot
          rw [(hstill.same fun hdeleted => hnot (hstill'.deleted hdeleted)).eq]
        simp only [bind_apply, get_apply, Res.bind_done]
        cases hw₁ : w₁.request.body with
        | none =>
            refine ⟨hstill, fun hopen hnot => ⟨_, hplain, ?_⟩⟩
            rw [← hbody (.refl w₁) hnot, hw₁]
            simpa [HTTPRequest.Out.data] using hsent.written hopen trivial
        | some data =>
            simp only [if_apply]
            split
            · rename_i hdata
              refine ((spec_send data.bytes w₁).bind fun err w₂ h => ?_)
              obtain ⟨hstill₂, hsent₂⟩ := h
              refine ⟨hstill.trans hstill₂, fun hopen hnot => ⟨_, hplain, ?_⟩⟩
              rw [← hbody hstill₂ hnot, hw₁]
              simpa [HTTPRequest.Out.data, hdata] using
                (hsent.trans trivial hsent₂).written hopen trivial
            · rename_i hdata
              refine ⟨hstill, fun hopen hnot => ⟨_, hplain, ?_⟩⟩
              rw [← hbody (.refl w₁) hnot, hw₁]
              simpa [HTTPRequest.Out.data, hdata] using hsent.written hopen trivial

end contract

/-! ### The calls of the plain request -/

/-- What `connect` has returned, as far as `send` tells: it returns `false` for any error. -/
def connectErr (ok : Bool) : Tls.Err := if ok then .ERR_OK else .ERR_INPROGRESS

/-- **The call of the plain request that an invocation is.** -/
def called (x : Record) : Option HTTPRequest.Call :=
  match x.entry with
  | .addHeader header value => some (.addHeader header value)
  | .setBody data => some (.setBody data)
  | .send => some (.send (connectErr (x.result ≠ .bool false)))
  | .lwipConnected _ .ERR_OK =>
    if x.before.tls.session.callback then some .onConnected else none
  | _ => none

/-- That call, with what the plain request does in it, and what the invocation has returned. -/
def told (x : Record) : Option HTTPRequest.Entry :=
  (called x).map fun c =>
    ⟨c, ((x.before.request.call c).map Prod.fst).getD [], x.result ≠ .bool false⟩

/-- lwIP has connected the session. -/
def Entry.connects : Entry → Bool
  | .lwipConnected _ err => err = .ERR_OK
  | _ => false

/-- The methods that are calls of the plain request. -/
def Entry.books : Entry → Bool
  | .addHeader _ _ | .setBody _ | .send => true
  | e => e.connects

/-- After `on_connected` the request is still there, with its session open. -/
def Delivered (x : Record) : Prop :=
  x.entry.connects = true → x.after.tls.IsOpen ∧ .deleted ∉ x.after.log

instance : ∀ x, Decidable (Delivered x) := fun _ => inferInstanceAs (Decidable (_ → _ ∧ _))

/-- What is done is a call of the plain request. -/
structure Refines (e : HTTPRequest.Entry) (w w' : World) : Prop where
  there : .deleted ∉ w.log
  call : ∃ r, w.request.call e.call = some (e.outs, e.ok, r) ∧
    (.deleted ∉ w'.log → Same r w'.request) ∧
    Tls.written w'.tls.log = Tls.written w.tls.log ++ e.outs.flatMap HTTPRequest.Out.data

/-- An invocation is the call that it should be, or nothing is written. -/
def Recorded (x : Record) : Prop :=
  match told x with
  | none => Kept x.before x.after
  | some e => Refines e x.before x.after

theorem recorded_of_refines {x : Record} {c : HTTPRequest.Call} {outs : List HTTPRequest.Out}
    {ok : Bool} (hcalled : called x = some c) (hok : decide (x.result ≠ .bool false) = ok)
    (h : Refines ⟨c, outs, ok⟩ x.before x.after) : Recorded x := by
  obtain ⟨r, hcall, -⟩ := h.call
  have htold : told x = some ⟨c, outs, ok⟩ := by
    rw [told, hcalled, Option.map_some, hok, hcall]
    rfl
  rw [Recorded, htold]
  exact h

theorem decide_bool_ne_false (ok : Bool) : decide (Result.bool ok ≠ .bool false) = ok := by
  cases ok <;> rfl

section entries

variable {below : List Call} {w : World}

/-- What is written and kept while only calls wait that do not hand on data. -/
theorem Mute.spec {α : Type} {r : Res World Call Call.Answer α} (h : Mute false w r) :
    Spec below (fun _ w' => Kept w w') r := by
  have hdata : ∀ {c : Call}, c.Milder false → c.isData = false := by
    intro c hc
    cases hdata : c.isData with
    | false => rfl
    | true => exact absurd (hc.2 hdata) Bool.false_ne_true
  refine Reentrant.Contract.spec_of_within (fun _ _ _ => Kept.trans) (fun c w' hc _ => ?_)
    (fun c w' w'' hc hrely => (hrely ⟨c, List.mem_cons_self, hdata hc⟩).kept) h
  rintro ⟨c', hc', houtput⟩
  cases hc'
  rw [hc.1] at houtput
  cases houtput

theorem within_apply (f : HTTPRequest → Option (Bool × HTTPRequest)) :
    within f w = match f w.request with
      | none => fault w
      | some (ok, r) => .done (.bool ok) (w.set fun _ => r) := by
  simp only [within, bind_apply, get_apply, Res.bind_done]
  rcases f w.request with _ | ⟨ok, r⟩ <;> rfl

/-- A method that stays within the object. -/
theorem spec_within {e : Entry} {f : HTTPRequest → Option (Bool × HTTPRequest)}
    {c : HTTPRequest.Call} (hcalled : ∀ r w', called ⟨below, e, w, r, w'⟩ = some c)
    (hcall : w.request.call c = (f w.request).map fun out => ([], out))
    (hthere : .deleted ∉ w.log) :
    Spec below (fun r w' => Recorded ⟨below, e, w, r, w'⟩) (within f w) := by
  rw [within_apply]
  cases hf : f w.request with
  | none => exact spec_fault
  | some out =>
      obtain ⟨ok, r⟩ := out
      rw [hf] at hcall
      refine recorded_of_refines (hcalled _ _) (decide_bool_ne_false ok) ⟨hthere, r, hcall, ?_⟩
      exact ⟨fun _ => .refl r, (List.append_nil _).symm⟩

/-- A `send` that does not come to connect. -/
theorem refines_refused (hthere : .deleted ∉ w.log) (hnot : ¬ w.request.Connects) :
    Refines ⟨.send (connectErr false), [], false⟩ w w where
  there := hthere
  call := ⟨w.request, HTTPRequest.send_refused _ hnot, fun _ => .refl _, (List.append_nil _).symm⟩

/-- **`send` connects the session** of a request that does not refuse it. -/
theorem spec_connect (hthere : .deleted ∉ w.log) :
    Spec below (fun ok w' => ∃ outs, Refines ⟨.send (connectErr ok), outs, ok⟩ w w')
      (Client.send w) := by
  simp only [Client.send, bind_apply, get_apply, if_apply, pure_apply, Res.bind_done]
  split
  · exact ⟨[], refines_refused hthere fun h => h.1 ‹_›⟩
  · split
    · exact ⟨[], refines_refused hthere fun h => h.2.1 ‹_›⟩
    · split
      · exact ⟨[], refines_refused hthere fun h => absurd h.2.2 (Nat.not_lt_of_ge ‹_›)⟩
      · rename_i hstate hport hindex
        cases hput : (⟨w.request.header, w.request.headerIndex⟩ : Buffer.Cursor _).putAll
          [0x0d, 0x0a, 0] with
        | none => exact spec_fault
        | some c =>
            simp only [bind_apply, set_apply, Res.bind_done]
            cases hhost : Text.stringAt c.buffer.bytes 0 with
            | none => exact spec_fault
            | some host =>
                have hcall : ∀ ok, w.request.call (.send (connectErr ok)) =
                    some ([.connect host w.request.port], ok,
                      { w.request with header := c.buffer, headerIndex := c.pos }) := by
                  intro ok
                  rw [HTTPRequest.call, HTTPRequest.send, if_neg hstate, if_neg hport,
                    if_neg hindex, hput]
                  cases ok <;> simp [hhost, connectErr]
                have hconnection : Mute false
                    (w.set fun r => { r with header := c.buffer, headerIndex := c.pos }) _ :=
                  mute_connection (Tls.unwritten_connect host w.request.port.toNat w.tls)
                refine hconnection.spec.bind fun err w' hkept => ?_
                have htls : Tls.written w'.tls.log = Tls.written w.tls.log := hkept.tls
                have hrefines : ∀ ok, ∃ outs, Refines ⟨.send (connectErr ok), outs, ok⟩ w w' :=
                  fun ok => ⟨[.connect host w.request.port], hthere, _, hcall ok,
                    hkept.still.same, htls.trans (List.append_nil _).symm⟩
                dsimp only
                rw [if_apply]
                split
                · exact hrefines false
                · exact hrefines true

/-- The session when it hands on that it is connected. -/
def opened (s : Tls.World) : Tls.World :=
  ((s.callBack .connected).set fun s => { s with connected := true }).emit (.call .onConnected)

theorem connected_apply (pcb : ℕ) (hcallback : w.tls.session.callback = true) :
    session (Tls.Entry.run (.lwipConnected pcb .ERR_OK)) w =
      (onConnected (w.setTls (opened w.tls))).bind fun _ w' =>
        .done .ERR_OK (w'.setTls w'.tls.returned) := by
  have hrun : Tls.Entry.run (.lwipConnected pcb .ERR_OK) w.tls =
      .call .onConnected (opened w.tls) fun _ s => .done .ERR_OK s.returned := by
    refine (Tls.fromLwip_apply .connected _ w.tls).trans ?_
    rw [Tls.Session.lwipConnected_apply, if_neg (not_not.2 rfl)]
    exact congrArg (fun r => Res.bind r _) (if_pos hcallback)
  exact congrArg (fun r => Res.link tlsPart handle r w) hrun

theorem connected_done (pcb : ℕ) (hcallback : w.tls.session.callback = false) :
    session (Tls.Entry.run (.lwipConnected pcb .ERR_OK)) w = .done .ERR_OK (w.setTls
      ((w.tls.callBack .connected).set fun s => { s with connected := true }).returned) := by
  have hrun : Tls.Entry.run (.lwipConnected pcb .ERR_OK) w.tls =
      .done .ERR_OK ((w.tls.callBack .connected).set fun s => { s with connected := true }).returned := by
    refine (Tls.fromLwip_apply .connected _ w.tls).trans ?_
    have hnot : (w.tls.callBack .connected).session.callback ≠ true := by
      rw [Tls.World.callBack, Tls.World.update_session, hcallback]
      exact Bool.false_ne_true
    rw [Tls.Session.lwipConnected_apply, if_neg (not_not.2 rfl), if_neg hnot, Res.bind_done]
  exact congrArg (fun r => Res.link tlsPart handle r w) hrun

/-- **`on_connected` is a call of the plain request.** -/
theorem spec_connected (pcb : ℕ) :
    Spec below (fun r w' => Delivered ⟨below, .lwipConnected pcb .ERR_OK, w, r, w'⟩ →
      Recorded ⟨below, .lwipConnected pcb .ERR_OK, w, r, w'⟩)
      (Entry.run (.lwipConnected pcb .ERR_OK) w) := by
  rw [Entry.run, bind_apply]
  cases hcallback : w.tls.session.callback with
  | false =>
      rw [connected_done pcb hcallback]
      intro _
      have hcalled : ∀ r w', called ⟨below, .lwipConnected pcb .ERR_OK, w, r, w'⟩ = none :=
        fun _ _ => if_neg (by rw [hcallback]; exact Bool.false_ne_true)
      rw [Recorded, told, hcalled]
      exact ⟨(Still.refl w).grown rfl (List.prefix_refl _), rfl⟩
  | true =>
      rw [connected_apply pcb hcallback]
      refine ((spec_onConnected _).bind fun _ w' h => ?_).bind fun a w' h => h
      obtain ⟨hstill, hwritten⟩ := h
      have hentered : Still w (w.setTls (opened w.tls)) :=
        (Still.refl w).grown rfl (List.prefix_refl _)
      have hdone : Still w (w'.setTls w'.tls.returned) :=
        (hentered.trans hstill).grown rfl (List.prefix_refl _)
      intro hdelivered
      obtain ⟨hopen, hnot⟩ := hdelivered rfl
      obtain ⟨outs, houts, hlog⟩ := hwritten hopen hnot
      have hcalled : ∀ r w', called ⟨below, .lwipConnected pcb .ERR_OK, w, r, w'⟩ =
          some .onConnected := fun _ _ => if_pos hcallback
      have hopened : Tls.written (opened w.tls).log = Tls.written w.tls.log :=
        (Tls.written_emit _ _).trans (List.append_nil _)
      have hcall : w.request.call .onConnected = some (outs, true, w.request) :=
        congrArg (Option.map _) houts
      exact recorded_of_refines (hcalled _ _) rfl
        ⟨fun hdeleted => hnot (hdone.deleted hdeleted), w.request, hcall, hdone.same,
          hlog.trans (congrArg (· ++ _) hopened)⟩

/-- A method that is no call of the plain request writes nothing. -/
theorem mute_entry {e : Entry} (he : e.books = false) (w : World) : Mute true w (e.run w) := by
  cases e with
  | addHeader | setBody | send => cases he
  | setHttpCallback callback => exact (Kept.refl w).grown rfl (List.prefix_refl _) rfl
  | dnsCallback host ipaddr =>
      exact Mute.bind (mute_session (Tls.unwritten_dnsCallback host ipaddr _)) fun _ w => .refl w
  | lwipConnected pcb err =>
      have hclose : Tls.Mute w.tls (Tls.Entry.run (.lwipConnected pcb err) w.tls) := by
        refine Tls.mute_fromLwip (fun w => ?_) w.tls
        rw [Tls.Session.lwipConnected_apply, if_pos (of_decide_eq_false he)]
        exact Tls.mute_close w
      exact Mute.bind (mute_session hclose.unwritten) fun _ w => .refl w
  | lwipRecv pcb p err =>
      have hrecv := Tls.mute_run (.inr ⟨pcb, p, err, rfl⟩) w.tls
      exact Mute.bind (mute_session hrecv.unwritten) fun _ w => .refl w
  | lwipSent pcb len =>
      have hsent := Tls.mute_run (e := .lwipSent pcb len) (.inl rfl) w.tls
      exact Mute.bind (mute_session hsent.unwritten) fun _ w => .refl w
  | lwipErr pcb =>
      have herr := Tls.mute_run (e := .lwipErr pcb) (.inl rfl) w.tls
      exact Mute.bind (mute_session herr.unwritten) fun _ w => .refl w

theorem isData_eq_false (c : Call) (hc : c.isOutput = true) : c.isData = false := by
  cases c <;> first | rfl | cases hc

/-- The contract asks for nothing while only calls wait that hand on data. -/
theorem kept_of_isData (hdata : ∀ c ∈ below, c.isData = true) (w w' : World) :
    contract.good below w' ∧ contract.rely below w w' :=
  ⟨Reentrant.Contract.good_of_free isData_eq_false hdata, Reentrant.Contract.rely_of_free hdata⟩

/-- **What lwIP reports while it takes data** is taken note of, and no more. -/
theorem settles {x : Tls.Entry} (hx : x.isRaised = true) {c : Call} (hc : c.isOutput = true)
    (hgood : contract.good (c :: below) w) : ∃ err w', session x.run w = .done err w' ∧
      contract.good (c :: below) w' ∧ Later w w' := by
  obtain ⟨err, s, hrun, hprocessing, -, -⟩ := Tls.Sending.raised_run hx (hgood ⟨c, rfl, hc⟩)
  have hlater := Tls.mute_run (.inl hx) w.tls
  rw [hrun] at hlater
  refine ⟨err, w.setTls s, congrArg (fun r => Res.link tlsPart handle r w) hrun,
    fun _ => hprocessing, (Still.refl w).grown rfl (List.prefix_refl _), hlater⟩

/-- Code that writes nothing keeps the contract. -/
theorem Mute.keeps {α : Type} {data : Bool} {r : Res World Call Call.Answer α}
    (h : Mute data w r) : Spec below (fun _ _ => True) r :=
  Reentrant.Contract.spec_of_not_out h fun _ hc => hc.1

/-- A method that is no call of the plain request. -/
theorem spec_mute {e : Entry} (he : e.books = false) (hdata : ∀ c ∈ below, c.isData = true) :
    Spec below (fun _ w' => contract.good below w' ∧ contract.rely below w w') (e.run w) :=
  (mute_entry he w).keeps.mono fun _ w' _ => kept_of_isData hdata w w'

/-- What lwIP reports. -/
theorem spec_raised {e : Entry} {x : Tls.Entry} (hx : x.isRaised = true)
    (hrun : e.run w = (session x.run w).bind fun err w' => .done (.err err) w')
    (he : e.books = false) (hproper : below.head?.all Call.isOutput = true)
    (hgood : contract.good below w) :
    Spec below (fun _ w' => contract.good below w' ∧ contract.rely below w w') (e.run w) := by
  cases below with
  | nil => exact spec_mute he fun c hc => absurd hc List.not_mem_nil
  | cons c below =>
      obtain ⟨err, w', hdone, hgood', hlater⟩ := settles hx hproper hgood
      rw [hrun, hdone]
      exact ⟨hgood', fun _ => hlater⟩

/-- A method that is a call of the plain request. -/
theorem spec_books {e : Entry} (he : e.books = true) (hproper : Proper below w (.enter e)) :
    Spec below (fun r w' => Delivered ⟨below, e, w, r, w'⟩ → Recorded ⟨below, e, w, r, w'⟩)
      (e.run w) := by
  cases e with
  | addHeader header value =>
      have hadd : Spec below (fun r w' => Recorded ⟨below, .addHeader header value, w, r, w'⟩)
          (within (fun r => r.addHeader header value) w) :=
        spec_within (c := .addHeader header value) (fun _ _ => rfl) rfl hproper.2
      exact hadd.mono fun _ _ h _ => h
  | setBody data =>
      have hset : Spec below (fun r w' => Recorded ⟨below, .setBody data, w, r, w'⟩)
          (within (fun r => r.setBody data) w) :=
        spec_within (c := .setBody data) (fun _ _ => rfl) rfl hproper.2
      exact hset.mono fun _ _ h _ => h
  | send =>
      refine (spec_connect hproper.2).bind fun ok w' h _ => ?_
      obtain ⟨outs, h⟩ := h
      have hcalled : called ⟨below, .send, w, .bool ok, w'⟩ = some (.send (connectErr ok)) := by
        rw [called, decide_bool_ne_false]
      exact recorded_of_refines hcalled (decide_bool_ne_false ok) h
  | lwipConnected pcb err =>
      obtain rfl : err = .ERR_OK := of_decide_eq_true he
      exact spec_connected pcb
  | setHttpCallback | dnsCallback | lwipRecv | lwipSent | lwipErr => cases he

/-- The calls that wait when a call of the plain request is made. -/
theorem alone_of_books {e : Entry} (he : e.books = true) (hproper : Proper below w (.enter e)) :
    ∀ c ∈ below, c.isData = true := by
  cases e with
  | addHeader | setBody | send => exact hproper.1
  | lwipConnected =>
      rw [hproper.1]
      exact fun c hc => absurd hc List.not_mem_nil
  | setHttpCallback | dnsCallback | lwipRecv | lwipSent | lwipErr => cases he

end entries

/-- **Every method keeps the contract**, and one that is a call of the plain request does what that
call does. -/
theorem sound : contract.Sound Entry.run fun below e before r after =>
    e.books = true → Delivered ⟨below, e, before, r, after⟩ →
      Recorded ⟨below, e, before, r, after⟩ where
  refl := fun _ w _ => .refl w
  trans := fun _ _ _ _ h h' hwaits => (h hwaits).trans (h' hwaits)
  method := by
    intro below w e hgood hok
    by_cases he : e.books = true
    · have hdata := alone_of_books he hok.1
      refine (spec_books he hok.1).mono fun r w' h => ?_
      obtain ⟨hgood', hrely⟩ := kept_of_isData hdata w w'
      exact ⟨hgood', hrely, fun _ => h⟩
    · have hnot : e.books = false := Bool.eq_false_iff.2 he
      suffices h : Spec below (fun _ w' => contract.good below w' ∧ contract.rely below w w')
          (e.run w) from h.mono fun r w' h => ⟨h.1, h.2, fun hbooks => absurd hbooks he⟩
      have hnil : ∀ {bs : List Call}, bs = [] → ∀ c ∈ bs, c.isData = true := by
        rintro _ rfl c hc
        cases hc
      cases e with
      | addHeader | setBody | send => exact absurd rfl he
      | setHttpCallback => exact spec_mute hnot hok.1.1
      | dnsCallback | lwipConnected | lwipRecv => exact spec_mute hnot (hnil hok.1.1)
      | lwipSent pcb len => exact spec_raised (x := .lwipSent pcb len) rfl rfl hnot hok.1.1 hgood
      | lwipErr pcb => exact spec_raised (x := .lwipErr pcb) rfl rfl hnot hok.1.1 hgood

/-! ### What is not called -/

section gives

variable {α : Type}

/-- Code that hands on no data. -/
abbrev Gives (r : Res World Call Call.Answer α) : Prop := r.Makes fun c => ¬ c.isData = true

theorem gives_destroySession (w : World) : Gives (destroySession w) := by
  obtain ⟨s, hdone, -⟩ := destroySession_done w
  rw [hdone]
  trivial

theorem gives_handleSending (c : Tls.Call) (w : World) : Gives (handleSending c w) := by
  cases c with
  | onClosed =>
      rw [handleSending, onClosed, destroy_apply]
      dsimp only
      split
      · exact ⟨Bool.false_ne_true, fun _ _ => gives_destroySession _⟩
      · exact gives_destroySession _
  | onSent => trivial
  | onConnected | onRecv => exact ⟨Bool.false_ne_true, fun a => a.elim⟩
  | _ => exact ⟨Bool.false_ne_true, fun _ _ => trivial⟩

theorem gives_connection {x : Tls.Prog α} {may : Tls.Call → Prop} {w : World}
    (hx : (x w.tls).Makes may) : Gives (connection x w) :=
  hx.link (fun c _ => gives_handleSending c) w

theorem gives_onConnected (w : World) : Gives (onConnected w) := by
  simp only [onConnected, bind_apply, get_apply, if_apply, Res.bind_done]
  split
  · exact ⟨Bool.false_ne_true, fun a => a.elim⟩
  · cases w.request.header.slice w.request.headerStart
      (w.request.headerIndex - w.request.headerStart - 1) with
    | none => exact ⟨Bool.false_ne_true, fun a => a.elim⟩
    | some header =>
        refine (gives_connection (Tls.gives_send header w.tls)).bind fun _ w' => ?_
        simp only [bind_apply, get_apply, Res.bind_done]
        cases w'.request.body with
        | none => trivial
        | some data =>
            simp only [if_apply]
            split
            · exact (gives_connection (Tls.gives_send data.bytes w'.tls)).bind fun _ _ => trivial
            · trivial

/-- **A call of the plain request hands on no data.** -/
theorem gives_books {e : Entry} (he : e.books = true) (w : World) : Gives (e.run w) := by
  have hwithin : ∀ f : HTTPRequest → Option (Bool × HTTPRequest), Gives (within f w) := by
    intro f
    rw [within_apply]
    cases f w.request with
    | none => exact ⟨Bool.false_ne_true, fun a => a.elim⟩
    | some out => trivial
  cases e with
  | addHeader header value => exact hwithin fun r => r.addHeader header value
  | setBody data => exact hwithin fun r => r.setBody data
  | send =>
      refine Res.Makes.bind ?_ fun _ _ => trivial
      simp only [Client.send, bind_apply, get_apply, if_apply, pure_apply, Res.bind_done]
      split
      · trivial
      · split
        · trivial
        · split
          · trivial
          · cases (⟨w.request.header, w.request.headerIndex⟩ : Buffer.Cursor _).putAll
              [0x0d, 0x0a, 0] with
            | none => exact ⟨Bool.false_ne_true, fun a => a.elim⟩
            | some c =>
                simp only [bind_apply, set_apply, Res.bind_done]
                cases Text.stringAt c.buffer.bytes 0 with
                | none => exact ⟨Bool.false_ne_true, fun a => a.elim⟩
                | some host =>
                    refine (gives_connection (Tls.gives_connect host _ _)).bind fun _ _ => ?_
                    dsimp only
                    rw [if_apply]
                    split <;> trivial
  | lwipConnected pcb err =>
      obtain rfl : err = .ERR_OK := of_decide_eq_true he
      refine Res.Makes.bind ?_ fun _ _ => trivial
      cases hcallback : w.tls.session.callback with
      | false =>
          rw [connected_done pcb hcallback]
          trivial
      | true =>
          rw [connected_apply pcb hcallback]
          exact (gives_onConnected _).bind fun _ _ => trivial
  | setHttpCallback | dnsCallback | lwipRecv | lwipSent | lwipErr => cases he

end gives

/-! ### The ledger -/

/-- **One more call** of the plain request. -/
theorem run_concat {c : HTTPRequest.Call} {outs : List HTTPRequest.Out} {ok : Bool} {r' r'' : HTTPRequest}
    (hcall : r'.call c = some (outs, ok, r'')) (calls : List HTTPRequest.Call) :
    ∀ {r : HTTPRequest} {entries : List HTTPRequest.Entry}, r.run calls = some entries →
      r.after calls = some r' → r.run (calls ++ [c]) = some (entries ++ [⟨c, outs, ok⟩]) ∧
        r.after (calls ++ [c]) = some r'' := by
  induction calls with
  | nil =>
      intro r entries hrun hafter
      obtain rfl := Option.some.inj hafter
      obtain rfl := Option.some.inj hrun
      constructor
      · simp [HTTPRequest.run, hcall]
      · simp [HTTPRequest.after, hcall]
  | cons c' calls ih =>
      intro r entries hrun hafter
      obtain ⟨outs', ok', r₁, rest, hcall', hrest, rfl⟩ := HTTPRequest.run_cons hrun
      rw [HTTPRequest.after, hcall', Option.bind_eq_bind, Option.bind_some] at hafter
      obtain ⟨hrun', hafter'⟩ := ih hrest hafter
      constructor
      · simp [HTTPRequest.run, hcall', hrun']
      · rw [List.cons_append, HTTPRequest.after, hcall', Option.bind_eq_bind, Option.bind_some]
        exact hafter'

/-- **What a ledger shows**: it is a run of the plain request, which transmits what has been written,
and leaves the request as it is, as long as this is there. -/
structure Plays (r₀ : HTTPRequest) (entries : List HTTPRequest.Entry) (w : World) : Prop where
  run : r₀.run (entries.map HTTPRequest.Entry.call) = some entries
  written : Tls.written w.tls.log = HTTPRequest.transmitted entries
  after : ∃ r, r₀.after (entries.map HTTPRequest.Entry.call) = some r ∧
    (.deleted ∉ w.log → Same r w.request)

section plays

variable {r₀ : HTTPRequest} {entries : List HTTPRequest.Entry} {w w' : World}

theorem Plays.keep (h : Plays r₀ entries w) (hw : Kept w w') : Plays r₀ entries w' where
  run := h.run
  written := Eq.trans hw.tls h.written
  after := by
    obtain ⟨r, hafter, hsame⟩ := h.after
    refine ⟨r, hafter, fun hnot => ?_⟩
    exact (hsame fun hdeleted => hnot (hw.still.deleted hdeleted)).trans (hw.still.same hnot)

/-- One more call. -/
theorem Plays.concat (h : Plays r₀ entries w) {e : HTTPRequest.Entry} (hw : Refines e w w') :
    Plays r₀ (entries ++ [e]) w' := by
  obtain ⟨r, hafter, hsame⟩ := h.after
  obtain ⟨r₁, hcall, hsame₁, hwritten⟩ := hw.call
  obtain ⟨r₂, hcall₂, hsame₂⟩ := (hsame hw.there).call hcall
  obtain ⟨hrun', hafter'⟩ := run_concat hcall₂ _ h.run hafter
  refine ⟨?_, ?_, r₂, ?_, fun hnot => hsame₂.trans (hsame₁ hnot)⟩
  · rwa [List.map_append]
  · rw [hwritten, h.written, HTTPRequest.transmitted, HTTPRequest.transmitted, List.flatMap_append]
    exact congrArg _ (List.flatMap_singleton _ _).symm
  · rwa [List.map_append]

end plays

/-- The entry that an invocation makes; `none` when it is not known what has been written. -/
def book (x : Record) (entries : Option (List HTTPRequest.Entry)) :
    Option (List HTTPRequest.Entry) :=
  if Delivered x then entries.map (· ++ (told x).toList) else none

/-- What is no call of the plain request. -/
theorem told_eq_none {x : Record} (h : x.entry.books = false) : told x = none := by
  obtain ⟨below, e, w, r, w'⟩ := x
  refine Option.map_eq_none_iff.2 ?_
  cases e with
  | addHeader | setBody | send => cases h
  | lwipConnected pcb err =>
      have herr : err ≠ .ERR_OK := of_decide_eq_false h
      cases err <;> first | rfl | exact absurd rfl herr
  | setHttpCallback | dnsCallback | lwipRecv | lwipSent | lwipErr => rfl

theorem books_of_connects {e : Entry} (h : e.connects = true) : e.books = true := by
  cases e with
  | lwipConnected pcb err => exact h
  | _ => cases h

theorem delivered_of_books {x : Record} (h : x.entry.books = false) : Delivered x := by
  intro hconnects
  rw [books_of_connects hconnects] at h
  cases h

/-- **The calls of a request make up a ledger of what has been written.** -/
theorem ledger (r₀ : HTTPRequest) :
    contract.Ledger Entry.run
      (fun below e before r after => e.books = true → Delivered ⟨below, e, before, r, after⟩ →
        Recorded ⟨below, e, before, r, after⟩)
      (fun m w => ∀ entries ∈ m, Plays r₀ entries w) book (fun e => e.books = true)
      (fun c => c.isData = true) fun c => c.isOutput = false where
  alone := fun hok he => alone_of_books he hok.1
  waits := fun w he => gives_books he w
  silent := by
    intro e w he
    refine Res.Within.mono (mute_entry (Bool.eq_false_iff.2 he) w) ?_ fun _ hc => hc.1
    exact fun w w' hkept m hm entries hentries => (hm entries hentries).keep hkept
  idle := by
    intro x m he
    have hbooks : x.entry.books = false := Bool.eq_false_iff.2 he
    rw [book, if_pos (delivered_of_books hbooks), told_eq_none hbooks]
    simp
  advance := by
    intro x m he hpost hm entries hentries
    rw [book] at hentries
    split at hentries
    · rename_i hdelivered
      obtain ⟨before, hbefore, rfl⟩ := Option.mem_map.1 hentries
      have hrecorded : Recorded x := hpost he hdelivered
      rw [Recorded] at hrecorded
      cases htold : told x with
      | none =>
          rw [htold] at hrecorded
          rw [Option.toList_none, List.append_nil]
          exact (hm before hbefore).keep hrecorded
      | some e =>
          rw [htold] at hrecorded
          exact (hm before hbefore).concat hrecorded
    · cases hentries

/-- The ledger of a history. -/
theorem booked_of_delivered {history : List Record} (h : ∀ x ∈ history, Delivered x)
    (entries : List HTTPRequest.Entry) : Reentrant.Contract.booked book (some entries) history =
      some (entries ++ history.filterMap told) := by
  induction history generalizing entries with
  | nil => exact congrArg some (List.append_nil entries).symm
  | cons x history ih =>
      have hrest := ih fun x hx => h x (List.mem_cons_of_mem _ hx)
      rw [Reentrant.Contract.booked, List.foldl_cons, book, if_pos (h x List.mem_cons_self),
        Option.map_some]
      refine (hrest _).trans ?_
      rw [List.append_assoc, List.filterMap_cons]
      cases told x <;> rfl

theorem good_start {r : HTTPRequest} {setup : Tls.Setup} {tls callback : Bool} :
    contract.good [] (.start r setup tls callback) := by
  rintro ⟨x, hx, -⟩
  cases hx

/-- **The ledger of a run** shows what has been written. -/
theorem played (r : HTTPRequest) (setup : Tls.Setup) (tls callback : Bool) {moves : List Move}
    {c : Config}
    (hrun : Reentrant.run Entry.run Reliable moves (.start (.start r setup tls callback)) = some c)
    (hpending : ∀ x ∈ c.pending, x.isData = true) (hopen : ∀ x ∈ c.history, Delivered x) :
    Plays r (c.history.filterMap told) c.state := by
  have hstart : ∀ entries ∈ some [], Plays r entries (.start r setup tls callback) := by
    rintro entries ⟨⟩
    exact ⟨rfl, rfl, r, rfl, fun _ => .refl r⟩
  have hshown := (ledger r).run sound good_start hstart hrun hpending
  rw [booked_of_delivered hopen] at hshown
  exact hshown _ rfl

/-! ### The result -/

/-- **What is written is what the plain request transmits.**  In every run of a request with its
session in which lwIP takes what it is given, and at each of its ends at which no method but one that
hands on data is waiting, the invocations that have returned make up a run of the plain request, and
what has been passed to `altcp_write` is what that transmits; provided that the request is still
there, and its session open, when `on_connected` is done. -/
theorem refines_request (r : HTTPRequest) (setup : Tls.Setup) (tls callback : Bool)
    {moves : List Move} {c : Config}
    (hrun : Reentrant.run Entry.run Reliable moves (.start (.start r setup tls callback)) = some c)
    (hpending : ∀ x ∈ c.pending, x.isData = true) (hopen : ∀ x ∈ c.history, Delivered x) :
    r.run ((c.history.filterMap told).map HTTPRequest.Entry.call) =
        some (c.history.filterMap told) ∧
      Tls.written c.state.tls.log = HTTPRequest.transmitted (c.history.filterMap told) := by
  have hplays := played r setup tls callback hrun hpending hopen
  exact ⟨hplays.run, hplays.written⟩

deriving instance DecidableEq for HTTPRequest.Call

deriving instance DecidableEq for HTTPRequest.Entry

theorem short_body : ([1, 2] : List UInt8).length < 2 ^ 31 := by decide

/-- A header, a body, and a lookup that takes its time; sent bytes are reported while the header is
being passed on. -/
def uploadMoves : List Move :=
  [.enter (.addHeader (.ofString "k") (.ofString "v")), .enter (.setBody ⟨[1, 2], short_body⟩),
    .enter .send, .answer (.lwip (.dnsGethostbyname [0x61])) (.ERR_INPROGRESS, 0),
    .enter (.dnsCallback [0x61] (some 7)), .answer (.lwip (.altcpNew false)) (some 1),
    .answer (.lwip (.altcpConnect (some 1) 7 80)) .ERR_OK, .enter (.lwipConnected 1 .ERR_OK),
    .answer (.lwip (.altcpWrite (some 1) postHead.render)) .ERR_OK, .enter (.lwipSent 1 57),
    .answer (.lwip (.altcpOutput (some 1))) .ERR_OK,
    .answer (.lwip (.altcpWrite (some 1) [1, 2])) .ERR_OK,
    .answer (.lwip (.altcpOutput (some 1))) .ERR_OK]

/-- What the plain request does meanwhile. -/
def uploadEntries : List HTTPRequest.Entry :=
  postCalls.map (⟨·, [], true⟩) ++ [⟨.send .ERR_INPROGRESS, [.connect [0x61] 80], false⟩,
    ⟨.onConnected, [.send postHead.render, .send [1, 2]], true⟩]

/-- The request has been transmitted, though `send` has returned `false`. -/
theorem refines_request_example :
    ∃ (r : HTTPRequest) (c : Config),
      HTTPRequest.new (.filled _ 0) .INIT (some (.ofString "a")) 80 (some (.ofString "POST"))
        (some (.ofString "/")) = some r ∧
      Reentrant.run Entry.run Reliable uploadMoves (.start (.start r .byDefault false true)) = some c ∧
      r.run (uploadEntries.map HTTPRequest.Entry.call) = some uploadEntries ∧
      Tls.written c.state.tls.log = HTTPRequest.transmitted uploadEntries := by
  have hrun : ((HTTPRequest.new (.filled _ 0) .INIT (some (.ofString "a")) 80
      (some (.ofString "POST")) (some (.ofString "/"))).any fun r =>
        (Reentrant.run Entry.run Reliable uploadMoves (.start (.start r .byDefault false true))).any
          fun c => c.pending = [] ∧ (∀ x ∈ c.history, Delivered x) ∧
            c.history.filterMap told = uploadEntries) = true := by
    decide +kernel
  obtain ⟨r, hnew, hrun⟩ := (Option.any_eq_true _ _).1 hrun
  obtain ⟨c, hc, hdone⟩ := (Option.any_eq_true _ _).1 hrun
  obtain ⟨hpending, hopen, htold⟩ := of_decide_eq_true hdone
  have hrefines := refines_request r .byDefault false true hc (by
    rw [hpending]
    exact fun x hx => absurd hx List.not_mem_nil) hopen
  rw [htold] at hrefines
  exact ⟨r, c, hnew, hc, hrefines⟩

end Http.Client
