/-
**What a session does to its owner.**

The owner of a server session, seen from the session: `close`, `send` and the callbacks of lwIP
call it in a few ways only, and between two such calls a session that is closed stays closed.  In
particular data is handed to the owner only by `lwip_recv`, and only while the session is open.

Main definitions:

* `Tls.Serving.Kept` — what a stretch of the session's code keeps;
* `Tls.Serving.Served` — the calls that a session makes;
* `Tls.Serving.Serves` — code that keeps to both.

Main results:

* `Tls.Serving.serves_send`, `Tls.Serving.serves_lwipRecv`, `Tls.Serving.serves_run_lwipSent`,
  `Tls.Serving.serves_run_lwipErr` — **the methods of a server session keep to both**.
-/

import PicoHttps.Tls.Reopening

set_option relaxedAutoImplicit false
set_option autoImplicit false

namespace Tls.Serving

open Reopening (Sane)
open Reentrant (Res)

/-- lwIP has the pcb of the session and no other, and a closed session has stayed closed. -/
structure Kept (w₀ w : World) : Prop where
  sane : Sane w
  closing : w₀.session.closing = true → w.session.closing = true

/-- The calls of a server session; it hands over data, if `recv` says that it may, while it is
open. -/
def Served (recv : Bool) (w : World) : Call → Prop
  | .onRecv data => recv = true ∧ w.session.closing = false ∧ data.length < 2 ^ 16
  | .onSent _ | .onClosed | .altcpWrite _ _ | .altcpOutput _ => True
  | .onConnected | .dnsGethostbyname _ | .altcpNew _ | .altcpConnect _ _ _ => False

/-- Code that keeps a session as it should be and makes the calls of a server session. -/
abbrev Serves (recv : Bool) {α : Type} (w₀ : World) (r : Res World Call Call.Answer α) : Prop :=
  r.Serves Sane (fun w₀ c w => Kept w₀ w ∧ Served recv w c) (fun w₀ _ w => Kept w₀ w) w₀

variable {recv : Bool} {w₀ w w' : World}

theorem Kept.refl (h : Sane w) : Kept w w := ⟨h, id⟩

/-- A step that leaves the pcb, `m_closing` and the pcbs of lwIP as they are. -/
theorem Kept.same (h : Kept w₀ w) (hpcb : w'.session.pcb = w.session.pcb)
    (hclosing : w'.session.closing = w.session.closing) (hlive : w'.net.live = w.net.live) :
    Kept w₀ w' where
  sane := ⟨by rw [hlive, hpcb]; exact h.sane.live, by rw [hclosing, hpcb]; exact h.sane.closed⟩
  closing := by
    rw [hclosing]
    exact h.closing

theorem Kept.emit {e : Event} (h : Kept w₀ w) : Kept w₀ (w.emit e) := h.same rfl rfl rfl

theorem Kept.shut (h : Sane w) : Kept w₀ w.shut where
  sane := h.shut
  closing := fun _ => by rw [World.shut_session]

/-- A call, after which the code goes on from any state that is as it should be. -/
theorem serves_call {α : Type} {c : Call} {k : c.Answer → World → Res World Call Call.Answer α}
    (h : Kept w₀ w) (hc : Served recv w c)
    (hk : ∀ a w', Sane w' → Serves recv w' (k a w')) :
    Serves recv w₀ (.call c (w.emit (.call c)) k) := by
  refine Res.serves_call.2 ⟨⟨h.emit, ?_⟩, hk⟩
  cases c <;> exact hc

/-! ### Closing -/

theorem serves_onClosed (h : Kept w₀ w) : Serves recv w₀ (Session.onClosed w) := by
  rw [Session.onClosed_apply]
  split
  · exact serves_call h trivial fun _ _ h' => .refl h'
  · exact h

theorem serves_close (h : Kept w₀ w) : Serves recv w₀ (Session.close w) := by
  rw [Session.close_apply]
  split
  · exact h
  · split
    · exact Kept.shut h.sane
    · exact (serves_onClosed (.shut h.sane)).bind fun _ _ _ h' => h'

/-! ### Sending -/

theorem serves_checkSendFailure {err : Err} (h : Kept w₀ w) :
    Serves recv w₀ (Session.checkSendFailure err w) := by
  have hset : Kept w₀ (w.set fun s => { s with processing := false }) := h.same rfl rfl rfl
  rw [Session.checkSendFailure_apply]
  split
  · exact hset
  · split
    · exact (serves_onClosed hset).bind fun _ _ _ h' => h'
    · exact h

theorem serves_flush (h : Kept w₀ w) : Serves recv w₀ (Session.flush w) := by
  rw [Session.flush_apply]
  split
  · exact h
  · exact serves_call h trivial fun _ _ h' => .refl h'

theorem serves_lwipSent {len : ℕ} (h : Kept w₀ w) : Serves recv w₀ (Session.lwipSent len w) := by
  rw [Session.lwipSent_apply]
  split
  · exact Kept.same h rfl rfl rfl
  · split
    · refine serves_call (h.same rfl rfl rfl) trivial fun accepted w' h' => ?_
      cases accepted with
      | true => exact Kept.refl h'
      | false => exact serves_close (.refl h')
    · exact Kept.same h rfl rfl rfl

theorem serves_writeLoop {turns : ℕ} : ∀ {data : List UInt8} {w₀ w : World}, Kept w₀ w →
    Serves recv w₀ (Session.writeLoop turns data w) := by
  induction turns with
  | zero =>
      intro data w₀ w h
      exact h
  | succ turns ih =>
      intro data w₀ w h
      rcases eq_or_ne data [] with rfl | hdata
      · exact h
      · obtain ⟨n, -, -, hloop⟩ := Session.writeLoop_succ w turns hdata
        rw [hloop]
        refine serves_call h trivial fun err w' h' => ?_
        refine (serves_checkSendFailure (.refl h')).bind fun w₀ r w'' h'' => ?_
        split
        · exact h''
        · exact ih h''

theorem serves_finishSend (h : Kept w₀ w) : Serves recv w₀ (Session.finishSend w) := by
  rw [Session.finishSend_apply]
  refine (serves_flush h).bind fun w₀ err w' h' => ?_
  refine (serves_checkSendFailure h').bind fun w₀ r w'' h'' => ?_
  split
  · exact h''
  · split
    · exact serves_lwipSent (h''.same rfl rfl rfl)
    · exact Kept.same h'' rfl rfl rfl

/-- **`send`** hands over no data. -/
theorem serves_send {data : Option (List UInt8)} (h : Kept w₀ w) :
    Serves recv w₀ (Session.send data w) := by
  cases data with
  | none => exact h
  | some data =>
      rw [Session.send_apply]
      split
      · exact h
      · refine Res.Serves.bind (serves_writeLoop (h.same rfl rfl rfl)) fun w₀ r w' h' => ?_
        cases r with
        | none => exact serves_finishSend h'
        | some err => exact h'

/-! ### Receiving -/

theorem serves_releaseChain {pcb : ℕ} {p : List Pbuf} (h : Kept w₀ w) :
    Serves recv w₀ (Session.releaseChain pcb p w) := by
  rw [Session.releaseChain_apply]
  exact h.emit.emit

/-- Each segment is handed over while the session is open: the loop looks after every call. -/
theorem serves_recvLoop {pcb : ℕ} {p : List Pbuf} {it : List Pbuf} : ∀ {w₀ w : World},
    Kept w₀ w → (it ≠ [] → w.session.closing = false) →
      (∀ q ∈ it, q.payload.length < 2 ^ 16) →
        Serves true w₀ (Session.recvLoop pcb p it w) := by
  induction it with
  | nil =>
      intro w₀ w h _ _
      exact h
  | cons it next ih =>
      intro w₀ w h hopen hshort
      rw [Session.recvLoop_cons]
      refine serves_call h ⟨rfl, hopen (List.cons_ne_nil _ _), hshort it List.mem_cons_self⟩ ?_
      intro accepted w' h'
      have hset : Kept w' (w'.set fun s => { s with processing := false }) :=
        (Kept.refl h').same rfl rfl rfl
      split
      · exact (serves_onClosed hset).bind fun _ _ _ h'' => h''
      · rename_i hgoes
        split
        · refine (serves_releaseChain hset).bind fun w₀ _ w'' h'' => ?_
          exact (serves_close h'').bind fun _ _ _ h => h
        · split
          · exact Kept.refl h'
          · refine ih (.refl h') (fun _ => ?_) fun q hq => hshort q (List.mem_cons_of_mem _ hq)
            exact (Bool.or_eq_false_iff.1 (Bool.eq_false_iff.2 hgoes)).1

/-- `lwip_recv`, after it has dropped a pcb that lwIP has no more. -/
theorem serves_lwipRecv {pcb : ℕ} {p : List Pbuf} {err : Err} (hopen : w.session.closing = false)
    (hshort : ∀ q ∈ p, q.payload.length < 2 ^ 16)
    (h : Kept w₀ (if err = .ERR_ABRT then w.set fun s => { s with pcb := none } else w)) :
    Serves true w₀ (Session.lwipRecv pcb p err w) := by
  have hopen' : (if err = .ERR_ABRT then w.set fun s => { s with pcb := none }
      else w).session.closing = false := by
    split <;> exact hopen
  rw [Session.lwipRecv_apply]
  dsimp only
  generalize (if err = .ERR_ABRT then w.set fun s => { s with pcb := none } else w) = w' at *
  split
  · exact serves_close h
  · split
    · exact (serves_close h).bind fun _ _ _ h' => h'
    · split
      · refine Res.Serves.bind (serves_recvLoop (h.same rfl rfl rfl) (fun _ => hopen') hshort)
          fun w₀ r w' h' => ?_
        cases r with
        | none => exact Res.Serves.bind (serves_releaseChain (h'.same rfl rfl rfl)) fun _ _ _ h => h
        | some err => exact h'
      · exact (serves_releaseChain h).bind fun _ _ _ h' => h'

/-! ### The ways in -/

theorem serves_fromLwip {cb : Callback} {x : Prog Err} (h : Serves recv w₀ (x (w.callBack cb))) :
    Serves recv w₀ (fromLwip cb x w) := by
  rw [fromLwip_apply]
  exact h.bind fun _ _ _ h' => Kept.same h' rfl rfl rfl

/-- A session with a pcb is open. -/
theorem open_of_live {pcb : ℕ} (h : Sane w) (hpcb : pcb ∈ w.net.live) :
    w.session.closing = false := by
  refine Bool.eq_false_iff.2 fun hclosing => ?_
  rw [h.live, h.closed hclosing] at hpcb
  exact List.not_mem_nil hpcb

/-- **`lwip_recv`** hands over data while the session is open. -/
theorem serves_run_lwipRecv {pcb : ℕ} {p : List Pbuf} {err : Err} (h : Sane w)
    (hpcb : pcb ∈ w.net.live) (hshort : ∀ q ∈ p, q.payload.length < 2 ^ 16) :
    Serves true w (Entry.run (.lwipRecv pcb p err) w) := by
  have hopen := open_of_live h hpcb
  rw [Entry.run_lwipRecv]
  rcases eq_or_ne err .ERR_ABRT with rfl | herr
  · exact serves_fromLwip (serves_lwipRecv hopen hshort ⟨h.lose hpcb rfl rfl, id⟩)
  · rw [if_neg herr]
    refine serves_fromLwip (serves_lwipRecv hopen hshort ?_)
    rw [if_neg herr]
    exact (Kept.refl h).same rfl rfl rfl

/-- **`lwip_sent`** hands over no data. -/
theorem serves_run_lwipSent {pcb len : ℕ} (h : Sane w) :
    Serves recv w (Entry.run (.lwipSent pcb len) w) :=
  serves_fromLwip (serves_lwipSent ((Kept.refl h).same rfl rfl rfl))

/-- **`lwip_err`** hands over no data. -/
theorem serves_run_lwipErr {pcb : ℕ} (h : Sane w) (hpcb : pcb ∈ w.net.live) :
    Serves recv w (Entry.run (.lwipErr pcb) w) := by
  rw [Entry.run_lwipErr]
  refine serves_fromLwip ?_
  rw [Session.lwipErr_apply]
  have hlost : Kept w ((((w.update (Net.drop pcb)).callBack .err).emit
      (.clearCallbacks w.session.pcb)).set fun s => { s with pcb := none }) :=
    ⟨h.lose hpcb rfl rfl, id⟩
  exact (serves_close hlost).bind fun _ _ _ h' => h'

end Tls.Serving
