/-
**What a session hands on.**

Of all that lwIP and the resolver call, only `lwip_recv` hands on data, and what it hands on is the
payload of a segment of the chain that it has been given.

Main definitions:

* `Tls.Call.Brings` — a call that hands on no data but some.

Main results:

* `Tls.brings_run` — **what is handed on has come in a segment**.
-/

import PicoHttps.Tls.Outgoing

set_option relaxedAutoImplicit false
set_option autoImplicit false

namespace Tls

open Reentrant (Res)

/-- A call that hands on no data but such as `P` says. -/
def Call.Brings (P : List UInt8 → Prop) : Call → Prop
  | .onRecv data => P data
  | _ => True

section brings

variable {α : Type} {P : List UInt8 → Prop}

theorem brings_of_delivers {c : Call} (hc : c.delivers = false) : c.Brings P := by
  cases c <;> trivial

/-- Code that hands on nothing. -/
theorem Gives.brings {r : Res World Call Call.Answer α} (h : Gives r) : r.Makes (Call.Brings P) :=
  h.mono fun _ => brings_of_delivers

theorem brings_onClosed (w : World) : (Session.onClosed w).Makes (Call.Brings P) :=
  Gives.brings ((makes_onClosed w).mono delivers_onClosed)

theorem brings_close (w : World) : (Session.close w).Makes (Call.Brings P) :=
  Gives.brings ((makes_close w).mono delivers_onClosed)

theorem brings_lwipConnected (err : Err) (w : World) :
    (Session.lwipConnected err w).Makes (Call.Brings P) := by
  rw [Session.lwipConnected_apply]
  split
  · exact brings_close w
  · dsimp only
    split
    · exact ⟨trivial, fun _ _ => trivial⟩
    · trivial

theorem brings_releaseChain (pcb : ℕ) (p : List Pbuf) (w : World) :
    (Session.releaseChain pcb p w).Makes (Call.Brings P) := by
  rw [Session.releaseChain_apply]
  trivial

/-- Each segment is handed on. -/
theorem brings_recvLoop {pcb : ℕ} {p it : List Pbuf} (hP : ∀ q ∈ it, P q.payload) :
    ∀ w : World, (Session.recvLoop pcb p it w).Makes (Call.Brings P) := by
  induction it with
  | nil => exact fun _ => trivial
  | cons it next ih =>
      intro w
      rw [Session.recvLoop_cons]
      refine ⟨hP it List.mem_cons_self, fun accepted w' => ?_⟩
      dsimp only
      split
      · exact (brings_onClosed _).bind fun _ _ => trivial
      · split
        · refine (brings_releaseChain pcb p _).bind fun _ w'' => ?_
          exact (brings_close w'').bind fun _ _ => trivial
        · split
          · trivial
          · exact ih (fun q hq => hP q (List.mem_cons_of_mem _ hq)) w'

theorem brings_lwipRecv {pcb : ℕ} {p : List Pbuf} (err : Err) (hP : ∀ q ∈ p, P q.payload)
    (w : World) : (Session.lwipRecv pcb p err w).Makes (Call.Brings P) := by
  rw [Session.lwipRecv_apply]
  dsimp only
  generalize (if err = .ERR_ABRT then w.set fun s => { s with pcb := none } else w) = w'
  split
  · exact brings_close _
  · split
    · exact (brings_close _).bind fun _ _ => trivial
    · split
      · refine (brings_recvLoop hP _).bind fun r w'' => ?_
        cases r with
        | none => exact Res.Makes.bind (brings_releaseChain pcb p _) fun _ _ => trivial
        | some err => trivial
      · exact (brings_releaseChain pcb p _).bind fun _ _ => trivial

theorem brings_fromLwip {cb : Callback} {x : Prog Err} (h : ∀ w, (x w).Makes (Call.Brings P))
    (w : World) : (fromLwip cb x w).Makes (Call.Brings P) := by
  rw [fromLwip_apply]
  exact (h _).bind fun _ _ => trivial

/-- What lwIP and the resolver call. -/
def Entry.isOutside : Entry → Bool
  | .dnsCallback _ _ | .lwipConnected _ _ | .lwipRecv _ _ _ | .lwipSent _ _ | .lwipErr _ => true
  | _ => false

/-- **What is handed on has come in a segment.** -/
theorem brings_run {e : Entry} (he : e.isOutside = true)
    (hP : ∀ pcb p err, e = .lwipRecv pcb p err → ∀ q ∈ p, P q.payload) (w : World) :
    (e.run w).Makes (Call.Brings P) := by
  cases e with
  | dnsCallback host ipaddr =>
      cases ipaddr with
      | none =>
          rw [Entry.run_dnsCallback_none]
          exact (brings_onClosed _).bind fun _ _ => trivial
      | some ipaddr =>
          rw [Entry.run_dnsCallback_some]
          exact (gives_connectAddress _ _ _ _).brings.bind fun _ _ => trivial
  | lwipConnected pcb err => exact brings_fromLwip (brings_lwipConnected err) w
  | lwipRecv pcb p err =>
      rw [Entry.run_lwipRecv]
      exact brings_fromLwip (brings_lwipRecv err (hP pcb p err rfl)) _
  | lwipSent pcb len => exact brings_fromLwip (fun w => (gives_lwipSent len w).brings) w
  | lwipErr pcb =>
      rw [Entry.run_lwipErr]
      refine brings_fromLwip (fun w => ?_) _
      rw [Session.lwipErr_apply]
      exact (brings_close _).bind fun _ _ => trivial
  | _ => cases he

end brings

end Tls
