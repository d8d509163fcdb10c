/-
**A chain of segments is freed once.**

lwIP hands a `pbuf` chain over to `lwip_recv` whenever that returns `ERR_OK` or `ERR_ABRT`, so each
such return has to free the chain.  Two of the returns do not: the one for a chain that comes with
an error, and the one after the session has been closed inside `on_recv`.

Main definitions:

* `Tls.FreesOnce` — an invocation of `lwip_recv` that has freed its chain once, after `on_recv` has
  been called on a prefix of its segments, in order;
* `Tls.KeepsOpen` — the moves that do not take `lwip_recv` to those two returns.

Main results:

* `Tls.Chain.sound` — no other method frees a chain or calls `on_recv`, and `lwip_recv` does;
* `Tls.chain_freed` — **every chain is freed once**, in every run of such moves;
* `Tls.chain_leaked` — a chain that is never freed.
-/

import PicoHttps.Tls.Methods

set_option relaxedAutoImplicit false
set_option autoImplicit false

namespace Tls

/-! ### The property -/

/-- What happens to chains: `on_recv` is called on a segment, or a chain is freed. -/
def Event.ofChain : Event → Bool
  | .call c => c.isRecv
  | .pbufFree _ => true
  | _ => false

/-- What has happened to chains. -/
def chainEvents (log : List Event) : List Event := log.filter Event.ofChain

/-- `on_recv` is called on the segments, in order. -/
def received (segments : List Pbuf) : List Event :=
  segments.map fun it => .call (.onRecv it.payload)

/-- A call of `lwip_recv` with a chain that has returned `ERR_OK` or `ERR_ABRT` has called `on_recv`
on a prefix of the segments, in order, and then freed the chain, once. -/
def FreesOnce (r : Record) : Prop :=
  ∀ pcb p err, r.entry = .lwipRecv pcb p err → p ≠ [] →
    r.result = .ERR_OK ∨ r.result = .ERR_ABRT →
    ∃ segments, segments <+: p ∧ chainEvents r.after.log =
      chainEvents r.before.log ++ received segments ++ [.pbufFree p]

theorem FreesOnce.freed {r : Record} (h : FreesOnce r) {pcb : ℕ} {p : List Pbuf} {err : Err}
    (hentry : r.entry = .lwipRecv pcb p err) (hp : p ≠ [])
    (hresult : r.result = .ERR_OK ∨ r.result = .ERR_ABRT) :
    .pbufFree p ∈ chainEvents r.after.log := by
  obtain ⟨segments, -, hlog⟩ := h pcb p err hentry hp hresult
  rw [hlog]
  exact List.mem_append_right _ (List.mem_singleton_self _)

/-- A chain comes without an error, and `on_recv` leaves the session open. -/
def KeepsOpen (w : World) (m : Move) : Prop :=
  m.failsChain = false ∧
    (m.answersRecv → w.session.closing = false ∧ w.session.pcb ≠ none)

instance (w : World) (m : Move) : Decidable (KeepsOpen w m) :=
  inferInstanceAs (Decidable (_ ∧ _))

/-! ### The methods that leave chains alone -/

namespace Chain

/-- The moves, and that what is entered while a call waits leaves chains alone. -/
def contract : Reentrant.Contract World Entry Call Call.Answer where
  ok pending w m := Proper pending w m ∧ KeepsOpen w m
  good _ _ := True
  rely pending w w' := pending ≠ [] → chainEvents w'.log = chainEvents w.log

instance : ∀ pending w m, Decidable (contract.ok pending w m) :=
  fun _ _ _ => inferInstanceAs (Decidable (_ ∧ _))

open Reentrant.Contract (Spec)

variable {l : List Event} {pending : List Call} {w : World}

/-- Code that leaves chains alone. -/
abbrev Quiet {α : Type} (l : List Event) (pending : List Call)
    (r : Reentrant.Res World Call Call.Answer α) : Prop :=
  contract.Spec pending (fun _ w' => chainEvents w'.log = l) r

theorem chainEvents_append {log es : List Event} (hes : ∀ e ∈ es, e.ofChain = false) :
    chainEvents (log ++ es) = chainEvents log := by
  have hnil : es.filter Event.ofChain = [] := by
    refine List.filter_eq_nil_iff.2 fun e he => ?_
    rw [hes e he]
    exact Bool.noConfusion
  rw [chainEvents, List.filter_append, hnil, List.append_nil]
  rfl

theorem chainEvents_emit {e : Event} (he : e.ofChain = false) :
    chainEvents (w.emit e).log = chainEvents w.log :=
  chainEvents_append fun e' he' => by rwa [List.mem_singleton.1 he']

theorem quiet_call {α : Type} {c : Call}
    {k : c.Answer → World → Reentrant.Res World Call Call.Answer α} (hc : c.isRecv = false)
    (hw : chainEvents w.log = l)
    (hk : ∀ a w', chainEvents w'.log = l → Quiet l pending (k a w')) :
    Quiet l pending (.call c (w.emit (.call c)) k) := by
  refine Reentrant.Contract.spec_call.2 ⟨trivial, fun a w' _ hrely _ => hk a w' ?_⟩
  rw [hrely (List.cons_ne_nil _ _), chainEvents_emit (e := .call c) hc, hw]

theorem quiet_onClosed (hw : chainEvents w.log = l) : Quiet l pending (Session.onClosed w) := by
  rw [Session.onClosed_apply]
  split
  · exact quiet_call rfl hw fun _ _ hw' => hw'
  · exact hw

theorem chainEvents_shut : chainEvents w.shut.log = chainEvents w.log := by
  rw [World.shut_log]
  refine chainEvents_append ?_
  cases w.session.pcb <;> simp [Event.ofChain]

theorem quiet_close (hw : chainEvents w.log = l) : Quiet l pending (Session.close w) := by
  rw [Session.close_apply]
  split
  · exact hw
  · split
    · exact chainEvents_shut.trans hw
    · exact Spec.bind (quiet_onClosed (chainEvents_shut.trans hw)) fun _ _ hw' => hw'

theorem quiet_checkSendFailure {err : Err} (hw : chainEvents w.log = l) :
    Quiet l pending (Session.checkSendFailure err w) := by
  rw [Session.checkSendFailure_apply]
  split
  · exact hw
  · split
    · exact Spec.bind (quiet_onClosed hw) fun _ _ hw' => hw'
    · exact hw

theorem quiet_flush (hw : chainEvents w.log = l) : Quiet l pending (Session.flush w) := by
  rw [Session.flush_apply]
  split
  · exact hw
  · exact quiet_call rfl hw fun _ _ hw' => hw'

theorem quiet_lwipSent {len : ℕ} (hw : chainEvents w.log = l) :
    Quiet l pending (Session.lwipSent len w) := by
  rw [Session.lwipSent_apply]
  split
  · exact hw
  · split
    · refine quiet_call rfl hw fun accepted w' hw' => ?_
      split
      · exact quiet_close hw'
      · exact hw'
    · exact hw

theorem quiet_writeLoop {turns : ℕ} : ∀ {data : List UInt8} {w : World},
    chainEvents w.log = l → Quiet l pending (Session.writeLoop turns data w) := by
  induction turns with
  | zero => exact fun hw => hw
  | succ turns ih =>
      intro data w hw
      rcases eq_or_ne data [] with rfl | hdata
      · exact hw
      · obtain ⟨n, -, -, hloop⟩ := Session.writeLoop_succ w turns hdata
        rw [hloop]
        refine quiet_call rfl hw fun err w' hw' => ?_
        refine Spec.bind (quiet_checkSendFailure hw') fun r w'' hw'' => ?_
        split
        · exact hw''
        · exact ih hw''

theorem quiet_finishSend (hw : chainEvents w.log = l) :
    Quiet l pending (Session.finishSend w) := by
  rw [Session.finishSend_apply]
  refine Spec.bind (quiet_flush hw) fun err w' hw' => ?_
  refine Spec.bind (quiet_checkSendFailure hw') fun r w'' hw'' => ?_
  split
  · exact hw''
  · split
    · exact quiet_lwipSent hw''
    · exact hw''

theorem quiet_send {data : Option (List UInt8)} (hw : chainEvents w.log = l) :
    Quiet l pending (Session.send data w) := by
  cases data with
  | none => exact hw
  | some data =>
      rw [Session.send_apply]
      split
      · exact hw
      · refine Spec.bind (quiet_writeLoop hw) fun r w' hw' => ?_
        cases r with
        | none => exact quiet_finishSend hw'
        | some err => exact hw'

theorem chainEvents_prepare {tls : Bool} {host : Option Host} {pcb : Option ℕ} :
    chainEvents (w.prepare tls host pcb).log = chainEvents w.log := by
  rw [World.prepare_log]
  refine chainEvents_append ?_
  cases tls <;> cases host <;> simp [Event.ofChain]

theorem quiet_connectAddress {host : Option Host} {ipaddr port : ℕ}
    (hw : chainEvents w.log = l) : Quiet l pending (Session.connectAddress host ipaddr port w) := by
  rw [Session.connectAddress_apply]
  split
  · exact quiet_close hw
  · refine quiet_call rfl hw fun pcb w' hw' => ?_
    refine quiet_call rfl (chainEvents_prepare.trans hw') fun err w'' hw'' => ?_
    split
    · exact quiet_close hw''
    · exact hw''

theorem quiet_connect {host : Host} {port : ℕ} (hw : chainEvents w.log = l) :
    Quiet l pending (Session.connect host port w) := by
  rw [Session.connect_apply]
  refine quiet_call rfl hw fun found w' hw' => ?_
  split
  · exact quiet_connectAddress hw'
  · split
    · exact hw'
    · exact hw'

theorem quiet_lwipConnected {err : Err} (hw : chainEvents w.log = l) :
    Quiet l pending (Session.lwipConnected err w) := by
  rw [Session.lwipConnected_apply]
  split
  · exact quiet_close hw
  · dsimp only
    split
    · exact quiet_call rfl hw fun _ _ hw' => hw'
    · exact hw

theorem quiet_fromLwip {cb : Callback} {x : Prog Err} (h : Quiet l pending (x (w.callBack cb))) :
    Quiet l pending (fromLwip cb x w) := by
  rw [fromLwip_apply]
  exact Spec.bind h fun _ _ hw => hw

/-- Every method but `lwip_recv` leaves chains alone. -/
theorem quiet_run (hw : chainEvents w.log = l) :
    ∀ e : Entry, (∀ pcb p err, e ≠ .lwipRecv pcb p err) → Quiet l pending (e.run w)
  | .send data, _ => quiet_send hw
  | .close, _ => quiet_close hw
  | .connect host port, _ => by
      rw [Entry.run_connect]
      exact quiet_connect hw
  | .connectAddress host ipaddr port, _ => by
      rw [Entry.run_connectAddress]
      exact quiet_connectAddress hw
  | .dnsCallback host none, _ => by
      rw [Entry.run_dnsCallback_none]
      exact Spec.bind (quiet_onClosed hw) fun _ _ hw' => hw'
  | .dnsCallback host (some ipaddr), _ => by
      rw [Entry.run_dnsCallback_some]
      exact Spec.bind (quiet_connectAddress hw) fun _ _ hw' => hw'
  | .lwipConnected pcb err, _ => quiet_fromLwip (quiet_lwipConnected hw)
  | .lwipRecv pcb p err, h => absurd rfl (h pcb p err)
  | .lwipSent pcb len, _ => quiet_fromLwip (quiet_lwipSent hw)
  | .lwipErr pcb, _ => by
      rw [Entry.run_lwipErr]
      refine quiet_fromLwip ?_
      rw [Session.lwipErr_apply]
      exact Spec.bind (quiet_close ((chainEvents_emit rfl).trans hw)) fun _ _ hw' => hw'

/-! ### Receiving -/

theorem chainEvents_release (pcb : ℕ) (p : List Pbuf) :
    chainEvents ((w.emit (.altcpRecved pcb (p.head?.elim 0 Pbuf.totLen))).emit
      (.pbufFree p)).log = chainEvents w.log ++ [.pbufFree p] := by
  rw [World.emit_log, chainEvents, List.filter_append]
  exact congrArg (· ++ [Event.pbufFree p]) (chainEvents_emit rfl)

/-- The loop over the segments, after those of `before`: `on_recv` is called on more of them, and
where the loop leaves `lwip_recv` the chain is freed. -/
theorem spec_recvLoop {pcb : ℕ} {p : List Pbuf} (segments : List Pbuf) : ∀ {before : List Pbuf}
    {w : World}, before ++ segments = p → chainEvents w.log = l ++ received before →
    contract.Spec []
      (fun r w' => ∃ called, called <+: p ∧
        chainEvents w'.log = l ++ received called ++ r.elim [] fun _ => [.pbufFree p])
      (Session.recvLoop pcb p segments w) := by
  induction segments with
  | nil =>
      intro before w hp hw
      refine ⟨before, ⟨[], hp⟩, ?_⟩
      rw [hw]
      exact (List.append_nil _).symm
  | cons it next ih =>
      intro before w hp hw
      have hp' : (before ++ [it]) ++ next = p := by rw [← hp, List.append_assoc]; rfl
      have hprefix : before ++ [it] <+: p := ⟨next, hp'⟩
      rw [Session.recvLoop_cons]
      refine Reentrant.Contract.spec_call.2 ⟨trivial, fun accepted w' _ hrely hok => ?_⟩
      have hw' : chainEvents w'.log = l ++ received (before ++ [it]) := by
        rw [hrely (List.cons_ne_nil _ _), World.emit_log, chainEvents, List.filter_append,
          received, List.map_append, ← List.append_assoc]
        exact congrArg (· ++ [Event.call (.onRecv it.payload)]) hw
      -- the session is open when `on_recv` is answered
      obtain ⟨hclosing, hpcb⟩ := hok.2.2 rfl
      rw [hclosing, Option.isNone_eq_false_iff.2 (Option.isSome_iff_ne_none.2 hpcb)]
      simp only [Bool.or_false, Bool.false_eq_true, if_false]
      split
      · rw [Session.releaseChain_apply, Reentrant.Res.bind_done]
        refine Spec.bind (quiet_close (chainEvents_release pcb p)) fun err w'' hw'' => ?_
        refine ⟨before ++ [it], hprefix, ?_⟩
        rw [hw'']
        exact congrArg (· ++ [Event.pbufFree p]) hw'
      · split
        · refine ⟨before ++ [it], hprefix, ?_⟩
          rw [hw']
          exact (List.append_nil _).symm
        · exact ih hp' hw'

/-- Without a chain the session closes. -/
theorem quiet_lwipRecv_null {pcb : ℕ} {err : Err} (hw : chainEvents w.log = l) :
    Quiet l [] (Session.lwipRecv pcb [] err w) := by
  rw [Session.lwipRecv_apply, if_pos rfl]
  refine quiet_close ?_
  split
  · exact hw
  · exact hw

theorem spec_lwipRecv {pcb : ℕ} {p : List Pbuf} (hp : p ≠ []) (hw : chainEvents w.log = l) :
    contract.Spec []
      (fun _ w' => ∃ called, called <+: p ∧
        chainEvents w'.log = l ++ received called ++ [.pbufFree p])
      (Session.lwipRecv pcb p .ERR_OK w) := by
  rw [Session.lwipRecv_apply, if_neg hp]
  simp only [reduceCtorEq, if_false, ne_eq, not_true_eq_false]
  split
  · have hstart : chainEvents w.log = l ++ received [] := hw.trans (List.append_nil _).symm
    refine Spec.bind (spec_recvLoop p rfl hstart) fun r w' hw' => ?_
    obtain ⟨called, hcalled, hlog⟩ := hw'
    cases r with
    | some err => exact ⟨called, hcalled, hlog⟩
    | none =>
        refine ⟨called, hcalled, ?_⟩
        rw [chainEvents_release]
        exact congrArg (· ++ [Event.pbufFree p]) (hlog.trans (List.append_nil _))
  · refine ⟨[], List.nil_prefix, ?_⟩
    rw [chainEvents_release, hw]
    exact congrArg (· ++ [Event.pbufFree p]) (List.append_nil _).symm

/-- What an invocation does to chains. -/
def Post (e : Entry) (w w' : World) : Prop :=
  ∀ pcb p err, e = .lwipRecv pcb p err → p ≠ [] → ∃ called, called <+: p ∧
    chainEvents w'.log = chainEvents w.log ++ received called ++ [.pbufFree p]

/-- **Every method keeps the contract.** -/
theorem sound : contract.Sound Entry.run fun _ e w _ w' => Post e w w' where
  refl _ _ _ := rfl
  trans _ _ _ _ h h' hne := (h' hne).trans (h hne)
  method pending w e _ hok := by
    by_cases hrecv : ∃ pcb p err, e = .lwipRecv pcb p err
    · obtain ⟨pcb, p, err, rfl⟩ := hrecv
      obtain ⟨⟨rfl, -⟩, hfails, -⟩ := hok
      rw [Entry.run_lwipRecv, fromLwip_apply]
      rcases eq_or_ne p [] with rfl | hp
      · refine Spec.bind (quiet_lwipRecv_null rfl) fun r w' _ => ?_
        refine ⟨trivial, fun hne => absurd rfl hne, fun pcb' p' err' he hp => ?_⟩
        obtain ⟨-, rfl, -⟩ := Entry.lwipRecv.inj he
        exact absurd rfl hp
      · have herr : err = .ERR_OK := by simpa [Move.failsChain, hp] using hfails
        subst herr
        refine Spec.bind (spec_lwipRecv hp rfl) fun r w' hw' => ?_
        refine ⟨trivial, fun hne => absurd rfl hne, fun pcb' p' err' he _ => ?_⟩
        obtain ⟨-, rfl, -⟩ := Entry.lwipRecv.inj he
        exact hw'
    · have hquiet : Quiet (chainEvents w.log) pending (e.run w) :=
        quiet_run rfl e fun pcb p err he => hrecv ⟨pcb, p, err, he⟩
      refine hquiet.mono fun _ w' hw' => ⟨trivial, fun _ => hw', fun pcb p err he => ?_⟩
      exact absurd ⟨pcb, p, err, he⟩ hrecv

end Chain

/-! ### The property of every run -/

/-- **Every chain is freed once**, after `on_recv` has been called on a prefix of its segments, in
every run in which chains come without an error and `on_recv` leaves the session open. -/
theorem chain_freed (setup : Setup) (arg : Option ℕ) (tls callback : Bool) (moves : List Move)
    (c : Config)
    (hrun : Reentrant.run Entry.run (fun pending w m => Proper pending w m ∧ KeepsOpen w m) moves
      (.start (.start setup arg tls callback)) = some c) :
    ∀ r ∈ c.history, FreesOnce r := by
  have h := (Chain.sound.run trivial hrun).2
  intro r hr pcb p err hentry hp _
  exact h r hr pcb p err hentry hp

/-- Two segments of which the second is not taken. -/
theorem chain_freed_example :
    ∃ c : Config, Reentrant.run Entry.run (fun pending w m => Proper pending w m ∧ KeepsOpen w m)
      [.enter (.lwipRecv 1 [⟨[7], 2⟩, ⟨[8], 1⟩] .ERR_OK), .answer (.onRecv [7]) true,
        .answer (.onRecv [8]) false, .answer .onClosed ()]
      (.start (.start ⟨16384, true, by decide⟩ (some 1) false true)) = some c ∧
      ∀ r ∈ c.history, FreesOnce r := by
  refine ⟨_, rfl, chain_freed ⟨16384, true, by decide⟩ (some 1) false true
    [.enter (.lwipRecv 1 [⟨[7], 2⟩, ⟨[8], 1⟩] .ERR_OK), .answer (.onRecv [7]) true,
      .answer (.onRecv [8]) false, .answer .onClosed ()] _ ?_⟩
  rfl

/-- **A session that is closed inside `on_recv` never frees the chain.** -/
theorem chain_leaked :
    ¬ ∀ (setup : Setup) (arg : Option ℕ) (tls callback : Bool) (moves : List Move) (c : Config),
      Reentrant.run Entry.run Proper moves (.start (.start setup arg tls callback)) = some c →
      ∀ r ∈ c.history, FreesOnce r := by
  intro hall
  have h := hall ⟨16384, true, by decide⟩ (some 1) false true
    [.enter (.lwipRecv 1 [⟨[7], 1⟩] .ERR_OK), .enter .close, .answer (.onRecv [7]) true,
      .answer .onClosed ()] _ rfl
  have hfreed := (h _ (List.mem_cons_of_mem _ List.mem_cons_self)).freed rfl (by decide) (.inr rfl)
  exact absurd hfreed (by decide)

end Tls
