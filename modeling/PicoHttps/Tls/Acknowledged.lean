/-
**Acknowledged bytes are reported once.**

lwIP tells a session how many bytes the other side has acknowledged, with `lwip_sent`, and the
session tells its application, with `on_sent`.  While `m_processing` is set the report is put off:
the bytes are added to `m_sentBytes`, and are part of the next report, which may be one that `send`
makes when it ends.  Whatever the application and lwIP do meanwhile, the bytes that have been
reported and those in `m_sentBytes` are together the bytes that have been acknowledged.

Main definitions:

* `Tls.reported`, `Tls.acked` — the bytes that have been reported, and that have been acknowledged;
* `Tls.Move.restarts` — a move that begins a new connection;
* `Tls.Acknowledged.Accounts` — what a move does to the bytes that are accounted for.

Main results:

* `Tls.Acknowledged.guarded` — every stretch of every method keeps the account;
* `Tls.acknowledged_conserved` — **no acknowledged byte is lost or reported twice**, in every run
  of a connection.
-/

import PicoHttps.Tls.Methods

set_option relaxedAutoImplicit false
set_option autoImplicit false

namespace Tls

/-! ### The account -/

/-- The bytes that an event reports. -/
def Event.reported : Event → ℕ
  | .call (.onSent len) => len
  | _ => 0

/-- The bytes that have been reported to the application. -/
def reported : List Event → ℕ
  | [] => 0
  | e :: log => e.reported + reported log

/-- The bytes that a move acknowledges. -/
def Move.acked : Move → ℕ
  | .enter (.lwipSent _ len) => len
  | _ => 0

/-- The bytes that lwIP has acknowledged. -/
def acked : List Move → ℕ
  | [] => 0
  | m :: moves => m.acked + acked moves

/-- The application begins a new connection. -/
def Move.restarts : Move → Bool
  | .enter (.connect _ _) => true
  | _ => false

theorem reported_append (log es : List Event) :
    reported (log ++ es) = reported log + reported es := by
  induction log with
  | nil => exact (Nat.zero_add _).symm
  | cons e log ih =>
      rw [List.cons_append, reported, ih, reported, Nat.add_assoc]

theorem reported_emit (w : World) (e : Event) :
    reported (w.emit e).log = reported w.log + e.reported := by
  rw [World.emit_log, reported_append]
  rfl

namespace Acknowledged

/-- The bytes that have been reported or will be. -/
def accounted (w : World) : ℕ := reported w.log + w.session.sentBytes

/-- There is a callback object, and `m_sentBytes` is a `u16_t`. -/
structure Good (w : World) : Prop where
  callback : w.session.callback = true
  sentBytes : w.session.sentBytes < 2 ^ 16

/-- **What a move does to the account**: a new connection has nothing to report, and every other
move adds what it acknowledges, if there is room for it. -/
def Accounts (m : Move) (w₀ w : World) : Prop :=
  if m.restarts then w.session.sentBytes = 0
  else w₀.session.sentBytes + m.acked < 2 ^ 16 → accounted w = accounted w₀ + m.acked

/-- Anything may happen while a call waits. -/
def contract : Reentrant.Contract World Entry Call Call.Answer where
  ok _ _ _ := True
  good _ := Good
  rely _ _ _ := True

instance : ∀ pending w m, Decidable (contract.ok pending w m) :=
  fun _ _ _ => inferInstanceAs (Decidable True)

/-- A stretch, begun by the move `m` in the world `w₀`, that has accounted for what `m`
acknowledges. -/
structure Kept (m : Move) (w₀ w : World) : Prop where
  good : Good w
  goes : m.restarts = false
  account : w₀.session.sentBytes + m.acked < 2 ^ 16 → accounted w = accounted w₀ + m.acked

/-- Code that keeps the account. -/
abbrev Keeps {α : Type} (pending : List Call) (m : Move) (w₀ : World)
    (r : Reentrant.Res World Call Call.Answer α) : Prop :=
  contract.Stretch Accounts pending (fun m w₀ _ w => Kept m w₀ w) m w₀ r

variable {pending : List Call} {m : Move} {w₀ w w' : World}

theorem Kept.accounts (h : Kept m w₀ w) : Accounts m w₀ w := by
  rw [Accounts, h.goes]
  exact h.account

/-- An answer acknowledges nothing. -/
theorem Kept.answer {c : Call} {a : c.Answer} (h : Good w) : Kept (.answer c a) w w :=
  ⟨h, rfl, fun _ => rfl⟩

/-- A step that leaves the account as it is. -/
theorem Kept.same (h : Kept m w₀ w) (hcallback : w'.session.callback = w.session.callback)
    (hsent : w'.session.sentBytes = w.session.sentBytes)
    (hlog : reported w'.log = reported w.log) : Kept m w₀ w' where
  good := ⟨by rw [hcallback]; exact h.good.callback, by rw [hsent]; exact h.good.sentBytes⟩
  goes := h.goes
  account := by
    rw [accounted, hlog, hsent]
    exact h.account

theorem Kept.emit {e : Event} (h : Kept m w₀ w) (he : e.reported = 0) : Kept m w₀ (w.emit e) := by
  refine h.same rfl rfl ?_
  rw [reported_emit, he, Nat.add_zero]

theorem reported_shut (w : World) : reported w.shut.log = reported w.log := by
  rw [World.shut_log, reported_append]
  cases w.session.pcb <;> rfl

theorem Kept.shut (h : Kept m w₀ w) : Kept m w₀ w.shut :=
  h.same (by rw [World.shut_session]) (by rw [World.shut_session]) (reported_shut w)

/-- A call, after which the next stretch begins. -/
theorem keeps_call {α : Type} {c : Call}
    {k : c.Answer → World → Reentrant.Res World Call Call.Answer α}
    (h : Kept m w₀ (w.emit (.call c)))
    (hk : ∀ a w', Kept (.answer c a) w' w' → Keeps pending (.answer c a) w' (k a w')) :
    Keeps pending m w₀ (.call c (w.emit (.call c)) k) :=
  Reentrant.Contract.stretch_call.2
    ⟨h.good, h.accounts, fun a w' hgood _ _ => hk a w' (.answer hgood)⟩

/-! ### Closing -/

theorem keeps_onClosed (h : Kept m w₀ w) : Keeps pending m w₀ (Session.onClosed w) := by
  rw [Session.onClosed_apply]
  split
  · exact keeps_call (h.emit rfl) fun _ _ h' => h'
  · exact h

theorem keeps_close (h : Kept m w₀ w) : Keeps pending m w₀ (Session.close w) := by
  rw [Session.close_apply]
  split
  · exact h
  · split
    · exact h.shut
    · exact (keeps_onClosed h.shut).bind fun _ _ _ _ h' => h'

/-! ### Reporting -/

/-- **`lwip_sent`** accounts for the bytes: they are put off, or reported together with those that
have been. -/
theorem keeps_lwipSent {len : ℕ} (hgood : Good w) (hm : m.restarts = false)
    (hdue : w₀.session.sentBytes + m.acked < 2 ^ 16 →
      w.session.sentBytes + len < 2 ^ 16 ∧ accounted w + len = accounted w₀ + m.acked) :
    Keeps pending m w₀ (Session.lwipSent len w) := by
  rw [Session.lwipSent_apply, hgood.callback, if_pos rfl]
  split
  · refine ⟨⟨hgood.callback, Nat.mod_lt _ (by decide)⟩, hm, fun hroom => ?_⟩
    obtain ⟨hlt, heq⟩ := hdue hroom
    rw [← heq, accounted, World.set_log, World.set_session, Nat.mod_eq_of_lt hlt, accounted,
      Nat.add_assoc]
  · refine keeps_call ⟨⟨hgood.callback, Nat.two_pow_pos 16⟩, hm, fun hroom => ?_⟩
      fun accepted w' h' => ?_
    · obtain ⟨hlt, heq⟩ := hdue hroom
      have hreport : reported ((w.set fun s => { s with sentBytes := 0 }).emit
          (.call (.onSent ((len + w.session.sentBytes) % 2 ^ 16)))).log =
            reported w.log + (len + w.session.sentBytes) := by
        rw [reported_emit, Event.reported, Nat.mod_eq_of_lt (by omega)]
        rfl
      rw [← heq, accounted, hreport, accounted]
      change _ + 0 = _
      omega
    · split
      · exact keeps_close h'
      · exact h'

/-! ### Sending -/

theorem keeps_checkSendFailure {err : Err} (h : Kept m w₀ w) :
    Keeps pending m w₀ (Session.checkSendFailure err w) := by
  have hset : Kept m w₀ (w.set fun s => { s with processing := false }) := h.same rfl rfl rfl
  rw [Session.checkSendFailure_apply]
  split
  · exact hset
  · split
    · exact (keeps_onClosed hset).bind fun _ _ _ _ h' => h'
    · exact h

theorem keeps_flush (h : Kept m w₀ w) : Keeps pending m w₀ (Session.flush w) := by
  rw [Session.flush_apply]
  split
  · exact h
  · exact keeps_call (h.emit rfl) fun _ _ h' => h'

theorem keeps_writeLoop {turns : ℕ} : ∀ {data : List UInt8} {m : Move} {w₀ w : World},
    Kept m w₀ w → Keeps pending m w₀ (Session.writeLoop turns data w) := by
  induction turns with
  | zero =>
      intro data m w₀ w h
      exact h
  | succ turns ih =>
      intro data m w₀ w h
      rcases eq_or_ne data [] with rfl | hdata
      · exact h
      · obtain ⟨n, -, -, hloop⟩ := Session.writeLoop_succ w turns hdata
        rw [hloop]
        refine keeps_call (h.emit rfl) fun err w' h' => ?_
        refine (keeps_checkSendFailure h').bind fun m w₀ r w'' h'' => ?_
        split
        · exact h''
        · exact ih h''

/-- The end of `send` reports what has been put off. -/
theorem keeps_finishSend (h : Kept m w₀ w) : Keeps pending m w₀ (Session.finishSend w) := by
  rw [Session.finishSend_apply]
  refine (keeps_flush h).bind fun m w₀ err w' h' => ?_
  refine (keeps_checkSendFailure h').bind fun m w₀ r w'' h'' => ?_
  have hset : Kept m w₀ (w''.set fun s => { s with processing := false }) := h''.same rfl rfl rfl
  split
  · exact h''
  · split
    · exact keeps_lwipSent hset.good hset.goes fun hroom =>
        ⟨hset.good.sentBytes, hset.account hroom⟩
    · exact hset

theorem keeps_send {data : Option (List UInt8)} (h : Kept m w₀ w) :
    Keeps pending m w₀ (Session.send data w) := by
  cases data with
  | none => exact h
  | some data =>
      rw [Session.send_apply]
      split
      · exact h
      · refine Reentrant.Contract.Stretch.bind (keeps_writeLoop (h.same rfl rfl rfl))
          fun m w₀ r w' h' => ?_
        cases r with
        | none => exact keeps_finishSend h'
        | some err => exact h'

/-! ### Receiving -/

theorem Kept.release (h : Kept m w₀ w) (pcb len : ℕ) (p : List Pbuf) :
    Kept m w₀ ((w.emit (.altcpRecved pcb len)).emit (.pbufFree p)) :=
  (h.emit rfl).emit rfl

theorem keeps_recvLoop {pcb : ℕ} {p : List Pbuf} {segments : List Pbuf} :
    ∀ {m : Move} {w₀ w : World}, Kept m w₀ w →
      Keeps pending m w₀ (Session.recvLoop pcb p segments w) := by
  induction segments with
  | nil =>
      intro m w₀ w h
      exact h
  | cons it next ih =>
      intro m w₀ w h
      rw [Session.recvLoop_cons]
      refine keeps_call (h.emit rfl) fun accepted w' h' => ?_
      have hset : Kept _ w' (w'.set fun s => { s with processing := false }) := h'.same rfl rfl rfl
      split
      · exact (keeps_onClosed hset).bind fun _ _ _ _ h'' => h''
      · split
        · rw [Session.releaseChain_apply, Reentrant.Res.bind_done]
          exact (keeps_close (hset.release _ _ _)).bind fun _ _ _ _ h'' => h''
        · split
          · exact h'
          · exact ih h'

theorem keeps_lwipRecv {pcb : ℕ} {p : List Pbuf} {err : Err} (h : Kept m w₀ w) :
    Keeps pending m w₀ (Session.lwipRecv pcb p err w) := by
  have hlost : Kept m w₀
      (if err = .ERR_ABRT then w.set fun s => { s with pcb := none } else w) := by
    split
    · exact h.same rfl rfl rfl
    · exact h
  rw [Session.lwipRecv_apply]
  dsimp only
  generalize (if err = .ERR_ABRT then w.set fun s => { s with pcb := none } else w) = w' at *
  split
  · exact keeps_close hlost
  · split
    · exact (keeps_close hlost).bind fun _ _ _ _ h' => h'
    · split
      · refine Reentrant.Contract.Stretch.bind (keeps_recvLoop (hlost.same rfl rfl rfl))
          fun m w₀ r w'' h'' => ?_
        cases r with
        | none =>
            have hset : Kept m w₀ (w''.set fun s => { s with processing := false }) :=
              h''.same rfl rfl rfl
            exact hset.release _ _ _
        | some err => exact h''
      · exact hlost.release _ _ _

/-! ### Connecting -/

theorem reported_prepare (tls : Bool) (host : Option Host) (pcb : Option ℕ) (w : World) :
    reported (w.prepare tls host pcb).log = reported w.log := by
  rw [World.prepare_log, reported_append]
  cases tls <;> cases host <;> rfl

theorem keeps_connectAddress {host : Option Host} {ipaddr port : ℕ} (h : Kept m w₀ w) :
    Keeps pending m w₀ (Session.connectAddress host ipaddr port w) := by
  rw [Session.connectAddress_apply]
  split
  · exact keeps_close h
  · refine keeps_call (h.emit rfl) fun pcb w' h' => ?_
    have hprepared : Kept _ w' (w'.prepare w.session.tls host pcb) :=
      h'.same (by rw [World.prepare_session]) (by rw [World.prepare_session])
        (reported_prepare _ _ _ _)
    refine keeps_call (hprepared.emit rfl) fun err w'' h'' => ?_
    split
    · exact keeps_close h''
    · exact h''

/-- A new connection has nothing to report. -/
theorem keeps_connect {host : Host} {port : ℕ} (hm : m.restarts = true) (h : Good w) :
    Keeps pending m w₀ (Session.connect host port w) := by
  rw [Session.connect_apply]
  refine Reentrant.Contract.stretch_call.2
    ⟨⟨h.callback, Nat.two_pow_pos 16⟩, ?_, fun found w' hgood _ _ => ?_⟩
  · rw [Accounts, hm]
    rfl
  · have h' : Kept (.answer (.dnsGethostbyname host) found) w' w' := .answer hgood
    split
    · exact keeps_connectAddress h'
    · split
      · exact h'.same rfl rfl rfl
      · exact h'

theorem keeps_lwipConnected {err : Err} (h : Kept m w₀ w) :
    Keeps pending m w₀ (Session.lwipConnected err w) := by
  have hset : Kept m w₀ (w.set fun s => { s with connected := true }) := h.same rfl rfl rfl
  rw [Session.lwipConnected_apply]
  split
  · exact keeps_close h
  · dsimp only
    split
    · exact keeps_call (hset.emit rfl) fun _ _ h' => h'
    · exact hset

/-! ### The ways in -/

theorem keeps_fromLwip {cb : Callback} {x : Prog Err} (h : Keeps pending m w₀ (x (w.callBack cb))) :
    Keeps pending m w₀ (fromLwip cb x w) := by
  rw [fromLwip_apply]
  exact h.bind fun _ _ _ _ h' => h'.same rfl rfl rfl

/-- A method that is entered, before it has done anything. -/
theorem Kept.enter {e : Entry} (h : Good w) (he : Move.acked (.enter e) = 0)
    (hgoes : Move.restarts (.enter e) = false) : Kept (.enter e) w w where
  good := h
  goes := hgoes
  account := fun _ => by rw [he, Nat.add_zero]

theorem keeps_run (h : Good w) (e : Entry) (hgoes : Move.restarts (.enter e) = false) :
    Keeps pending (.enter e) w (e.run w) := by
  cases e with
  | send data => exact keeps_send (.enter h rfl rfl)
  | close => exact keeps_close (.enter h rfl rfl)
  | connect host port => cases hgoes
  | connectAddress host ipaddr port =>
      rw [Entry.run_connectAddress]
      exact keeps_connectAddress ((Kept.enter h rfl rfl).same rfl rfl rfl)
  | dnsCallback host ipaddr =>
      have hresolved : Kept (.enter (.dnsCallback host ipaddr)) w (w.resolved host ipaddr) :=
        (Kept.enter h rfl rfl).same rfl rfl rfl
      cases ipaddr with
      | none =>
          rw [Entry.run_dnsCallback_none]
          exact (keeps_onClosed hresolved).bind fun _ _ _ _ h' => h'
      | some ipaddr =>
          rw [Entry.run_dnsCallback_some]
          exact (keeps_connectAddress hresolved).bind fun _ _ _ _ h' => h'
  | lwipConnected pcb err =>
      exact keeps_fromLwip (keeps_lwipConnected ((Kept.enter h rfl rfl).same rfl rfl rfl))
  | lwipRecv pcb p err =>
      rw [Entry.run_lwipRecv]
      refine keeps_fromLwip (keeps_lwipRecv ((Kept.enter h rfl rfl).same ?_ ?_ ?_)) <;>
        split <;> rfl
  | lwipSent pcb len => exact keeps_fromLwip (keeps_lwipSent ⟨h.callback, h.sentBytes⟩ rfl
      fun hroom => ⟨hroom, rfl⟩)
  | lwipErr pcb =>
      rw [Entry.run_lwipErr]
      refine keeps_fromLwip ?_
      rw [Session.lwipErr_apply]
      have hdropped : Kept (.enter (.lwipErr pcb)) w ((w.update (Net.drop pcb)).callBack .err) :=
        (Kept.enter h rfl rfl).same rfl rfl rfl
      have hcleared := hdropped.emit (e := .clearCallbacks w.session.pcb) rfl
      exact Reentrant.Contract.Stretch.bind (keeps_close (hcleared.same rfl rfl rfl))
        fun _ _ _ _ h' => h'

/-- **Every stretch of every method keeps the account.** -/
theorem guarded : contract.Guarded Accounts Entry.run where
  refl _ _ := trivial
  trans _ _ _ _ _ _ := trivial
  method pending w e h _ := by
    have hkeeps : Keeps pending (.enter e) w (e.run w) := by
      cases hrestarts : Move.restarts (.enter e) with
      | false => exact keeps_run h e hrestarts
      | true =>
          cases e with
          | connect host port =>
              rw [Entry.run_connect]
              exact keeps_connect rfl ⟨h.callback, h.sentBytes⟩
          | _ => cases hrestarts
    exact hkeeps.mono fun m w₀ r w' h' => ⟨h'.accounts, h'.good, trivial⟩

end Acknowledged

/-! ### The property of every run -/

open Reentrant (run)

/-- Any run. -/
abbrev anyRun (moves : List Move) (c : Config) : Option Config :=
  run Entry.run (fun _ _ _ => True) moves c

namespace Acknowledged

/-- What a run of one connection keeps. -/
theorem accounted_run (moves : List Move) : ∀ {c : Config},
    contract.Waiting Accounts c.stack c.state → (∀ m ∈ moves, m.restarts = false) →
    (∀ i < moves.length, ∀ c₁ ∈ anyRun (moves.take i) c,
      accounted c.state + acked (moves.take (i + 1)) ≤ reported c₁.state.log + 65535) →
    ∀ i, ∀ c₁ ∈ anyRun (moves.take i) c,
      accounted c₁.state = accounted c.state + acked (moves.take i) := by
  induction moves with
  | nil =>
      intro c h _ _ i c₁ hrun
      rw [List.take_nil] at hrun ⊢
      obtain rfl := Option.some.inj hrun
      rfl
  | cons m moves ih =>
      intro c h hone hroom i c₁ hrun
      cases i with
      | zero =>
          obtain rfl := Option.some.inj hrun
          rfl
      | succ i =>
          rw [List.take_succ_cons] at hrun ⊢
          rw [anyRun, run, if_pos trivial] at hrun
          obtain ⟨c', hstep, hrun⟩ := Option.bind_eq_some_iff.1 hrun
          obtain ⟨haccounts, h'⟩ := h.step guarded trivial hstep
          rw [Accounts, hone m List.mem_cons_self] at haccounts
          -- before its first move nothing of the run is unaccounted for
          have hfirst := hroom 0 (Nat.succ_pos _) c rfl
          rw [List.take_succ_cons, List.take_zero, acked] at hfirst
          have hmove : accounted c'.state = accounted c.state + m.acked := by
            refine haccounts ?_
            rw [accounted] at hfirst
            omega
          rw [ih h' (fun m' hm' => hone m' (List.mem_cons_of_mem _ hm')) ?_ i c₁ hrun, hmove,
            acked, Nat.add_assoc]
          intro j hj c₂ hrun₂
          have hroom' := hroom (j + 1) (Nat.succ_lt_succ hj) c₂ (by
            rw [List.take_succ_cons, anyRun, run, if_pos trivial]
            exact Option.bind_eq_some_iff.2 ⟨c', hstep, hrun₂⟩)
          rw [List.take_succ_cons, acked] at hroom'
          omega

/-- A connection begins with nothing to report. -/
theorem sentBytes_of_restarts (before : List Move) : ∀ {c c₀ : Config},
    contract.Waiting Accounts c.stack c.state → (before = [] → c.state.session.sentBytes = 0) →
    (∀ m ∈ before.getLast?, m.restarts = true) → anyRun before c = some c₀ →
    c₀.state.session.sentBytes = 0 := by
  induction before with
  | nil =>
      intro c c₀ _ hnil _ hrun
      obtain rfl := Option.some.inj hrun
      exact hnil rfl
  | cons m before ih =>
      intro c c₀ h _ hlast hrun
      rw [anyRun, run, if_pos trivial] at hrun
      obtain ⟨c', hstep, hrun⟩ := Option.bind_eq_some_iff.1 hrun
      obtain ⟨haccounts, h'⟩ := h.step guarded trivial hstep
      refine ih h' (fun hnil => ?_) (fun m' hm' => hlast m' ?_) hrun
      · subst hnil
        rwa [Accounts, if_pos (hlast m rfl)] at haccounts
      · cases before with
        | nil => cases hm'
        | cons m₂ before => rwa [List.getLast?_cons_cons]

theorem good_start (setup : Setup) (arg : Option ℕ) (tls : Bool) :
    Good (.start setup arg tls true) := ⟨rfl, Nat.two_pow_pos 16⟩

end Acknowledged

/-- **No acknowledged byte is lost or reported twice.**  A connection begins when the session is
constructed, with a callback object, or when it is connected again, whatever has happened before.
While no more than 65535 bytes are acknowledged and not reported, at every point of it the bytes
that it has reported and those in `m_sentBytes` are the bytes that lwIP has acknowledged. -/
theorem acknowledged_conserved (setup : Setup) (arg : Option ℕ) (tls : Bool)
    (before moves : List Move) (c₀ : Config)
    (hbefore : anyRun before (.start (.start setup arg tls true)) = some c₀)
    (hbegin : ∀ m ∈ before.getLast?, m.restarts = true)
    (hone : ∀ m ∈ moves, m.restarts = false)
    (hunreported : ∀ i < moves.length, ∀ c₁ ∈ anyRun (moves.take i) c₀,
      reported c₀.state.log + acked (moves.take (i + 1)) ≤ reported c₁.state.log + 65535) :
    ∀ i, ∀ c₁ ∈ anyRun (moves.take i) c₀,
      reported c₁.state.log + c₁.state.session.sentBytes =
        reported c₀.state.log + acked (moves.take i) := by
  have hstart : Acknowledged.contract.Waiting Acknowledged.Accounts
      (.start (.start setup arg tls true) : Config).stack (.start setup arg tls true) :=
    Acknowledged.good_start setup arg tls
  have hempty := Acknowledged.sentBytes_of_restarts before hstart (fun _ => rfl) hbegin hbefore
  have hwaiting := hstart.run Acknowledged.guarded before hbefore
  have haccounted : Acknowledged.accounted c₀.state = reported c₀.state.log := by
    rw [Acknowledged.accounted, hempty, Nat.add_zero]
  have hrun := Acknowledged.accounted_run moves hwaiting hone
  rw [haccounted] at hrun
  exact hrun hunreported

/-- Bytes that are acknowledged inside `altcp_write` are reported when `send` ends. -/
theorem acknowledged_conserved_example : ∃ c₀ : Config,
    anyRun [] (.start (.start ⟨16384, true, by decide⟩ (some 1) false true)) = some c₀ ∧
    ∀ i, ∀ c₁ ∈ anyRun ([.enter (.send (some [7, 8])), .enter (.lwipSent 1 2),
        .answer (.altcpWrite (some 1) [7, 8]) .ERR_OK, .answer (.altcpOutput (some 1)) .ERR_OK,
        .answer (.onSent 2) true].take i) c₀,
      reported c₁.state.log + c₁.state.session.sentBytes =
        reported c₀.state.log + acked ([.enter (.send (some [7, 8])), .enter (.lwipSent 1 2),
          .answer (.altcpWrite (some 1) [7, 8]) .ERR_OK, .answer (.altcpOutput (some 1)) .ERR_OK,
          .answer (.onSent 2) true].take i) := by
  refine ⟨_, rfl, acknowledged_conserved ⟨16384, true, by decide⟩ (some 1) false []
    [.enter (.send (some [7, 8])), .enter (.lwipSent 1 2),
      .answer (.altcpWrite (some 1) [7, 8]) .ERR_OK, .answer (.altcpOutput (some 1)) .ERR_OK,
      .answer (.onSent 2) true] _ rfl (by decide) (by decide) ?_⟩
  intro i hi c₁ _
  have hacked : ∀ i < 5, acked ([.enter (.send (some [7, 8])), .enter (.lwipSent 1 2),
      .answer (.altcpWrite (some 1) [7, 8]) .ERR_OK, .answer (.altcpOutput (some 1)) .ERR_OK,
      .answer (.onSent 2) true].take (i + 1)) ≤ 65535 := by
    decide
  have hnone : reported (Reentrant.Config.start (World.start ⟨16384, true, by decide⟩ (some 1)
      false true) : Config).state.log = 0 := rfl
  have hle := hacked i hi
  rw [hnone]
  omega

end Tls
