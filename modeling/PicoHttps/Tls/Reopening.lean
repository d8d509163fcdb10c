/-
**A closed session and its pcb.**

A session that has been closed stays closed until the application connects it to a host again: it
creates no pcb, and `on_connected` is not called.  And the pcb it holds is not overwritten while
lwIP still has it.  Both may fail when a lookup is answered late: `dns_callback` looks neither at
`m_closing` nor at `m_pcb` before it connects.

Main definitions:

* `Tls.KeepsClosed` — what one move has to leave true;
* `Tls.ByHost` — the application connects to hosts only;
* `Tls.FindsFree` — an address is found for an open session without a pcb;
* `Tls.Reopening.Sane` — lwIP has the pcb of the session and no other.

Main results:

* `Tls.Reopening.guarded` — every stretch of every method keeps the session closed;
* `Tls.closed_kept` — **so does every move in every run**, if addresses are found in time;
* `Tls.closed_reopened` — an address that is found after a close brings a new pcb.
-/

import PicoHttps.Tls.Methods

set_option relaxedAutoImplicit false
set_option autoImplicit false

namespace Tls

/-! ### The property -/

/-- The events that a closed session does not show. -/
def Event.revives : Event → Bool
  | .call (.altcpNew _) => true
  | .call .onConnected => true
  | _ => false

/-- The pcbs that are created and the calls of `on_connected`. -/
def revivals (log : List Event) : List Event := log.filter Event.revives

/-- **What a move leaves true**: `close` closes the session; a closed session stays closed until it
is connected, is not connected, creates no pcb and does not call `on_connected`; and a pcb that
lwIP has is not overwritten. -/
structure KeepsClosed (m : Move) (w w' : World) : Prop where
  closes : m = .enter .close → w'.session.closing = true
  stays : w.session.closing = true → m.connects = false → w'.session.closing = true
  disconnected : w'.session.closing = true → w'.session.isConnected = false
  silent : w'.session.closing = true → revivals w'.log = revivals w.log
  kept : ∀ pcb, w.session.pcb = some pcb → pcb ∈ w.net.live →
    w'.session.pcb = some pcb ∨ pcb ∉ w'.net.live

/-- The application connects to hosts, not to addresses. -/
def ByHost : Move → Prop
  | .enter (.connectAddress _ _ _) => False
  | _ => True

instance : ∀ m, Decidable (ByHost m)
  | .enter (.connectAddress _ _ _) => inferInstanceAs (Decidable False)
  | .enter (.send _) | .enter .close | .enter (.connect _ _) | .enter (.dnsCallback _ _)
  | .enter (.lwipConnected _ _) | .enter (.lwipRecv _ _ _) | .enter (.lwipSent _ _)
  | .enter (.lwipErr _) | .answer _ _ => inferInstanceAs (Decidable True)

/-! ### The condition -/

/-- An address is found, at once or later. -/
def Move.finds : Move → Bool
  | .enter (.dnsCallback _ ipaddr) => ipaddr.isSome
  | .answer (.dnsGethostbyname _) found => found.1 = .ERR_OK
  | _ => false

/-- **An address is found for an open session without a pcb**, or for one that cannot use it. -/
def FindsFree (w : World) (m : Move) : Prop :=
  m.finds → (w.session.tls && !w.setup.tlsClientConfig) = true ∨
    w.session.closing = false ∧ w.session.pcb = none

instance (w : World) (m : Move) : Decidable (FindsFree w m) :=
  inferInstanceAs (Decidable (_ → _))

/-! ### What every stretch keeps -/

namespace Reopening

/-- lwIP has the pcb of the session and no other, and none if the session is closed. -/
structure Sane (w : World) : Prop where
  live : w.net.live = w.session.pcb.toList
  closed : w.session.closing = true → w.session.pcb = none

/-- What holds in the stretch that began with the move `m` in the world `w₀`. -/
structure Before (m : Move) (w₀ w : World) : Prop where
  stays : w₀.session.closing = true → m.connects = false → w.session.closing = true
  silent : revivals w.log = revivals w₀.log
  sane : Sane w

/-- The same, when `close` has closed the session. -/
structure Since (m : Move) (w₀ w : World) : Prop extends Before m w₀ w where
  closes : m = .enter .close → w.session.closing = true

/-- The moves, and what a call that lets nobody in leaves alone. -/
def contract : Reentrant.Contract World Entry Call Call.Answer where
  ok pending w m := Proper pending w m ∧ ByHost m ∧ FindsFree w m
  good _ w := Sane w
  rely pending w w' := ∀ c ∈ pending.head?, c.isCallback = false → c.isOutput = false → w' = w

instance : ∀ pending w m, Decidable (contract.ok pending w m) :=
  fun _ _ _ => inferInstanceAs (Decidable (_ ∧ _ ∧ _))

/-- The contract is kept, and every stretch keeps the session closed. -/
abbrev Spec (pending : List Call) {α : Type} (post : Move → World → α → World → Prop) :
    Move → World → Reentrant.Res World Call Call.Answer α → Prop :=
  contract.Stretch KeepsClosed pending post

open Reentrant.Contract (Stretch)

variable {pending : List Call} {m : Move} {w₀ w w' : World}

theorem isConnected_of_closing (h : w.session.closing = true) :
    w.session.isConnected = false := by
  rw [Session.isConnected, h]
  cases w.session.pcb <;> rfl

theorem Sane.kept (h : Sane w') (pcb : ℕ) :
    w'.session.pcb = some pcb ∨ pcb ∉ w'.net.live := by
  rw [h.live]
  cases w'.session.pcb with
  | none => exact .inr List.not_mem_nil
  | some q =>
      rcases eq_or_ne q pcb with rfl | hne
      · exact .inl rfl
      · exact .inr fun hmem => hne (List.mem_singleton.1 hmem).symm

theorem Since.keepsClosed (h : Since m w₀ w) : KeepsClosed m w₀ w where
  closes := h.closes
  stays := h.stays
  disconnected := isConnected_of_closing
  silent := fun _ => h.silent
  kept := fun pcb _ _ => h.sane.kept pcb

theorem Since.refl (h : Sane w) (hm : m ≠ .enter .close) : Since m w w :=
  ⟨⟨fun hclosing _ => hclosing, rfl, h⟩, fun heq => absurd heq hm⟩

theorem revivals_emit {e : Event} (he : e.revives = false) :
    revivals (w.emit e).log = revivals w.log := by
  rw [World.emit_log, revivals, List.filter_append, List.filter_cons_of_neg (by rw [he]; simp),
    List.filter_nil, List.append_nil]
  rfl

/-- A step that leaves the pcb, `m_closing` and the pcbs of lwIP as they are. -/
theorem Before.same (h : Before m w₀ w) (hpcb : w'.session.pcb = w.session.pcb)
    (hclosing : w'.session.closing = w.session.closing) (hlive : w'.net.live = w.net.live)
    (hsilent : revivals w'.log = revivals w.log) : Before m w₀ w' where
  stays := by
    intro hw₀ hm
    rw [hclosing]
    exact h.stays hw₀ hm
  silent := hsilent.trans h.silent
  sane := ⟨by rw [hlive, hpcb]; exact h.sane.live, by rw [hclosing, hpcb]; exact h.sane.closed⟩

theorem Since.same (h : Since m w₀ w) (hpcb : w'.session.pcb = w.session.pcb)
    (hclosing : w'.session.closing = w.session.closing) (hlive : w'.net.live = w.net.live)
    (hsilent : revivals w'.log = revivals w.log) : Since m w₀ w' where
  toBefore := h.toBefore.same hpcb hclosing hlive hsilent
  closes := by
    intro hm
    rw [hclosing]
    exact h.closes hm

theorem Since.emit {e : Event} (h : Since m w₀ w) (he : e.revives = false) :
    Since m w₀ (w.emit e) :=
  h.same rfl rfl rfl (revivals_emit he)

/-- A call.  Of those that only an open session makes it has to be open. -/
theorem spec_call {α : Type} {post : Move → World → α → World → Prop} {c : Call}
    {k : c.Answer → World → Reentrant.Res World Call Call.Answer α} (h : Since m w₀ w)
    (hc : (Event.call c).revives = true → w.session.closing = false)
    (hk : ∀ a w', Since (.answer c a) w' w' → contract.rely (c :: pending) (w.emit (.call c)) w' →
      FindsFree w' (.answer c a) → Spec pending post (.answer c a) w' (k a w')) :
    Spec pending post m w₀ (.call c (w.emit (.call c)) k) := by
  refine Reentrant.Contract.stretch_call.2 ⟨⟨h.sane.live, h.sane.closed⟩, ?_, ?_⟩
  · cases hrevives : (Event.call c).revives with
    | false => exact (h.emit hrevives).keepsClosed
    | true =>
        have hopen := hc hrevives
        refine ⟨h.closes, h.stays, isConnected_of_closing, fun hclosing => ?_,
          fun pcb _ _ => h.sane.kept pcb⟩
        exact absurd (hclosing.symm.trans hopen) Bool.noConfusion
  · intro a w' hgood hrely hok
    exact hk a w' (.refl hgood nofun) hrely hok.2.2

/-! #### Closing -/

theorem revivals_shut : revivals w.shut.log = revivals w.log := by
  rw [World.shut_log, revivals, List.filter_append]
  cases w.session.pcb <;> exact List.append_nil _

theorem Sane.shut (h : Sane w) : Sane w.shut := by
  have hlive : w.shut.net.live = [] := by
    rw [World.shut_net]
    cases hpcb : w.session.pcb with
    | none => rw [Option.elim_none, h.live, hpcb]; rfl
    | some pcb =>
        rw [Option.elim_some, Net.drop, h.live, hpcb]
        exact List.filter_eq_nil_iff.2 fun q hq => by simpa using hq
  refine ⟨?_, fun _ => ?_⟩
  · rw [hlive, World.shut_session]
    rfl
  · rw [World.shut_session]

theorem Before.shut (h : Before m w₀ w) : Since m w₀ w.shut where
  stays := fun _ _ => by rw [World.shut_session]
  silent := revivals_shut.trans h.silent
  sane := h.sane.shut
  closes := fun _ => by rw [World.shut_session]

theorem spec_onClosed (h : Since m w₀ w) :
    Spec pending (fun m w₀ _ w' => Since m w₀ w') m w₀ (Session.onClosed w) := by
  rw [Session.onClosed_apply]
  split
  · exact spec_call h nofun fun _ _ h' _ _ => h'
  · exact h

theorem spec_close (h : Before m w₀ w) :
    Spec pending (fun m w₀ _ w' => Since m w₀ w') m w₀ (Session.close w) := by
  rw [Session.close_apply]
  split
  · rename_i hclosing
    exact ⟨h, fun _ => hclosing⟩
  · split
    · exact h.shut
    · exact (spec_onClosed h.shut).bind fun _ _ _ _ h' => h'

/-! #### Sending -/

theorem spec_checkSendFailure {err : Err} (h : Since m w₀ w) :
    Spec pending (fun m w₀ _ w' => Since m w₀ w') m w₀ (Session.checkSendFailure err w) := by
  have hset : Since m w₀ (w.set fun s => { s with processing := false }) := h.same rfl rfl rfl rfl
  rw [Session.checkSendFailure_apply]
  split
  · exact hset
  · split
    · exact (spec_onClosed hset).bind fun _ _ _ _ h' => h'
    · exact h

theorem spec_flush (h : Since m w₀ w) :
    Spec pending (fun m w₀ _ w' => Since m w₀ w') m w₀ (Session.flush w) := by
  rw [Session.flush_apply]
  split
  · exact h
  · exact spec_call h nofun fun _ _ h' _ _ => h'

theorem spec_lwipSent {len : ℕ} (h : Since m w₀ w) :
    Spec pending (fun m w₀ _ w' => Since m w₀ w') m w₀ (Session.lwipSent len w) := by
  rw [Session.lwipSent_apply]
  split
  · exact Since.same h rfl rfl rfl rfl
  · split
    · refine spec_call (h.same rfl rfl rfl rfl) nofun fun accepted w' h' _ _ => ?_
      cases accepted with
      | true => exact h'
      | false => exact spec_close h'.toBefore
    · exact Since.same h rfl rfl rfl rfl

theorem spec_writeLoop {turns : ℕ} : ∀ {data : List UInt8} {m : Move} {w₀ w : World},
    Since m w₀ w →
      Spec pending (fun m w₀ _ w' => Since m w₀ w') m w₀ (Session.writeLoop turns data w) := by
  induction turns with
  | zero => exact fun h => h
  | succ turns ih =>
      intro data m w₀ w h
      rcases eq_or_ne data [] with rfl | hdata
      · exact h
      · obtain ⟨n, -, -, hloop⟩ := Session.writeLoop_succ w turns hdata
        rw [hloop]
        refine spec_call h nofun fun err w' h' _ _ => ?_
        refine (spec_checkSendFailure h').bind fun m w₀ r w'' h'' => ?_
        split
        · exact h''
        · exact ih h''

theorem spec_finishSend (h : Since m w₀ w) :
    Spec pending (fun m w₀ _ w' => Since m w₀ w') m w₀ (Session.finishSend w) := by
  rw [Session.finishSend_apply]
  refine (spec_flush h).bind fun m w₀ err w' h' => ?_
  refine (spec_checkSendFailure h').bind fun m w₀ r w'' h'' => ?_
  split
  · exact h''
  · split
    · exact spec_lwipSent (h''.same rfl rfl rfl rfl)
    · exact Since.same h'' rfl rfl rfl rfl

theorem spec_send {data : Option (List UInt8)} (h : Since m w₀ w) :
    Spec pending (fun m w₀ _ w' => Since m w₀ w') m w₀ (Session.send data w) := by
  cases data with
  | none => exact h
  | some data =>
      rw [Session.send_apply]
      split
      · exact h
      · refine Stretch.bind (spec_writeLoop (h.same rfl rfl rfl rfl)) fun m w₀ r w' h' => ?_
        cases r with
        | none => exact spec_finishSend h'
        | some err => exact h'

/-! #### Receiving -/

theorem spec_releaseChain {pcb : ℕ} {p : List Pbuf} (h : Since m w₀ w) :
    Spec pending (fun m w₀ _ w' => Since m w₀ w') m w₀ (Session.releaseChain pcb p w) := by
  rw [Session.releaseChain_apply]
  exact Since.emit (h.emit rfl) rfl

theorem spec_recvLoop {pcb : ℕ} {p : List Pbuf} {it : List Pbuf} : ∀ {m : Move} {w₀ w : World},
    Since m w₀ w →
      Spec pending (fun m w₀ _ w' => Since m w₀ w') m w₀ (Session.recvLoop pcb p it w) := by
  induction it with
  | nil => exact fun h => h
  | cons it next ih =>
      intro m w₀ w h
      rw [Session.recvLoop_cons]
      refine spec_call h nofun fun accepted w' h' _ _ => ?_
      have hset : Since (.answer (.onRecv it.payload) accepted) w'
          (w'.set fun s => { s with processing := false }) := h'.same rfl rfl rfl rfl
      split
      · exact (spec_onClosed hset).bind fun _ _ _ _ h'' => h''
      · split
        · refine (spec_releaseChain hset).bind fun m w₀ _ w'' h'' => ?_
          exact (spec_close h''.toBefore).bind fun _ _ _ _ h => h
        · split
          · exact h'
          · exact ih h'

/-- `lwip_recv`, after it has dropped a pcb that lwIP has no more. -/
theorem spec_lwipRecv {pcb : ℕ} {p : List Pbuf} {err : Err}
    (h : Since m w₀ (if err = .ERR_ABRT then w.set fun s => { s with pcb := none } else w)) :
    Spec pending (fun m w₀ _ w' => Since m w₀ w') m w₀ (Session.lwipRecv pcb p err w) := by
  rw [Session.lwipRecv_apply]
  dsimp only
  generalize (if err = .ERR_ABRT then w.set fun s => { s with pcb := none } else w) = w' at h ⊢
  split
  · exact spec_close h.toBefore
  · split
    · exact (spec_close h.toBefore).bind fun _ _ _ _ h' => h'
    · split
      · refine Stretch.bind (spec_recvLoop (h.same rfl rfl rfl rfl)) fun m w₀ r w' h' => ?_
        cases r with
        | none =>
            exact Stretch.bind (spec_releaseChain (h'.same rfl rfl rfl rfl)) fun _ _ _ _ h'' => h''
        | some err => exact h'
      · exact (spec_releaseChain h).bind fun _ _ _ _ h' => h'

/-! #### Connecting -/

theorem Since.prepare {tls : Bool} {host : Option Host} {pcb : Option ℕ} (h : Since m w₀ w)
    (hclosing : w.session.closing = false) (hpcb : w.session.pcb = none) :
    Since m w₀ (w.prepare tls host pcb) where
  stays := by
    intro hw₀ hm
    exact absurd (h.stays hw₀ hm) (by rw [hclosing]; exact Bool.false_ne_true)
  silent := by
    refine Eq.trans ?_ h.silent
    rw [World.prepare_log, revivals, List.filter_append]
    cases tls <;> cases host <;> exact List.append_nil _
  sane := by
    refine ⟨?_, fun hclosed => ?_⟩
    · rw [World.prepare_net, World.prepare_session, h.sane.live, hpcb]
      rfl
    · rw [World.prepare_session, hclosing] at hclosed
      cases hclosed
  closes := by
    rw [World.prepare_session]
    exact h.closes

theorem spec_connectAddress {host : Option Host} {ipaddr port : ℕ} (h : Since m w₀ w)
    (hfree : (w.session.tls && !w.setup.tlsClientConfig) = true ∨
      w.session.closing = false ∧ w.session.pcb = none) :
    Spec pending (fun m w₀ _ w' => Since m w₀ w') m w₀
      (Session.connectAddress host ipaddr port w) := by
  rw [Session.connectAddress_apply]
  split
  · exact spec_close h.toBefore
  · rename_i husable
    obtain ⟨hclosing, hpcb⟩ := hfree.resolve_left husable
    refine spec_call h (fun _ => hclosing) fun pcb w' h' hsame _ => ?_
    -- nobody enters the session while it waits for `altcp_new`
    obtain rfl := hsame _ rfl rfl rfl
    refine spec_call (h'.prepare hclosing hpcb) nofun fun err w'' h'' _ _ => ?_
    split
    · exact spec_close h''.toBefore
    · exact h''

theorem spec_connect {host : Host} {port : ℕ} (h : Since m w₀ w) (hm : m.connects = true)
    (hclose : m ≠ .enter .close) :
    Spec pending (fun m w₀ _ w' => Since m w₀ w') m w₀ (Session.connect host port w) := by
  rw [Session.connect_apply]
  have hopen : Since m w₀ (w.set fun s =>
      { s with closing := false, connected := false, sentBytes := 0, port := port }) :=
    ⟨⟨fun _ hm' => absurd (hm.symm.trans hm') Bool.noConfusion, h.silent, h.sane.live, nofun⟩,
      fun heq => absurd heq hclose⟩
  refine spec_call hopen nofun fun found w' h' hsame hfree => ?_
  have hclosing : w'.session.closing = false := by
    rw [hsame _ rfl rfl rfl]
    rfl
  split
  · rename_i hfound
    exact spec_connectAddress h' (hfree (decide_eq_true hfound))
  · split
    · exact Since.same h' rfl rfl rfl rfl
    · exact h'

theorem spec_lwipConnected {err : Err} (h : Since m w₀ w) (hclosing : w.session.closing = false) :
    Spec pending (fun m w₀ _ w' => Since m w₀ w') m w₀ (Session.lwipConnected err w) := by
  rw [Session.lwipConnected_apply]
  split
  · exact spec_close h.toBefore
  · dsimp only
    have hset : Since m w₀ (w.set fun s => { s with connected := true }) := h.same rfl rfl rfl rfl
    split
    · exact spec_call hset (fun _ => hclosing) fun _ _ h' _ _ => h'
    · exact hset

/-! #### The ways in -/

theorem spec_fromLwip {cb : Callback} {x : Prog Err}
    (h : Spec pending (fun m w₀ _ w' => Since m w₀ w') m w₀ (x (w.callBack cb))) :
    Spec pending (fun m w₀ _ w' => Since m w₀ w') m w₀ (fromLwip cb x w) := by
  rw [fromLwip_apply]
  exact h.bind fun _ _ _ _ h' => Since.same h' rfl rfl rfl rfl

/-- lwIP has the pcb no more, and the session drops it. -/
theorem Sane.lose {pcb : ℕ} (h : Sane w) (hpcb : pcb ∈ w.net.live)
    (hlive : w'.net.live = (w.net.drop pcb).live) (hnone : w'.session.pcb = none) : Sane w' := by
  refine ⟨?_, fun _ => hnone⟩
  have hmine : w.session.pcb = some pcb := (h.kept pcb).resolve_right fun hmem => hmem hpcb
  rw [hlive, hnone, Net.drop, h.live, hmine]
  exact List.filter_eq_nil_iff.2 fun q hq => by simpa using hq

theorem spec_run_lwipRecv {pcb : ℕ} {p : List Pbuf} {err : Err} (h : Sane w)
    (hpcb : pcb ∈ w.net.live) :
    Spec pending (fun m w₀ _ w' => Since m w₀ w') (.enter (.lwipRecv pcb p err)) w
      (Entry.run (.lwipRecv pcb p err) w) := by
  rw [Entry.run_lwipRecv]
  refine spec_fromLwip (spec_lwipRecv ?_)
  have hself : Since (.enter (.lwipRecv pcb p err)) w w := .refl h nofun
  rcases eq_or_ne err .ERR_ABRT with rfl | herr
  · exact ⟨⟨hself.stays, rfl, h.lose hpcb rfl rfl⟩, nofun⟩
  · rw [if_neg herr, if_neg herr]
    exact hself.same rfl rfl rfl rfl

theorem spec_run_lwipErr {pcb : ℕ} (h : Sane w) (hpcb : pcb ∈ w.net.live) :
    Spec pending (fun m w₀ _ w' => Since m w₀ w') (.enter (.lwipErr pcb)) w
      (Entry.run (.lwipErr pcb) w) := by
  rw [Entry.run_lwipErr]
  refine spec_fromLwip ?_
  rw [Session.lwipErr_apply]
  have hlost : Before (.enter (.lwipErr pcb)) w ((((w.update (Net.drop pcb)).callBack .err).emit
      (.clearCallbacks w.session.pcb)).set fun s => { s with pcb := none }) :=
    ⟨fun hclosing _ => hclosing, revivals_emit rfl, h.lose hpcb rfl rfl⟩
  exact (spec_close hlost).bind fun _ _ _ _ h' => h'

theorem spec_run_dnsCallback {host : Host} {ipaddr : Option ℕ} (h : Sane w)
    (hfree : FindsFree w (.enter (.dnsCallback host ipaddr))) :
    Spec pending (fun m w₀ _ w' => Since m w₀ w') (.enter (.dnsCallback host ipaddr)) w
      (Entry.run (.dnsCallback host ipaddr) w) := by
  have hself : Since (.enter (.dnsCallback host ipaddr)) w w := .refl h nofun
  have hresolved : Since (.enter (.dnsCallback host ipaddr)) w (w.resolved host ipaddr) :=
    hself.same rfl rfl rfl rfl
  cases ipaddr with
  | none =>
      rw [Entry.run_dnsCallback_none]
      exact (spec_onClosed hresolved).bind fun _ _ _ _ h' => h'
  | some ipaddr =>
      rw [Entry.run_dnsCallback_some]
      exact (spec_connectAddress hresolved (hfree rfl)).bind fun _ _ _ _ h' => h'

theorem spec_run (e : Entry) (h : Sane w) (hok : contract.ok pending w (.enter e)) :
    Spec pending (fun m w₀ _ w' => Since m w₀ w') (.enter e) w (e.run w) := by
  obtain ⟨hproper, hhost, hfree⟩ := hok
  cases e with
  | send data => exact spec_send (.refl h nofun)
  | close => exact spec_close ⟨fun hclosing _ => hclosing, rfl, h⟩
  | connect host port =>
      rw [Entry.run_connect]
      have hself : Since (.enter (.connect host port)) w w := .refl h nofun
      exact spec_connect (hself.same rfl rfl rfl rfl) rfl nofun
  | connectAddress host ipaddr port => exact hhost.elim
  | dnsCallback host ipaddr => exact spec_run_dnsCallback h hfree
  | lwipConnected pcb err =>
      have hself : Since (.enter (.lwipConnected pcb err)) w w := .refl h nofun
      refine spec_fromLwip (spec_lwipConnected (hself.same rfl rfl rfl rfl) ?_)
      -- the pcb is the session's, so the session is open
      have hpcb := (h.kept pcb).resolve_right fun hmem => hmem hproper.2
      refine Bool.eq_false_iff.2 fun hclosing => ?_
      rw [h.closed hclosing] at hpcb
      cases hpcb
  | lwipRecv pcb p err => exact spec_run_lwipRecv h hproper.2
  | lwipSent pcb len =>
      have hself : Since (.enter (.lwipSent pcb len)) w w := .refl h nofun
      exact spec_fromLwip (spec_lwipSent (hself.same rfl rfl rfl rfl))
  | lwipErr pcb => exact spec_run_lwipErr h hproper.2

/-- A call that lets nobody in is not waited for when a method is entered. -/
theorem rely_of_enter {e : Entry} (hok : contract.ok pending w (.enter e)) (w' : World) :
    contract.rely pending w w' := by
  intro c hc hcallback houtput
  have hnot (f : Call → Bool) (hf : f c = false) : pending.head?.all f ≠ true := by
    rw [hc, Option.all_some, hf]
    exact Bool.false_ne_true
  have hnil : pending ≠ [] := by
    rintro rfl
    cases hc
  have hproper := hok.1
  cases e with
  | send | close | connect | connectAddress => exact absurd hproper (hnot _ hcallback)
  | lwipSent | lwipErr => exact absurd hproper.1 (hnot _ houtput)
  | dnsCallback | lwipConnected | lwipRecv => exact absurd hproper.1 hnil

/-- **Every stretch of every method keeps the session closed.** -/
theorem guarded : contract.Guarded KeepsClosed Entry.run where
  refl _ _ _ _ _ _ := rfl
  trans _ _ _ _ h h' c hc hcallback houtput :=
    (h' c hc hcallback houtput).trans (h c hc hcallback houtput)
  method _ _ e hsane hok := (spec_run e hsane hok).mono fun _ _ _ w' h =>
    ⟨h.keepsClosed, h.sane, rely_of_enter hok w'⟩

end Reopening

/-! ### The property of every run -/

/-- **A closed session stays closed and a pcb is not overwritten**, in every run in which addresses
are found for open sessions without a pcb. -/
theorem closed_kept (setup : Setup) (tls callback : Bool) (moves : List Move) (c c' : Config)
    (m : Move)
    (hrun : Reentrant.run Entry.run
      (fun pending w m => Proper pending w m ∧ ByHost m ∧ FindsFree w m) moves
      (.start (.start setup none tls callback)) = some c)
    (hm : Proper c.pending c.state m ∧ ByHost m ∧ FindsFree c.state m)
    (hstep : Reentrant.step Entry.run c m = some c') : KeepsClosed m c.state c'.state :=
  Reopening.guarded.run ⟨rfl, fun _ => rfl⟩ hrun hm hstep

/-- A host that is found after a first lookup has failed; the session is closed at the end. -/
theorem closed_kept_example :
    ∃ c c' : Config, Reentrant.run Entry.run
      (fun pending w m => Proper pending w m ∧ ByHost m ∧ FindsFree w m)
      [.enter (.connect [104] 80), .answer (.dnsGethostbyname [104]) (.ERR_INPROGRESS, 0),
        .enter (.dnsCallback [104] none), .answer .onClosed (),
        .enter (.connect [104] 80), .answer (.dnsGethostbyname [104]) (.ERR_OK, 9),
        .answer (.altcpNew false) (some 1), .answer (.altcpConnect (some 1) 9 80) .ERR_OK]
      (.start (.start ⟨16384, true, by decide⟩ none false true)) = some c ∧
      Reentrant.step Entry.run c (.enter .close) = some c' ∧
      KeepsClosed (.enter .close) c.state c'.state := by
  refine ⟨_, _, rfl, rfl, closed_kept ⟨16384, true, by decide⟩ false true
    [.enter (.connect [104] 80), .answer (.dnsGethostbyname [104]) (.ERR_INPROGRESS, 0),
      .enter (.dnsCallback [104] none), .answer .onClosed (),
      .enter (.connect [104] 80), .answer (.dnsGethostbyname [104]) (.ERR_OK, 9),
      .answer (.altcpNew false) (some 1), .answer (.altcpConnect (some 1) 9 80) .ERR_OK]
    _ _ (.enter .close) ?_ ?_ ?_⟩
  · rfl
  · decide
  · rfl

/-- **An address that is found after the session has been closed brings a new pcb.** -/
theorem closed_reopened :
    ¬ ∀ (setup : Setup) (tls callback : Bool) (moves : List Move) (c c' : Config) (m : Move),
      Reentrant.run Entry.run (fun pending w m => Proper pending w m ∧ ByHost m) moves
        (.start (.start setup none tls callback)) = some c →
      Proper c.pending c.state m ∧ ByHost m → Reentrant.step Entry.run c m = some c' →
      KeepsClosed m c.state c'.state := by
  intro hall
  have h := hall ⟨16384, true, by decide⟩ false true
    [.enter (.connect [104] 80), .answer (.dnsGethostbyname [104]) (.ERR_INPROGRESS, 0),
      .enter .close, .answer .onClosed ()] _ _ (.enter (.dnsCallback [104] (some 9))) rfl
    (by decide) rfl
  exact absurd (h.silent rfl) (by decide)

end Tls
