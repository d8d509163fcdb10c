/-
**A session notifies closure once.**

The owners of a `Session` delete themselves in `on_closed`, so it must be called once, as the last
callback.  Closing inside `on_recv` or inside a call of `altcp_write` leaves the notification to
whoever made that call, the *owner* of the notification, and `m_processing` says that there is one.
But `send` clears `m_processing` when it ends, also inside `on_recv`, where `lwip_recv` is still the
owner; and nothing ties the resolver, which notifies a failed lookup, to `close`.

Main definitions:

* `Tls.NotifiedOnce` — no callback is called after `on_closed`;
* `Tls.OneConnection` — the session was accepted with its pcb, or is connected once;
* `Tls.Orderly` — the moves that do not take the session out of this protocol;
* `Tls.Closing.Good` — the invariant.

Main results:

* `Tls.Closing.sound` — every method keeps the invariant;
* `Tls.notified_once` — **closure is notified at most once, as the last callback**, in every run
  of orderly moves;
* `Tls.notified_twice` — a run that notifies it twice.
-/

import PicoHttps.Tls.Methods

set_option relaxedAutoImplicit false
set_option autoImplicit false

namespace Tls

/-! ### The property -/

/-- A call of the callback object. -/
def Event.isCallback : Event → Bool
  | .call c => c.isCallback
  | _ => false

/-- No method of the callback object is called after `on_closed`. -/
def NotifiedOnce (log : List Event) : Prop :=
  log.Pairwise fun e e' => e = .call .onClosed → e'.isCallback = false

instance (log : List Event) : Decidable (NotifiedOnce log) :=
  inferInstanceAs (Decidable (log.Pairwise _))

/-- The session is accepted with a pcb and never connects, or it connects once. -/
def OneConnection (arg : Option ℕ) (w : World) (m : Move) : Prop :=
  m.connects → arg = none ∧ w.net.connects = 0

instance (arg : Option ℕ) (w : World) (m : Move) : Decidable (OneConnection arg w m) :=
  inferInstanceAs (Decidable (_ → _))

/-! ### The condition -/

/-- A close that takes effect does not come after a failed lookup, and not inside `on_recv` once a
`send` there has cleared `m_processing`. -/
def CloseFits (pending : List Call) (w : World) : Prop :=
  w.session.closing = false → w.net.failed = false ∧
    (w.session.processing = false → ∀ c ∈ pending, c.isRecv = false)

/-- The session has not been closed inside `on_recv`. -/
def OutputFits (pending : List Call) (w : World) : Prop :=
  w.session.closing = true → ∀ c ∈ pending, c.isRecv = false

/-- **The moves that keep to the protocol**: closes that fit; no `ERR_OK` for bytes of a session
that has been closed inside `on_recv`; no connection of a session that has been closed. -/
def Orderly (pending : List Call) (w : World) (m : Move) : Prop :=
  (m.closes → CloseFits pending w) ∧ (m.writes → OutputFits pending w) ∧
    (m.opens → w.session.closing = false)

instance (pending : List Call) (w : World) : Decidable (CloseFits pending w) :=
  inferInstanceAs (Decidable (_ → _))

instance (pending : List Call) (w : World) : Decidable (OutputFits pending w) :=
  inferInstanceAs (Decidable (_ → _))

instance (pending : List Call) (w : World) (m : Move) : Decidable (Orderly pending w m) :=
  inferInstanceAs (Decidable (_ ∧ _ ∧ _))

/-! ### The invariant -/

namespace Closing

/-- The calls whose maker owns the notification of a close that happens inside them. -/
def owns (c : Call) : Bool := c.isRecv || c.isOutput

/-- A connection is still to come. -/
def Awaited (arg : Option ℕ) (w : World) : Prop :=
  w.net.lookups ≠ [] ∨ (arg = none ∧ w.net.connects = 0)

/-- The part of the invariant that a method keeps at every one of its steps. -/
structure Base (arg : Option ℕ) (pending : List Call) (w : World) : Prop where
  once : NotifiedOnce w.log
  live : ∀ pcb ∈ w.net.live, w.session.pcb = some pcb
  output : ∀ c ∈ pending.tail, c.isOutput = false
  processing : (∃ c ∈ pending.head?, c.isOutput = true) → w.session.processing = true
  awaited : Awaited arg w → w.net.failed = false ∧ ∀ c ∈ pending, owns c = false
  attempts : w.net.lookups.length ≤ 1 ∧
    (w.net.lookups ≠ [] → ¬ (arg = none ∧ w.net.connects = 0))

/-- The session has notified closure. -/
abbrev Notified (w : World) : Prop := .call .onClosed ∈ w.log

/-- **The invariant.** -/
structure Good (arg : Option ℕ) (pending : List Call) (w : World) : Prop extends
    Base arg pending w where
  notified : Notified w → w.session.pcb = none ∧
    (w.session.closing = true ∨ w.net.failed = true) ∧ ∀ c ∈ pending, owns c = false
  gone : w.session.closing = true → w.session.pcb = none
  lost : (∃ c ∈ pending, owns c = true) → w.session.pcb = none → w.session.closing = true
  unconnected : Awaited arg w → w.session.pcb = none

/-- The moves, and what the session finds when it goes on. -/
def contract (arg : Option ℕ) : Reentrant.Contract World Entry Call Call.Answer where
  ok pending w m := Proper pending w m ∧ OneConnection arg w m ∧ Orderly pending w m
  good := Good arg
  rely pending w w' := (∃ c ∈ pending.head?, c.isCallback = false ∧ c.isOutput = false) → w' = w

variable {arg : Option ℕ} {pending : List Call} {w : World} {c : Call}

instance (arg : Option ℕ) : ∀ pending w m, Decidable ((contract arg).ok pending w m) :=
  fun _ _ _ => inferInstanceAs (Decidable (_ ∧ _ ∧ _))

theorem notifiedOnce_append {log : List Event} {e : Event} (h : NotifiedOnce log)
    (he : .call .onClosed ∉ log ∨ e.isCallback = false) : NotifiedOnce (log ++ [e]) := by
  refine List.pairwise_append.2 ⟨h, List.pairwise_singleton _ _, ?_⟩
  intro e' he' e'' he'' hclosed
  obtain rfl := List.mem_singleton.1 he''
  rcases he with he | he
  · exact absurd (hclosed ▸ he') he
  · exact he

theorem notifiedOnce_append_of {log es : List Event} (h : NotifiedOnce log)
    (hes : ∀ e ∈ es, e.isCallback = false) : NotifiedOnce (log ++ es) :=
  List.pairwise_append.2 ⟨h, List.pairwise_of_forall_mem_list fun _ _ e' he' _ => hes e' he',
    fun _ _ e' he' _ => hes e' he'⟩

theorem call_ne (hc : c ≠ .onClosed) : Event.call c ≠ .call .onClosed :=
  fun he => hc (Event.call.inj he)

theorem owns_of_isOutput (h : c.isOutput = true) : owns c = true := by
  rw [owns, h, Bool.or_true]

theorem not_isOutput (h : owns c = false) : c.isOutput = false :=
  (Bool.or_eq_false_iff.1 h).2

/-! ### How the invariant changes -/

/-- No call of `altcp_write` or `altcp_output` waits. -/
abbrev Calm (pending : List Call) : Prop := ∀ c ∈ pending, c.isOutput = false

theorem calm_nil : Calm [] := fun _ hc => absurd hc List.not_mem_nil

theorem Calm.head (h : Calm pending) : ¬ ∃ c ∈ pending.head?, c.isOutput = true := by
  rintro ⟨c, hc, houtput⟩
  rw [h c (List.mem_of_mem_head? hc)] at houtput
  cases houtput

theorem Base.emit {e : Event} (h : Base arg pending w)
    (he : ¬ Notified w ∨ e.isCallback = false) : Base arg pending (w.emit e) :=
  { h with once := notifiedOnce_append h.once he }

theorem Base.set {f : Session → Session} (h : Base arg pending w)
    (hpcb : (f w.session).pcb = w.session.pcb)
    (hkeep : Calm pending ∨ (f w.session).processing = w.session.processing) :
    Base arg pending (w.set f) :=
  { h with
    live := fun pcb hmem => hpcb.trans (h.live pcb hmem)
    processing := by
      intro houtput
      rcases hkeep with hcalm | hkeep
      · exact absurd houtput hcalm.head
      · exact hkeep.trans (h.processing houtput) }

theorem Base.push (h : Base arg pending w) (hcalm : Calm pending)
    (hprocessing : c.isOutput = true → w.session.processing = true)
    (hawaited : Awaited arg w → owns c = false) : Base arg (c :: pending) w :=
  { h with
    output := hcalm
    processing := by
      rintro ⟨d, hd, houtput⟩
      obtain rfl := Option.some.inj hd
      exact hprocessing houtput
    awaited := by
      intro hto
      refine ⟨(h.awaited hto).1, ?_⟩
      intro d hd
      rcases List.mem_cons.1 hd with rfl | hd
      · exact hawaited hto
      · exact (h.awaited hto).2 d hd }

theorem Base.pop (h : Base arg (c :: pending) w) : Base arg pending w :=
  { h with
    output := fun d hd => h.output d (List.mem_of_mem_tail hd)
    processing := fun houtput => absurd houtput (Calm.head h.output)
    awaited := fun hto => ⟨(h.awaited hto).1, fun d hd =>
      (h.awaited hto).2 d (List.mem_cons_of_mem c hd)⟩ }

theorem Good.pop (h : Good arg (c :: pending) w) : Good arg pending w :=
  { h with
    toBase := h.toBase.pop
    notified := fun hn => ⟨(h.notified hn).1, (h.notified hn).2.1, fun d hd =>
      (h.notified hn).2.2 d (List.mem_cons_of_mem c hd)⟩
    lost := by
      rintro ⟨d, hd, howns⟩
      exact h.lost ⟨d, List.mem_cons_of_mem c hd, howns⟩ }

/-- What runs while a call waits runs above calm calls. -/
theorem Good.calm (h : Good arg (c :: pending) w) : Calm pending := h.output

theorem Good.push (h : Good arg pending w) (hcalm : Calm pending) (hc : owns c = false) :
    Good arg (c :: pending) w :=
  { h with
    toBase := h.toBase.push hcalm (fun houtput => by rw [not_isOutput hc] at houtput; cases houtput)
      fun _ => hc
    notified := by
      intro hn
      obtain ⟨hpcb, hwhy, hpending⟩ := h.notified hn
      refine ⟨hpcb, hwhy, ?_⟩
      intro d hd
      rcases List.mem_cons.1 hd with rfl | hd
      · exact hc
      · exact hpending d hd
    lost := by
      rintro ⟨d, hd, howns⟩
      rcases List.mem_cons.1 hd with rfl | hd
      · rw [hc] at howns
        cases howns
      · exact h.lost ⟨d, hd, howns⟩ }

theorem not_notified_emit {e : Event} (hw : ¬ Notified w) (he : e ≠ .call .onClosed) :
    ¬ Notified (w.emit e) := by
  intro hn
  rcases List.mem_append.1 hn with hn | hn
  · exact hw hn
  · exact he (List.mem_singleton.1 hn).symm

theorem Good.emit {e : Event} (h : Good arg pending w) (he : e ≠ .call .onClosed)
    (hw : ¬ Notified w ∨ e.isCallback = false) : Good arg pending (w.emit e) :=
  { h with
    toBase := h.toBase.emit hw
    notified := by
      intro hn
      rcases List.mem_append.1 hn with hn | hn
      · exact h.notified hn
      · exact absurd (List.mem_singleton.1 hn).symm he }

theorem Good.set {f : Session → Session} (h : Good arg pending w)
    (hpcb : (f w.session).pcb = w.session.pcb)
    (hclosing : (f w.session).closing = w.session.closing)
    (hkeep : Calm pending ∨ (f w.session).processing = w.session.processing) :
    Good arg pending (w.set f) :=
  { toBase := h.toBase.set hpcb hkeep
    notified := by
      rw [World.set_session, hpcb, hclosing]
      exact h.notified
    gone := by
      rw [World.set_session, hpcb, hclosing]
      exact h.gone
    lost := by
      rw [World.set_session, hpcb, hclosing]
      exact h.lost
    unconnected := by
      rw [World.set_session, hpcb]
      exact h.unconnected }

/-- A session with a pcb that lwIP has has not notified closure, nor is it closing. -/
structure Connected (w : World) : Prop where
  pcb : w.session.pcb.isSome
  closing : w.session.closing = false
  notified : ¬ Notified w

theorem Connected.set {f : Session → Session} (h : Connected w)
    (hpcb : (f w.session).pcb = w.session.pcb)
    (hclosing : (f w.session).closing = w.session.closing) : Connected (w.set f) where
  pcb := by rw [World.set_session, hpcb]; exact h.pcb
  closing := hclosing.trans h.closing
  notified := h.notified

theorem Connected.callBack (h : Connected w) (cb : Callback) : Connected (w.callBack cb) :=
  ⟨h.pcb, h.closing, h.notified⟩

theorem Good.connected (h : Good arg pending w) (hpcb : w.session.pcb.isSome) : Connected w where
  pcb := hpcb
  closing := by
    cases hclosing : w.session.closing with
    | false => rfl
    | true => rw [h.gone hclosing] at hpcb; cases hpcb
  notified := by
    intro hn
    rw [(h.notified hn).1] at hpcb
    cases hpcb

theorem Good.connected_of_live {pcb : ℕ} (h : Good arg pending w) (hpcb : pcb ∈ w.net.live) :
    Connected w := by
  refine h.connected ?_
  rw [h.live pcb hpcb]
  rfl

/-- While the owner of a notification waits, nothing has been notified. -/
theorem Good.not_notified (h : Good arg (c :: pending) w) (hc : owns c = true) :
    ¬ Notified w := by
  intro hn
  rw [(h.notified hn).2.2 c List.mem_cons_self] at hc
  cases hc

/-- A connected session makes a call of `altcp_write`, `altcp_output` or `on_recv`. -/
theorem Good.pushOwner (h : Good arg pending w) (hw : Connected w) (hcalm : Calm pending)
    (hc : owns c = true) (hprocessing : c.isOutput = true → w.session.processing = true) :
    Good arg (c :: pending) (w.emit (.call c)) := by
  have hne : Event.call c ≠ .call .onClosed := by
    rintro ⟨⟩
    cases hc
  have hpcb : w.session.pcb ≠ none := by
    intro hnone
    have := hw.pcb
    rw [hnone] at this
    cases this
  have hg := h.emit hne (.inl hw.notified)
  exact
    { hg with
      toBase := hg.toBase.push hcalm hprocessing fun hto => absurd (h.unconnected hto) hpcb
      notified := fun hn => absurd hn (not_notified_emit hw.notified hne)
      lost := fun _ hnone => absurd hnone hpcb }

/-- A connected session calls `on_sent` or `on_connected`. -/
theorem Good.pushCallback (h : Good arg pending w) (hw : Connected w) (hcalm : Calm pending)
    (hc : owns c = false) (hne : c ≠ .onClosed) : Good arg (c :: pending) (w.emit (.call c)) :=
  (h.emit (call_ne hne) (.inl hw.notified)).push hcalm hc

/-- A session that is about to notify. -/
structure Notifies (arg : Option ℕ) (pending : List Call) (w : World) : Prop extends
    Good arg pending w where
  pcb : w.session.pcb = none
  why : w.session.closing = true ∨ w.net.failed = true
  owner : ∀ c ∈ pending, owns c = false
  first : ¬ Notified w

theorem Notifies.push (h : Notifies arg pending w) :
    Good arg (.onClosed :: pending) (w.emit (.call .onClosed)) := by
  have hcalm : Calm pending := fun c hc => not_isOutput (h.owner c hc)
  have howner : ∀ c ∈ Call.onClosed :: pending, owns c = false := by
    intro c hc
    rcases List.mem_cons.1 hc with rfl | hc
    · rfl
    · exact h.owner c hc
  exact
    { toBase := (h.toBase.push hcalm (fun houtput => by cases houtput) fun _ => rfl).emit
        (.inl h.first)
      notified := fun _ => ⟨h.pcb, h.why, howner⟩
      gone := fun _ => h.pcb
      lost := by
        rintro ⟨c, hc, howns⟩
        rw [howner c hc] at howns
        cases howns
      unconnected := fun _ => h.pcb }

/-! ### The methods -/

section methods

open Reentrant.Contract (Spec)

theorem spec_onClosed (h : Notifies arg pending w) :
    (contract arg).Spec pending (fun _ => Good arg pending) (Session.onClosed w) := by
  rw [Session.onClosed_apply]
  split
  · exact ⟨h.push, fun _ _ hgood _ _ => hgood.pop⟩
  · exact h.toGood

/-- What `close` relies on. -/
structure Closes (arg : Option ℕ) (pending : List Call) (w : World) : Prop extends
    Base arg pending w where
  again : w.session.closing = true → Good arg pending w
  first : w.session.closing = false → ¬ Notified w
  owner : w.session.closing = false → w.session.processing = false →
    ∀ c ∈ pending, owns c = false

theorem live_shut (h : Base arg pending w) : w.shut.net.live = [] := by
  rw [World.shut_net]
  cases hpcb : w.session.pcb with
  | none =>
      refine List.eq_nil_iff_forall_not_mem.2 fun pcb hmem => ?_
      have := h.live pcb hmem
      rw [hpcb] at this
      cases this
  | some pcb =>
      refine List.eq_nil_iff_forall_not_mem.2 fun pcb' hmem => ?_
      obtain ⟨hmem, hne⟩ := List.mem_filter.1 hmem
      have := h.live pcb' hmem
      rw [hpcb] at this
      simp only [Option.some.inj this, ne_eq, not_true_eq_false, decide_false] at hne
      cases hne

theorem awaited_shut : Awaited arg w.shut ↔ Awaited arg w := by
  rw [Awaited, Awaited, World.shut_net]
  cases w.session.pcb <;> rfl

theorem notified_shut : Notified w.shut ↔ Notified w := by
  rw [Notified, World.shut_log, List.mem_append]
  cases w.session.pcb <;> simp

theorem Base.shut (h : Base arg pending w) : Base arg pending w.shut where
  once := by
    rw [World.shut_log]
    refine notifiedOnce_append_of h.once ?_
    cases w.session.pcb <;> simp [Event.isCallback]
  live := by
    rw [live_shut h]
    exact fun pcb hmem => absurd hmem List.not_mem_nil
  output := h.output
  processing := by
    rw [World.shut_session]
    exact h.processing
  awaited := by
    rw [awaited_shut, World.shut_net]
    cases w.session.pcb <;> exact h.awaited
  attempts := by
    rw [World.shut_net]
    cases w.session.pcb <;> exact h.attempts

theorem Closes.shut (h : Closes arg pending w) (hclosing : w.session.closing = false) :
    Good arg pending w.shut :=
  { h.toBase.shut with
    notified := fun hn => absurd (notified_shut.1 hn) (h.first hclosing)
    gone := fun _ => by rw [World.shut_session]
    lost := fun _ _ => by rw [World.shut_session]
    unconnected := fun _ => by rw [World.shut_session] }

theorem spec_close (h : Closes arg pending w) :
    (contract arg).Spec pending (fun _ => Good arg pending) (Session.close w) := by
  rw [Session.close_apply]
  cases hclosing : w.session.closing with
  | true => exact h.again hclosing
  | false =>
      have hgood := h.shut hclosing
      cases hprocessing : w.session.processing with
      | true => exact hgood
      | false =>
          refine (spec_onClosed ⟨hgood, ?_, ?_, ?_, ?_⟩).bind fun _ _ hgood => hgood
          · rw [World.shut_session]
          · rw [World.shut_session]
            exact .inl rfl
          · exact h.owner hclosing hprocessing
          · exact fun hn => h.first hclosing (notified_shut.1 hn)

/-- Inside a call of the application that may close. -/
theorem Good.closes (h : Good arg pending w) (hcalm : Calm pending) (hfits : CloseFits pending w) :
    Closes arg pending w :=
  { h.toBase with
    again := fun _ => h
    first := by
      intro hclosing hn
      rcases (h.notified hn).2.1 with hwhy | hwhy
      · rw [hclosing] at hwhy
        cases hwhy
      · rw [(hfits hclosing).1] at hwhy
        cases hwhy
    owner := by
      intro hclosing hprocessing c hc
      rw [owns, (hfits hclosing).2 hprocessing c hc, hcalm c hc]
      rfl }

/-- A session that has a pcb closes while no owner waits. -/
theorem Good.closes_connected (h : Good arg pending w) (hw : Connected w)
    (howner : w.session.processing = false → ∀ c ∈ pending, owns c = false) :
    Closes arg pending w :=
  { h.toBase with
    again := fun _ => h
    first := fun _ => hw.notified
    owner := fun _ => howner }

theorem CloseFits.tail (h : CloseFits (c :: pending) w) : CloseFits pending w := by
  intro hclosing
  obtain ⟨hfailed, hrecv⟩ := h hclosing
  exact ⟨hfailed, fun hprocessing d hd => hrecv hprocessing d (List.mem_cons_of_mem c hd)⟩

theorem spec_lwipSent (h : Good arg pending w) (hw : Connected w)
    (hcalm : w.session.processing = false → Calm pending) (len : ℕ) :
    (contract arg).Spec pending (fun _ => Good arg pending) (Session.lwipSent len w) := by
  rw [Session.lwipSent_apply]
  cases hprocessing : w.session.processing with
  | true => exact h.set rfl rfl (.inr rfl)
  | false =>
      have hcalm := hcalm hprocessing
      have hset := h.set (f := fun s => { s with sentBytes := 0 }) rfl rfl (.inl hcalm)
      cases hcallback : w.session.callback with
      | false => exact hset
      | true =>
          refine ⟨hset.pushCallback (hw.set rfl rfl) hcalm rfl Call.noConfusion, ?_⟩
          intro accepted w' hgood _ hok
          cases accepted with
          | true => exact hgood.pop
          | false =>
              have hfits : CloseFits pending w' := CloseFits.tail (hok.2.2.1 rfl)
              exact spec_close (hgood.pop.closes hcalm hfits)

/-- Between two calls of the loop of `send`. -/
structure Sending (arg : Option ℕ) (pending : List Call) (w : World) : Prop extends
    Good arg pending w where
  connected : Connected w
  processing_on : w.session.processing = true

theorem Sending.push (h : Sending arg pending w) (hcalm : Calm pending)
    (hc : c.isOutput = true) : Good arg (c :: pending) (w.emit (.call c)) :=
  h.toGood.pushOwner h.connected hcalm (owns_of_isOutput hc) fun _ => h.processing_on

/-- After `altcp_write` or `altcp_output` has been answered. -/
theorem spec_checkSendFailure (hc : c.isOutput = true) (h : Good arg (c :: pending) w) {err : Err}
    (hok : err = .ERR_OK → OutputFits (c :: pending) w) :
    (contract arg).Spec pending
      (fun r w' => Good arg pending w' ∧ (r = .ERR_OK → Sending arg pending w'))
      (Session.checkSendFailure err w) := by
  have hcalm : Calm pending := h.calm
  have howns : owns c = true := owns_of_isOutput hc
  rw [Session.checkSendFailure_apply]
  rcases eq_or_ne err .ERR_OK with herr | herr
  · rw [if_neg (not_not.2 herr)]
    cases hpcb : w.session.pcb with
    | none =>
        -- the owner notifies: no other owner waits below this call
        have hclosing : w.session.closing = true := h.lost ⟨c, List.mem_cons_self, howns⟩ hpcb
        rw [hclosing]
        have hset := h.pop.set (f := fun s => { s with processing := false }) rfl rfl (.inl hcalm)
        refine (spec_onClosed ⟨hset, hpcb, .inl hclosing, ?_, h.not_notified howns⟩).bind
          fun _ _ hgood => ⟨hgood, fun h => by cases h⟩
        intro d hd
        rw [owns, hok herr hclosing d (List.mem_cons_of_mem c hd), hcalm d hd]
        rfl
    | some pcb =>
        have hw : Connected w := h.connected (by rw [hpcb]; rfl)
        rw [hw.closing]
        exact ⟨h.pop, fun _ => ⟨h.pop, hw, h.processing ⟨c, rfl, hc⟩⟩⟩
  · rw [if_pos herr]
    exact ⟨h.pop.set rfl rfl (.inl hcalm), fun h => absurd h herr⟩

theorem spec_writeLoop (turns : ℕ) (hcalm : Calm pending) : ∀ {data : List UInt8} {w : World},
    data.length ≤ turns → Sending arg pending w →
    (contract arg).Spec pending
      (fun r w' => Good arg pending w' ∧ (r = none → Sending arg pending w'))
      (Session.writeLoop turns data w) := by
  induction turns with
  | zero => exact fun _ h => ⟨h.toGood, fun _ => h⟩
  | succ turns ih =>
      intro data w hlen h
      rcases eq_or_ne data [] with rfl | hdata
      · exact ⟨h.toGood, fun _ => h⟩
      · obtain ⟨n, hn, -, hloop⟩ := Session.writeLoop_succ w turns hdata
        rw [hloop]
        refine ⟨h.push hcalm rfl, fun err w' hgood _ hok => ?_⟩
        have hfits : err = .ERR_OK → OutputFits _ w' := fun herr =>
          hok.2.2.2.1 (decide_eq_true herr)
        refine (spec_checkSendFailure rfl hgood hfits).bind fun r w'' hw'' => ?_
        rcases eq_or_ne r .ERR_OK with hr | hr
        · rw [if_neg (not_not.2 hr)]
          refine ih ?_ (hw''.2 hr)
          rw [List.length_drop]
          omega
        · rw [if_pos hr]
          exact ⟨hw''.1, fun h => by cases h⟩

theorem spec_finishSend (hcalm : Calm pending) (h : Sending arg pending w) :
    (contract arg).Spec pending (fun _ => Good arg pending) (Session.finishSend w) := by
  have hpcb : w.session.pcb.isNone = false := by
    rw [← Option.not_isSome, h.connected.pcb]
    rfl
  rw [Session.finishSend_apply, Session.flush_apply, h.connected.closing, hpcb]
  refine ⟨h.push hcalm rfl, fun err w' hgood _ hok => ?_⟩
  have hfits : err = .ERR_OK → OutputFits _ w' := fun herr => hok.2.2.2.1 (decide_eq_true herr)
  refine (spec_checkSendFailure rfl hgood hfits).bind fun r w'' hw'' => ?_
  rcases eq_or_ne r .ERR_OK with hr | hr
  · obtain hsending := hw''.2 hr
    have hset := hsending.toGood.set (f := fun s => { s with processing := false }) rfl rfl
      (.inl hcalm)
    have hconnected := hsending.connected.set (f := fun s => { s with processing := false }) rfl rfl
    rw [if_neg (not_not.2 hr)]
    split
    · exact spec_lwipSent hset hconnected (fun _ => hcalm) 0
    · exact hset
  · rw [if_pos hr]
    exact hw''.1

theorem spec_send (h : Good arg pending w) (hcalm : Calm pending) (data : Option (List UInt8)) :
    (contract arg).Spec pending (fun _ => Good arg pending) (Session.send data w) := by
  cases data with
  | none => exact h
  | some data =>
      rw [Session.send_apply]
      cases hpcb : w.session.pcb with
      | none => exact h
      | some pcb =>
          have hw : Connected w := h.connected (by rw [hpcb]; rfl)
          have hset := h.set (f := fun s => { s with processing := true }) rfl rfl (.inl hcalm)
          have hsending : Sending arg pending (w.set fun s => { s with processing := true }) :=
            ⟨hset, hw.set rfl rfl, rfl⟩
          refine (spec_writeLoop data.length hcalm (Nat.le_refl _) hsending).bind fun r w' hw' => ?_
          cases r with
          | none => exact spec_finishSend hcalm (hw'.2 rfl)
          | some err => exact hw'.1

/-! ### Receiving -/

theorem good_releaseChain (h : Good arg pending w) (pcb : ℕ) (p : List Pbuf) :
    Good arg pending ((w.emit (.altcpRecved pcb (p.head?.elim 0 Pbuf.totLen))).emit
      (.pbufFree p)) :=
  (h.emit Event.noConfusion (.inr rfl)).emit Event.noConfusion (.inr rfl)

theorem spec_recvLoop (pcb : ℕ) (p segments : List Pbuf) : ∀ {w : World}, Good arg [] w →
    Connected w → (contract arg).Spec [] (fun _ => Good arg [])
      (Session.recvLoop pcb p segments w) := by
  induction segments with
  | nil => exact fun h _ => h
  | cons it next ih =>
      intro w h hw
      rw [Session.recvLoop_cons]
      refine Reentrant.Contract.spec_call.2 ⟨h.pushOwner hw calm_nil rfl Bool.noConfusion, ?_⟩
      intro accepted w' hgood _ _
      have hset := hgood.pop.set (f := fun s => { s with processing := false }) rfl rfl
        (.inl calm_nil)
      cases hpcb : w'.session.pcb with
      | none =>
          -- the loop owns the notification of a close inside `on_recv`
          have hclosing : w'.session.closing = true := hgood.lost ⟨_, List.mem_cons_self, rfl⟩ hpcb
          rw [hclosing]
          refine (spec_onClosed ⟨hset, hpcb, .inl hclosing, ?_, hgood.not_notified rfl⟩).bind
            fun _ _ hgood => hgood
          exact fun c hc => absurd hc List.not_mem_nil
      | some pcb' =>
          have hw' : Connected w' := hgood.connected (by rw [hpcb]; rfl)
          rw [hw'.closing]
          cases accepted with
          | false =>
              have hreleased := good_releaseChain hset pcb p
              refine (spec_close (hreleased.closes_connected ?_ ?_)).bind fun _ _ hgood => hgood
              · exact hreleased.connected hw'.pcb
              · exact fun _ c hc => absurd hc List.not_mem_nil
          | true =>
              simp only [Bool.or_false, Option.isNone_some, Bool.false_eq_true, if_false,
                Bool.true_eq_false]
              split
              · exact hgood.pop
              · exact ih hgood.pop hw'

theorem base_drop (h : Base arg pending w) (pcb : ℕ) : Base arg pending (w.update (Net.drop pcb)) :=
  { h with live := fun pcb' hmem => h.live pcb' (List.mem_filter.1 hmem).1 }

theorem Good.callBack (h : Good arg pending w) (cb : Callback) :
    Good arg pending (w.callBack cb) :=
  { h with }

theorem Good.returned (h : Good arg pending w) : Good arg pending w.returned :=
  { h with }

theorem spec_fromLwip {cb : Callback} {x : Prog Err}
    (h : (contract arg).Spec pending (fun _ => Good arg pending) (x (w.callBack cb))) :
    (contract arg).Spec pending (fun _ => Good arg pending) (fromLwip cb x w) := by
  rw [fromLwip_apply]
  exact h.bind fun _ _ hgood => hgood.returned

/-- lwIP gives the pcb up, and the session closes. -/
theorem closes_lost (h : Good arg pending w) {pcb : ℕ} (hpcb : pcb ∈ w.net.live)
    (howner : w.session.processing = false → ∀ c ∈ pending, owns c = false) (cb : Callback) :
    Closes arg pending (((w.update (Net.drop pcb)).callBack cb).set fun s =>
      { s with pcb := none }) := by
  have hw := h.connected_of_live hpcb
  refine
    { base_drop h.toBase pcb with
      live := ?_
      again := fun hclosing => ?_
      first := fun _ => hw.notified
      owner := fun _ => howner }
  · intro pcb' hmem
    obtain ⟨hmem, hne⟩ := List.mem_filter.1 hmem
    have hsame : pcb' = pcb := Option.some.inj ((h.live pcb' hmem).symm.trans (h.live pcb hpcb))
    rw [hsame] at hne
    simp only [ne_eq, not_true_eq_false, decide_false] at hne
    cases hne
  · have := hw.closing
    rw [show w.session.closing = true from hclosing] at this
    cases this

theorem spec_lwipRecv (h : Good arg [] w) {pcb : ℕ} (hpcb : pcb ∈ w.net.live) (p : List Pbuf)
    (err : Err) :
    (contract arg).Spec [] (fun _ => Good arg []) (Entry.run (.lwipRecv pcb p err) w) := by
  have hw := h.connected_of_live hpcb
  have hnone : ∀ c ∈ ([] : List Call), owns c = false := fun c hc => absurd hc List.not_mem_nil
  rw [Entry.run_lwipRecv]
  refine spec_fromLwip ?_
  rcases eq_or_ne err .ERR_ABRT with rfl | herr
  · -- the pcb is gone
    have hcloses := closes_lost h hpcb (fun _ => hnone) .recv
    rw [Session.lwipRecv_apply, if_pos rfl, if_pos rfl]
    split
    · exact spec_close hcloses
    · exact (spec_close hcloses).bind fun _ _ hgood => hgood
  · have h := h.callBack .recv
    have hw := hw.callBack .recv
    have hcloses := h.closes_connected hw fun _ => hnone
    have hset := h.set (f := fun s => { s with processing := true }) rfl rfl (.inl calm_nil)
    rw [Session.lwipRecv_apply, if_neg herr, if_neg herr]
    dsimp only
    split
    · exact spec_close hcloses
    · split
      · exact (spec_close hcloses).bind fun _ _ hgood => hgood
      · split
        · refine (spec_recvLoop pcb p p hset (hw.set rfl rfl)).bind fun r w' hgood => ?_
          cases r with
          | none =>
              exact good_releaseChain (hgood.set rfl rfl (.inl calm_nil)) pcb p
          | some err => exact hgood
        · exact good_releaseChain h pcb p

theorem spec_lwipErr (h : Good arg pending w) {pcb : ℕ} (hpcb : pcb ∈ w.net.live)
    (howner : w.session.processing = false → ∀ c ∈ pending, owns c = false) :
    (contract arg).Spec pending (fun _ => Good arg pending) (Entry.run (.lwipErr pcb) w) := by
  rw [Entry.run_lwipErr]
  refine spec_fromLwip ?_
  rw [Session.lwipErr_apply]
  have hcloses := closes_lost h hpcb howner .err
  refine (spec_close ?_).bind fun _ _ hgood => hgood
  exact
    { hcloses.toBase.emit (e := .clearCallbacks w.session.pcb) (.inr rfl) with
      again := fun hclosing => (hcloses.again hclosing).emit Event.noConfusion (.inr rfl)
      first := fun hclosing => not_notified_emit (hcloses.first hclosing) Event.noConfusion
      owner := hcloses.owner }

theorem spec_lwipConnected (h : Good arg [] w) {pcb : ℕ} (hpcb : pcb ∈ w.net.live) (err : Err) :
    (contract arg).Spec [] (fun _ => Good arg [])
      (Entry.run (.lwipConnected pcb err) w) := by
  refine spec_fromLwip ?_
  have hw := (h.connected_of_live hpcb).callBack .connected
  have h := h.callBack .connected
  have hset := h.set (f := fun s => { s with connected := true }) rfl rfl (.inl calm_nil)
  rw [Session.lwipConnected_apply]
  dsimp only
  split
  · exact spec_close (h.closes_connected hw fun _ c hc => absurd hc List.not_mem_nil)
  · split
    · exact ⟨hset.pushCallback (hw.set rfl rfl) calm_nil rfl Call.noConfusion,
        fun _ _ hgood _ _ => hgood.pop⟩
    · exact hset

/-! ### Connecting -/

/-- A session that is being connected. -/
structure Connecting (arg : Option ℕ) (pending : List Call) (w : World) : Prop extends
    Good arg pending w where
  pcb_none : w.session.pcb = none
  closing : w.session.closing = false
  ready : w.net.failed = false
  owner : ∀ c ∈ pending, owns c = false
  first : ¬ Notified w
  due : ¬ Awaited arg w

theorem Connecting.closes (h : Connecting arg pending w) : Closes arg pending w :=
  { h.toBase with
    again := fun _ => h.toGood
    first := fun _ => h.first
    owner := fun _ _ => h.owner }

/-- What the preparation of a pcb leaves in the log. -/
theorem notified_prepare {tls : Bool} {host : Option Host} {pcb : Option ℕ} :
    Notified (w.prepare tls host pcb) ↔ Notified w := by
  rw [Notified, World.prepare_log, List.mem_append]
  cases tls <;> cases host <;> simp

theorem Connecting.prepare (h : Connecting arg pending w) (tls : Bool) (host : Option Host)
    (pcb : Option ℕ) : Good arg pending (w.prepare tls host pcb) where
  once := by
    rw [World.prepare_log]
    refine notifiedOnce_append_of h.once ?_
    cases tls <;> cases host <;> simp [Event.isCallback]
  live := by
    intro pcb' hmem
    rw [World.prepare_net] at hmem
    rw [World.prepare_session]
    rcases List.mem_append.1 hmem with hmem | hmem
    · have := h.live pcb' hmem
      rw [h.pcb_none] at this
      cases this
    · exact Option.mem_toList.1 hmem
  output := h.output
  processing := by
    rw [World.prepare_session]
    exact h.processing
  awaited := by
    intro hto
    rw [Awaited, World.prepare_net] at hto
    exact absurd hto h.due
  attempts := by
    rw [World.prepare_net]
    exact h.attempts
  notified := fun hn => absurd (notified_prepare.1 hn) h.first
  gone := by
    rw [World.prepare_session]
    intro hclosing
    exact absurd (h.closing.symm.trans hclosing) Bool.noConfusion
  lost := by
    rintro ⟨c, hc, howns⟩
    rw [h.owner c hc] at howns
    cases howns
  unconnected := by
    intro hto
    rw [Awaited, World.prepare_net] at hto
    exact absurd hto h.due

theorem spec_connectAddress (h : Connecting arg pending w) (host : Option Host)
    (ipaddr port : ℕ) :
    (contract arg).Spec pending (fun _ => Good arg pending)
      (Session.connectAddress host ipaddr port w) := by
  have hcalm : Calm pending := fun c hc => not_isOutput (h.owner c hc)
  rw [Session.connectAddress_apply]
  split
  · exact spec_close h.closes
  · refine Reentrant.Contract.spec_call.2
      ⟨(h.emit (call_ne Call.noConfusion) (.inr rfl)).push hcalm rfl, fun pcb w' _ hsame _ => ?_⟩
    -- nothing enters the session before it has its pcb
    obtain rfl := hsame ⟨_, rfl, rfl, rfl⟩
    have hnew : Connecting arg pending (w.emit (.call (.altcpNew w.session.tls))) :=
      { h with
        toGood := h.emit (call_ne Call.noConfusion) (.inr rfl)
        first := not_notified_emit h.first (call_ne Call.noConfusion) }
    have hprepared := (hnew.prepare w.session.tls host pcb).emit
      (e := .call (.altcpConnect pcb ipaddr port)) (call_ne Call.noConfusion) (.inr rfl)
    refine Reentrant.Contract.spec_call.2 ⟨hprepared.push hcalm rfl, fun err w' _ hsame _ => ?_⟩
    obtain rfl := hsame ⟨_, rfl, rfl, rfl⟩
    split
    · refine spec_close
        { hprepared.toBase with
          again := fun _ => hprepared
          first := fun _ => ?_
          owner := fun _ _ => h.owner }
      exact not_notified_emit (fun hn => hnew.first (notified_prepare.1 hn))
        (call_ne Call.noConfusion)
    · exact hprepared

/-- A lookup that takes its time. -/
theorem Connecting.lookup (h : Connecting arg pending w) (host : Host) :
    Good arg pending (w.update fun n => { n with lookups := n.lookups ++ [host] }) := by
  have hconnects : ¬ (arg = none ∧ w.net.connects = 0) := fun hto => h.due (.inr hto)
  have hlookups : w.net.lookups = [] := by
    by_contra hto
    exact h.due (.inl hto)
  exact
    { h with
      awaited := fun _ => ⟨h.ready, h.owner⟩
      attempts := by
        rw [World.update_net, hlookups]
        exact ⟨Nat.le_refl 1, fun _ => hconnects⟩
      unconnected := fun _ => h.pcb_none }

theorem spec_connect (h : Connecting arg pending w) (host : Host) (port : ℕ) :
    (contract arg).Spec pending (fun _ => Good arg pending) (Session.connect host port w) := by
  have hcalm : Calm pending := fun c hc => not_isOutput (h.owner c hc)
  rw [Session.connect_apply]
  dsimp only
  have hset := h.toGood.set
    (f := fun s => { s with closing := false, connected := false, sentBytes := 0, port := port })
    rfl h.closing.symm (.inl hcalm)
  have hemit :=
    hset.emit (e := .call (.dnsGethostbyname host)) (call_ne Call.noConfusion) (.inr rfl)
  have hconnecting : Connecting arg pending _ :=
    { h with
      toGood := hemit
      closing := rfl
      first := not_notified_emit (w := w.set _) h.first (call_ne Call.noConfusion) }
  refine Reentrant.Contract.spec_call.2 ⟨hemit.push hcalm rfl, fun found w' _ hsame _ => ?_⟩
  obtain rfl := hsame ⟨_, rfl, rfl, rfl⟩
  split
  · exact spec_connectAddress hconnecting _ _ _
  · split
    · exact hconnecting.lookup host
    · exact hemit

/-- Nothing has been notified while a connection is awaited, unless by a close. -/
theorem Good.first_of_awaited (h : Good arg pending w) (hto : Awaited arg w)
    (hclosing : w.session.closing = false) : ¬ Notified w := by
  intro hn
  rcases (h.notified hn).2.1 with hwhy | hwhy
  · rw [hclosing] at hwhy
    cases hwhy
  · rw [(h.awaited hto).1] at hwhy
    cases hwhy

/-- The application connects the session, for the first time. -/
theorem connecting_of_connects (h : Good arg pending w) (hone : arg = none ∧ w.net.connects = 0)
    (hclosing : w.session.closing = false) :
    Connecting arg pending (w.update fun n => { n with connects := n.connects + 1 }) := by
  have hto : Awaited arg w := .inr hone
  obtain ⟨hfailed, howner⟩ := h.awaited hto
  have hlookups : w.net.lookups = [] := by
    by_contra hne
    exact h.attempts.2 hne hone
  have hdue : ¬ Awaited arg (w.update fun n => { n with connects := n.connects + 1 }) := by
    rintro (hto | hto)
    · exact hto hlookups
    · exact absurd hto.2 (Nat.succ_ne_zero _)
  have hfirst := h.first_of_awaited hto hclosing
  exact
    { h with
      awaited := fun hto => absurd hto hdue
      attempts := by
        rw [World.update_net, hlookups]
        exact ⟨Nat.zero_le 1, fun hne => absurd rfl hne⟩
      unconnected := fun hto => absurd hto hdue
      pcb_none := h.unconnected hto
      closing := hclosing
      ready := hfailed
      owner := howner
      first := hfirst
      due := hdue }

/-- The resolver comes to the end of the only lookup. -/
theorem not_awaited_resolved (h : Good arg [] w) {host : Host} (hhost : host ∈ w.net.lookups)
    (ipaddr : Option ℕ) :
    (w.resolved host ipaddr).net.lookups = [] ∧ ¬ Awaited arg (w.resolved host ipaddr) := by
  have hne : w.net.lookups ≠ [] := List.ne_nil_of_mem hhost
  have hlookups : w.net.lookups.erase host = [] := by
    refine List.length_eq_zero_iff.1 ?_
    rw [List.length_erase_of_mem hhost]
    have := h.attempts.1
    omega
  refine ⟨hlookups, ?_⟩
  rintro (hto | hto)
  · exact hto hlookups
  · exact h.attempts.2 hne hto

theorem good_resolved (h : Good arg [] w) {host : Host} (hhost : host ∈ w.net.lookups)
    (ipaddr : Option ℕ) (hfirst : ¬ Notified w) : Good arg [] (w.resolved host ipaddr) := by
  obtain ⟨hlookups, hdue⟩ := not_awaited_resolved h hhost ipaddr
  exact
    { h with
      awaited := fun hto => absurd hto hdue
      attempts := by
        rw [hlookups]
        exact ⟨Nat.zero_le 1, fun hne => absurd rfl hne⟩
      notified := fun hn => absurd hn hfirst
      unconnected := fun hto => absurd hto hdue }

theorem spec_dnsCallback (h : Good arg [] w) {host : Host} (hhost : host ∈ w.net.lookups)
    (hclosing : w.session.closing = false) (ipaddr : Option ℕ) :
    (contract arg).Spec [] (fun _ => Good arg []) (Entry.run (.dnsCallback host ipaddr) w) := by
  have hto : Awaited arg w := .inl (List.ne_nil_of_mem hhost)
  have hfirst := h.first_of_awaited hto hclosing
  have hgood := good_resolved h hhost ipaddr hfirst
  have howner : ∀ c ∈ ([] : List Call), owns c = false := fun c hc => absurd hc List.not_mem_nil
  cases ipaddr with
  | none =>
      rw [Entry.run_dnsCallback_none]
      refine (spec_onClosed ⟨hgood, h.unconnected hto, .inr ?_, howner, hfirst⟩).bind
        fun _ _ hgood => hgood
      exact Bool.or_true _
  | some ipaddr =>
      rw [Entry.run_dnsCallback_some]
      have hready : (w.resolved host (some ipaddr)).net.failed = false := by
        rw [World.resolved, World.update_net, (h.awaited hto).1]
        rfl
      exact (spec_connectAddress ⟨hgood, h.unconnected hto, hclosing, hready, howner, hfirst,
        (not_awaited_resolved h hhost _).2⟩ _ _ _).bind fun _ _ hgood => hgood

/-! ### Runs -/

theorem not_isOutput_of_isCallback (h : c.isCallback = true) : c.isOutput = false := by
  cases c with
  | altcpWrite _ _ => cases h
  | altcpOutput _ => cases h
  | _ => rfl

theorem Good.calm_of_callback (h : Good arg pending w)
    (hhead : pending.head?.all Call.isCallback = true) : Calm pending := by
  cases pending with
  | nil => exact calm_nil
  | cons c pending =>
      intro d hd
      rcases List.mem_cons.1 hd with rfl | hd
      · exact not_isOutput_of_isCallback hhead
      · exact h.output d hd

/-- Where lwIP reports, the session is processing or nothing waits. -/
theorem Good.nil_of_output (h : Good arg pending w)
    (hhead : pending.head?.all Call.isOutput = true) (hprocessing : w.session.processing = false) :
    pending = [] := by
  cases pending with
  | nil => rfl
  | cons c pending =>
      rw [h.processing ⟨c, rfl, hhead⟩] at hprocessing
      cases hprocessing

/-- The calls that the environment enters above. -/
theorem enters_above {e : Entry} (h : Proper pending w (.enter e)) :
    ¬ ∃ c ∈ pending.head?, c.isCallback = false ∧ c.isOutput = false := by
  rintro ⟨c, hc, hcallback, houtput⟩
  cases pending with
  | nil => cases hc
  | cons d pending =>
      obtain rfl := Option.some.inj hc
      cases e with
      | dnsCallback host ipaddr => cases h.1
      | lwipConnected pcb err => cases h.1
      | lwipRecv pcb p err => cases h.1
      | lwipSent pcb len => exact absurd (houtput.symm.trans h.1) Bool.noConfusion
      | lwipErr pcb => exact absurd (houtput.symm.trans h.1) Bool.noConfusion
      | _ => exact absurd (hcallback.symm.trans h) Bool.noConfusion

theorem spec_run (e : Entry) (h : Good arg pending w)
    (hok : (contract arg).ok pending w (.enter e)) :
    (contract arg).Spec pending (fun _ => Good arg pending) (e.run w) := by
  obtain ⟨hproper, hone, hcloses, -, hopens⟩ := hok
  cases e with
  | send data => exact spec_send h (h.calm_of_callback hproper) data
  | close => exact spec_close (h.closes (h.calm_of_callback hproper) (hcloses rfl))
  | connect host port =>
      rw [Entry.run_connect]
      exact spec_connect (connecting_of_connects h (hone rfl) (hopens rfl)) host port
  | connectAddress host ipaddr port =>
      rw [Entry.run_connectAddress]
      exact spec_connectAddress (connecting_of_connects h (hone rfl) (hopens rfl)) host ipaddr port
  | dnsCallback host ipaddr =>
      obtain ⟨rfl, hhost⟩ := hproper
      exact spec_dnsCallback h hhost (hopens rfl) ipaddr
  | lwipConnected pcb err =>
      obtain ⟨rfl, hpcb⟩ := hproper
      exact spec_lwipConnected h hpcb err
  | lwipRecv pcb p err =>
      obtain ⟨rfl, hpcb⟩ := hproper
      exact spec_lwipRecv h hpcb p err
  | lwipSent pcb len =>
      obtain ⟨hhead, hpcb⟩ := hproper
      have hw := h.connected_of_live hpcb
      refine spec_fromLwip (spec_lwipSent (h.callBack .sent) (hw.callBack .sent)
        (fun hprocessing => ?_) len)
      rw [h.nil_of_output hhead hprocessing]
      exact calm_nil
  | lwipErr pcb =>
      obtain ⟨hhead, hpcb⟩ := hproper
      refine spec_lwipErr h hpcb fun hprocessing => ?_
      rw [h.nil_of_output hhead hprocessing]
      exact fun c hc => absurd hc List.not_mem_nil

/-- **Every method keeps the invariant.** -/
theorem sound (arg : Option ℕ) :
    (contract arg).Sound Entry.run fun _ _ _ _ _ => True where
  refl _ _ _ := rfl
  trans _ _ _ _ h h' hhead := (h' hhead).trans (h hhead)
  method pending w e h hok := by
    refine (spec_run e h hok).mono fun _ w' hgood => ⟨hgood, ?_, trivial⟩
    exact fun habove => absurd habove (enters_above hok.1)

end methods

/-- The invariant holds of a session that has been constructed. -/
theorem good_start (setup : Setup) (arg : Option ℕ) (tls callback : Bool) :
    Good arg [] (.start setup arg tls callback) where
  once := by
    cases arg with
    | none => exact .nil
    | some pcb => exact List.pairwise_singleton _ _
  live := fun pcb hmem => Option.mem_toList.1 hmem
  output := fun c hc => absurd hc List.not_mem_nil
  processing := fun ⟨c, hc, _⟩ => by cases hc
  awaited := fun _ => ⟨rfl, fun c hc => absurd hc List.not_mem_nil⟩
  attempts := ⟨Nat.zero_le 1, fun hne => absurd rfl hne⟩
  notified := by
    intro hn
    cases arg with
    | none => cases hn
    | some pcb => cases List.mem_singleton.1 hn
  gone := fun hclosing => by cases hclosing
  lost := fun ⟨c, hc, _⟩ => by cases hc
  unconnected := by
    rintro (hto | hto)
    · exact absurd rfl hto
    · exact hto.1

end Closing

/-! ### The property of every run -/

/-- **Closure is notified at most once, as the last callback**, in every run of orderly moves of a
session that is accepted, or connected once. -/
theorem notified_once (setup : Setup) (arg : Option ℕ) (tls callback : Bool) (moves : List Move)
    (c : Config)
    (hrun : Reentrant.run Entry.run
      (fun pending w m => Proper pending w m ∧ OneConnection arg w m ∧ Orderly pending w m) moves
      (.start (.start setup arg tls callback)) = some c) :
    NotifiedOnce c.state.log :=
  ((Closing.sound arg).run (Closing.good_start setup arg tls callback) hrun).1.once

/-- A session that is closed inside `on_recv`. -/
theorem notified_once_example :
    ∃ c : Config, Reentrant.run Entry.run
      (fun pending w m =>
        Proper pending w m ∧ OneConnection (some 1) w m ∧ Orderly pending w m)
      [.enter (.lwipRecv 1 [⟨[7], 1⟩] .ERR_OK), .enter .close, .answer (.onRecv [7]) true,
        .answer .onClosed ()]
      (.start (.start ⟨16384, true, by decide⟩ (some 1) false true)) = some c ∧
      NotifiedOnce c.state.log := by
  refine ⟨_, rfl, notified_once ⟨16384, true, by decide⟩ (some 1) false true
    [.enter (.lwipRecv 1 [⟨[7], 1⟩] .ERR_OK), .enter .close, .answer (.onRecv [7]) true,
      .answer .onClosed ()] _ ?_⟩
  rfl

/-- **A session that sends inside `on_recv` and then closes there notifies closure twice.** -/
theorem notified_twice :
    ¬ ∀ (setup : Setup) (arg : Option ℕ) (tls callback : Bool) (moves : List Move) (c : Config),
      Reentrant.run Entry.run (fun pending w m => Proper pending w m ∧ OneConnection arg w m) moves
        (.start (.start setup arg tls callback)) = some c → NotifiedOnce c.state.log := by
  intro hall
  have hrun : (Reentrant.run Entry.run
      (fun pending w m => Proper pending w m ∧ OneConnection (some 1) w m)
      [.enter (.lwipRecv 1 [⟨[7], 1⟩] .ERR_OK), .enter (.send (some [9])),
        .answer (.altcpWrite (some 1) [9]) .ERR_OK, .answer (.altcpOutput (some 1)) .ERR_OK,
        .enter .close, .answer .onClosed (), .answer (.onRecv [7]) true]
      (.start (.start ⟨16384, true, by decide⟩ (some 1) false true))).map
        (fun c => decide (NotifiedOnce c.state.log)) = some false := by
    decide +kernel
  obtain ⟨c, hc, htwice⟩ := Option.map_eq_some_iff.1 hrun
  exact of_decide_eq_false htwice (hall _ _ _ _ _ c hc)

end Tls
