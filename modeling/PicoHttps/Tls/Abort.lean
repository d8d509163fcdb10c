/-
**The session's answer to lwIP after it has aborted.**

A pcb callback has to return `ERR_ABRT` exactly when it has called `altcp_abort` on its pcb.  The
abort may happen below it, where the application closes the session inside its own callback.
`lwip_recv` looks for that when `on_recv` has been answered; `lwip_sent` and `lwip_connected` do
not.

Main definitions:

* `Tls.ObeysAbort` — an invocation of a pcb callback that keeps to the rule;
* `Tls.OnlySendsAndCloses` — inside a pcb callback the application does not connect;
* `Tls.AbortFits` — the moves that do not lead to a wrong answer;
* `Tls.Abort.Inside` — what may happen to the session while lwIP waits for a callback.

Main results:

* `Tls.Abort.sound` — every method keeps the contract;
* `Tls.abort_obeyed` — **every pcb callback keeps to the rule**, in every run of such moves;
* `Tls.abort_hidden` — a callback that aborts its pcb and returns `ERR_OK`.
-/

import PicoHttps.Tls.Methods

set_option relaxedAutoImplicit false
set_option autoImplicit false

namespace Tls

/-! ### The property -/

/-- The pcb that is aborted. -/
def Event.aborted : Event → Option ℕ
  | .altcpAbort pcb => some pcb
  | _ => none

/-- The pcbs that have been aborted. -/
def aborts (log : List Event) : List ℕ := log.filterMap Event.aborted

/-- The pcb of a callback that is bound by the rule: of `lwip_recv`, when nothing went wrong. -/
def Entry.abortable : Entry → Option ℕ
  | .lwipConnected pcb _ => some pcb
  | .lwipRecv pcb _ .ERR_OK => some pcb
  | .lwipSent pcb _ => some pcb
  | _ => none

/-- The callback returns `ERR_ABRT` if and only if it has aborted its pcb. -/
def ObeysAbort (e : Entry) (w : World) (r : Err) (w' : World) : Prop :=
  ∀ pcb, e.abortable = some pcb →
    ∃ new, aborts w'.log = aborts w.log ++ new ∧ (r = .ERR_ABRT ↔ pcb ∈ new)

/-- Inside a pcb callback the application does not connect. -/
def OnlySendsAndCloses (w : World) (m : Move) : Prop := m.connects → w.net.calling = []

instance (w : World) (m : Move) : Decidable (OnlySendsAndCloses w m) :=
  inferInstanceAs (Decidable (_ → _))

/-! ### The condition -/

/-- lwIP does not wait for `lwip_sent` or `lwip_connected`. -/
def Unwatched (w : World) : Prop := .sent ∉ w.net.calling ∧ .connected ∉ w.net.calling

instance (w : World) : Decidable (Unwatched w) := inferInstanceAs (Decidable (_ ∧ _))

/-- **The moves that lead to no wrong answer**: a callback is for the pcb of an open session; no
error is reported inside `lwip_recv`; inside `lwip_sent` and `lwip_connected` the application does
not close the session, unless by its answer to the `on_sent` that `lwip_sent` itself has called. -/
def AbortFits (pending : List Call) (w : World) (m : Move) : Prop :=
  (∀ pcb ∈ m.callsBack, w.session.pcb = some pcb ∧ w.session.closing = false) ∧
    (m.reportsError → .recv ∉ w.net.calling) ∧
    (m.closes → w.session.closing = false →
      m.isAnswer = true ∧ pending.tail = [] ∨ Unwatched w)

instance (pending : List Call) (w : World) (m : Move) : Decidable (AbortFits pending w m) :=
  inferInstanceAs (Decidable ((∀ pcb ∈ m.callsBack, _) ∧ (_ → _) ∧ (_ → _ → _)))

/-! ### What may happen while lwIP waits -/

namespace Abort

/-- The session is open, or closed and without its pcb. -/
def Fit (w : World) : Prop :=
  w.session.pcb.isSome ∧ w.session.closing = false ∨
    w.session.pcb = none ∧ w.session.closing = true

/-- **What may happen to the session while lwIP waits for a callback**: nothing; it aborts its pcb
while lwIP does not wait for `lwip_sent` or `lwip_connected`; or it loses its pcb while lwIP does
not wait for `lwip_recv`. -/
inductive Inside (w w' : World) : Prop
  | same (pcb : w'.session.pcb = w.session.pcb)
      (closing : w'.session.closing = w.session.closing)
      (aborted : aborts w'.log = aborts w.log)
  | aborted (p : ℕ) (pcb : w.session.pcb = some p) (closing : w.session.closing = false)
      (pcb' : w'.session.pcb = none) (closing' : w'.session.closing = true)
      (aborted : aborts w'.log = aborts w.log ++ [p]) (watched : Unwatched w)
  | lost (pcb : w.session.pcb.isSome) (closing : w.session.closing = false)
      (pcb' : w'.session.pcb = none) (closing' : w'.session.closing = true)
      (aborted : aborts w'.log = aborts w.log) (watched : .recv ∉ w.net.calling)

/-- From the world `w₀`, in which a method was entered, to the world `w`. -/
structure Held (w₀ w : World) : Prop where
  calling : w.net.calling = w₀.net.calling
  fit : w₀.net.calling ≠ [] → Fit w
  inside : w₀.net.calling ≠ [] → Inside w₀ w

/-- The moves, and what may happen while a call waits. -/
def contract : Reentrant.Contract World Entry Call Call.Answer where
  ok pending w m := Proper pending w m ∧ OnlySendsAndCloses w m ∧ AbortFits pending w m
  good pending w := (pending = [] → w.net.calling = []) ∧ (w.net.calling ≠ [] → Fit w)
  rely _ w w' := w'.net.calling = w.net.calling ∧ (w.net.calling ≠ [] → Inside w w')

instance : ∀ pending w m, Decidable (contract.ok pending w m) :=
  fun _ _ _ => inferInstanceAs (Decidable (_ ∧ _ ∧ _))

open Reentrant.Contract (Spec)

variable {pending : List Call} {w₀ w w' w'' : World}

theorem Inside.trans (h : Inside w w') (hcalling : w.net.calling ⊆ w'.net.calling)
    (h' : Inside w' w'') : Inside w w'' := by
  cases h with
  | same pcb closing aborted =>
      cases h' with
      | same pcb' closing' aborted' =>
          exact .same (pcb'.trans pcb) (closing'.trans closing) (aborted'.trans aborted)
      | aborted p pcb' closing' pcb'' closing'' aborted' watched =>
          refine .aborted p (pcb ▸ pcb') (closing ▸ closing') pcb'' closing'' ?_ ?_
          · rw [aborted', aborted]
          · exact ⟨fun hmem => watched.1 (hcalling hmem), fun hmem => watched.2 (hcalling hmem)⟩
      | lost pcb' closing' pcb'' closing'' aborted' watched =>
          exact .lost (pcb ▸ pcb') (closing ▸ closing') pcb'' closing'' (aborted'.trans aborted)
            fun hmem => watched (hcalling hmem)
  | aborted p pcb closing pcb' closing' aborted watched =>
      cases h' with
      | same pcb'' closing'' aborted' =>
          exact .aborted p pcb closing (pcb''.trans pcb') (closing''.trans closing')
            (aborted'.trans aborted) watched
      | aborted q pcb'' _ _ _ _ _ => rw [pcb'] at pcb''; cases pcb''
      | lost pcb'' _ _ _ _ _ => rw [pcb'] at pcb''; cases pcb''
  | lost pcb closing pcb' closing' aborted watched =>
      cases h' with
      | same pcb'' closing'' aborted' =>
          exact .lost pcb closing (pcb''.trans pcb') (closing''.trans closing')
            (aborted'.trans aborted) watched
      | aborted q pcb'' _ _ _ _ _ => rw [pcb'] at pcb''; cases pcb''
      | lost pcb'' _ _ _ _ _ => rw [pcb'] at pcb''; cases pcb''

theorem aborts_emit {e : Event} (he : e.aborted = none) :
    aborts (w.emit e).log = aborts w.log := by
  rw [World.emit_log, aborts, List.filterMap_append, List.filterMap_cons_none he,
    List.filterMap_nil, List.append_nil]
  rfl

theorem Held.refl (h : w.net.calling ≠ [] → Fit w) : Held w w :=
  ⟨rfl, h, fun _ => .same rfl rfl rfl⟩

/-- A step that leaves the pcb, `m_closing` and the aborted pcbs as they are. -/
theorem Held.same (h : Held w₀ w) (hcalling : w'.net.calling = w.net.calling)
    (hpcb : w'.session.pcb = w.session.pcb) (hclosing : w'.session.closing = w.session.closing)
    (haborts : aborts w'.log = aborts w.log) : Held w₀ w' where
  calling := hcalling.trans h.calling
  fit := by
    intro hne
    rw [Fit, hpcb, hclosing]
    exact h.fit hne
  inside := fun hne =>
    (h.inside hne).trans (fun _ hmem => h.calling ▸ hmem) (.same hpcb hclosing haborts)

theorem Held.emit {e : Event} (h : Held w₀ w) (he : e.aborted = none) : Held w₀ (w.emit e) :=
  h.same rfl rfl rfl (aborts_emit he)

/-- In a world in which no callback is waited for, nothing is promised. -/
theorem Held.idle (hidle : w₀.net.calling = []) (hcalling : w.net.calling = w₀.net.calling) :
    Held w₀ w :=
  ⟨hcalling, fun hne => absurd hidle hne, fun hne => absurd hidle hne⟩

/-- A session that has been closed aborts nothing. -/
theorem Held.aborts_of_closed (h : Held w₀ w) (hne : w₀.net.calling ≠ [])
    (hpcb : w₀.session.pcb = none) : aborts w.log = aborts w₀.log := by
  cases h.inside hne with
  | same _ _ aborted => exact aborted
  | aborted p pcb _ _ _ _ _ => rw [hpcb] at pcb; cases pcb
  | lost pcb _ _ _ _ _ => rw [hpcb] at pcb; cases pcb

/-! ### Closing -/

theorem aborts_shut : aborts w.shut.log = aborts w.log ++ w.session.pcb.toList := by
  rw [World.shut_log, aborts, List.filterMap_append]
  cases w.session.pcb <;> rfl

theorem calling_shut : w.shut.net.calling = w.net.calling := by
  rw [World.shut_net]
  cases w.session.pcb <;> rfl

theorem fit_shut : Fit w.shut := by
  rw [Fit, World.shut_session]
  exact .inr ⟨rfl, rfl⟩

/-- A call, with the environment at work until it is answered. -/
theorem held_call {α : Type} {post : α → World → Prop} {c : Call}
    {k : c.Answer → World → Reentrant.Res World Call Call.Answer α} (h : Held w₀ w)
    (hk : ∀ a w', Held w₀ w' → AbortFits (c :: pending) w' (.answer c a) →
      contract.Spec pending post (k a w')) :
    contract.Spec pending post (.call c (w.emit (.call c)) k) := by
  have hemit : Held w₀ (w.emit (.call c)) := h.emit rfl
  refine Reentrant.Contract.spec_call.2 ⟨⟨fun hnil => absurd hnil (List.cons_ne_nil _ _), ?_⟩, ?_⟩
  · intro hne
    exact hemit.fit (hemit.calling ▸ hne)
  · intro a w' hgood hrely hok
    refine hk a w' ⟨hrely.1.trans hemit.calling, fun hne => ?_, fun hne => ?_⟩ hok.2.2
    · exact hgood.2 (by rwa [hrely.1, hemit.calling])
    · exact (hemit.inside hne).trans (fun _ hmem => hemit.calling ▸ hmem)
        (hrely.2 (by rwa [hemit.calling]))

theorem held_onClosed (h : Held w₀ w) :
    contract.Spec pending (fun _ w' => Held w₀ w') (Session.onClosed w) := by
  rw [Session.onClosed_apply]
  split
  · exact held_call h fun _ _ h' _ => h'
  · exact h

/-- An open session closes: if it has a pcb, it aborts it and says so. -/
theorem close_open (hclosing : w.session.closing = false) :
    contract.Spec pending
      (fun r w' => r = (if w.session.pcb.isSome then .ERR_ABRT else .ERR_OK) ∧ Held w.shut w')
      (Session.close w) := by
  have hshut : Held w.shut w.shut := .refl fun _ => fit_shut
  rw [Session.close_apply, hclosing]
  generalize (if w.session.pcb.isSome then Err.ERR_ABRT else Err.ERR_OK) = r
  simp only [Bool.false_eq_true, if_false]
  split
  · exact ⟨rfl, hshut⟩
  · exact Spec.bind (held_onClosed hshut) fun _ _ h' => ⟨rfl, h'⟩

theorem Held.shut (h : Held w₀ w)
    (hwatched : w₀.net.calling ≠ [] → w.session.closing = false → Unwatched w)
    (hclosing : w.session.closing = false) : Held w₀ w.shut where
  calling := calling_shut.trans h.calling
  fit := fun _ => fit_shut
  inside := by
    intro hne
    refine (h.inside hne).trans (fun _ hmem => h.calling ▸ hmem) ?_
    rcases h.fit hne with ⟨hpcb, -⟩ | ⟨-, hclosed⟩
    · obtain ⟨p, hp⟩ := Option.isSome_iff_exists.1 hpcb
      refine .aborted p hp hclosing ?_ ?_ ?_ (hwatched hne hclosing)
      · rw [World.shut_session]
      · rw [World.shut_session]
      · rw [aborts_shut, hp]
        rfl
    · rw [hclosing] at hclosed
      cases hclosed

theorem held_close (h : Held w₀ w)
    (hwatched : w₀.net.calling ≠ [] → w.session.closing = false → Unwatched w) :
    contract.Spec pending (fun _ w' => Held w₀ w') (Session.close w) := by
  rw [Session.close_apply]
  cases hclosing : w.session.closing with
  | true => exact h
  | false =>
      have hshut := h.shut hwatched hclosing
      simp only [Bool.false_eq_true, if_false]
      split
      · exact hshut
      · exact Spec.bind (held_onClosed hshut) fun _ _ h' => h'

/-! ### Sending -/

theorem held_checkSendFailure {err : Err} (h : Held w₀ w) :
    contract.Spec pending (fun _ w' => Held w₀ w') (Session.checkSendFailure err w) := by
  have hset : Held w₀ (w.set fun s => { s with processing := false }) := h.same rfl rfl rfl rfl
  rw [Session.checkSendFailure_apply]
  split
  · exact hset
  · split
    · exact Spec.bind (held_onClosed hset) fun _ _ h' => h'
    · exact h

theorem held_flush (h : Held w₀ w) :
    contract.Spec pending (fun _ w' => Held w₀ w') (Session.flush w) := by
  rw [Session.flush_apply]
  split
  · exact h
  · exact held_call h fun _ _ h' _ => h'

/-- `lwip_sent` at the end of `send`. -/
theorem held_lwipSent {len : ℕ} (h : Held w₀ w) (hpending : pending = [] → w₀.net.calling = []) :
    contract.Spec pending (fun _ w' => Held w₀ w') (Session.lwipSent len w) := by
  rw [Session.lwipSent_apply]
  split
  · exact h.same rfl rfl rfl rfl
  · split
    · refine held_call (h.same rfl rfl rfl rfl) fun accepted w' h' hok => ?_
      cases accepted with
      | true => exact h'
      | false =>
          refine held_close h' fun hne hclosing => ?_
          rcases hok.2.2 rfl hclosing with ⟨-, hnil⟩ | hwatched
          · exact absurd (hpending hnil) hne
          · exact hwatched
    · exact h.same rfl rfl rfl rfl

theorem held_writeLoop {turns : ℕ} : ∀ {data : List UInt8} {w : World}, Held w₀ w →
    contract.Spec pending (fun _ w' => Held w₀ w') (Session.writeLoop turns data w) := by
  induction turns with
  | zero => exact fun h => h
  | succ turns ih =>
      intro data w h
      rcases eq_or_ne data [] with rfl | hdata
      · exact h
      · obtain ⟨n, -, -, hloop⟩ := Session.writeLoop_succ w turns hdata
        rw [hloop]
        refine held_call h fun err w' h' _ => ?_
        refine Spec.bind (held_checkSendFailure h') fun r w'' h'' => ?_
        split
        · exact h''
        · exact ih h''

theorem held_finishSend (h : Held w₀ w) (hpending : pending = [] → w₀.net.calling = []) :
    contract.Spec pending (fun _ w' => Held w₀ w') (Session.finishSend w) := by
  rw [Session.finishSend_apply]
  refine Spec.bind (held_flush h) fun err w' h' => ?_
  refine Spec.bind (held_checkSendFailure h') fun r w'' h'' => ?_
  split
  · exact h''
  · split
    · exact held_lwipSent (h''.same rfl rfl rfl rfl) hpending
    · exact h''.same rfl rfl rfl rfl

theorem held_send {data : Option (List UInt8)} (h : Held w₀ w)
    (hpending : pending = [] → w₀.net.calling = []) :
    contract.Spec pending (fun _ w' => Held w₀ w') (Session.send data w) := by
  cases data with
  | none => exact h
  | some data =>
      rw [Session.send_apply]
      split
      · exact h
      · refine Spec.bind (held_writeLoop (h.same rfl rfl rfl rfl)) fun r w' h' => ?_
        cases r with
        | none => exact held_finishSend h' hpending
        | some err => exact h'

/-! ### Connecting -/

theorem held_connectAddress {host : Option Host} {ipaddr port : ℕ} (hidle : w₀.net.calling = [])
    (h : w.net.calling = w₀.net.calling) :
    contract.Spec pending (fun _ w' => Held w₀ w')
      (Session.connectAddress host ipaddr port w) := by
  have hclose {w : World} (h : w.net.calling = w₀.net.calling) :
      contract.Spec pending (fun _ w' => Held w₀ w') (Session.close w) :=
    held_close (.idle hidle h) fun hne => absurd hidle hne
  rw [Session.connectAddress_apply]
  split
  · exact hclose h
  · refine held_call (.idle hidle h) fun pcb w' h' _ => ?_
    have hprepared : Held w₀ (w'.prepare w.session.tls host pcb) :=
      .idle hidle (by rw [World.prepare_net]; exact h'.calling)
    refine held_call hprepared fun err w'' h'' _ => ?_
    split
    · exact hclose h''.calling
    · exact h''

theorem held_connect {host : Host} {port : ℕ} (hidle : w₀.net.calling = [])
    (h : w.net.calling = w₀.net.calling) :
    contract.Spec pending (fun _ w' => Held w₀ w') (Session.connect host port w) := by
  rw [Session.connect_apply]
  refine held_call (.idle hidle h) fun found w' h' _ => ?_
  split
  · exact held_connectAddress hidle h'.calling
  · split
    · exact .idle hidle h'.calling
    · exact h'

/-! ### The ways in -/

/-- What is shown of an invocation. -/
def After (pending : List Call) (e : Entry) (w : World) (r : Err) (w' : World) : Prop :=
  contract.good pending w' ∧ contract.rely pending w w' ∧ ObeysAbort e w r w'

theorem Held.after {e : Entry} {r : Err} (h : Held w w') (hgood : contract.good pending w)
    (hobeys : ObeysAbort e w r w') : After pending e w r w' := by
  refine ⟨⟨fun hnil => ?_, fun hne => ?_⟩, ⟨h.calling, h.inside⟩, hobeys⟩
  · rw [h.calling, hgood.1 hnil]
  · exact h.fit (h.calling ▸ hne)

/-- An entry that the rule says nothing of. -/
theorem obeys_free {e : Entry} {r : Err} (he : e.abortable = none) : ObeysAbort e w r w' := by
  intro pcb hpcb
  rw [he] at hpcb
  cases hpcb

/-- A method that the application or the resolver enters. -/
theorem spec_free {e : Entry} (he : e.abortable = none) (hgood : contract.good pending w)
    (h : contract.Spec pending (fun _ w' => Held w w') (e.run w)) :
    contract.Spec pending (fun r w' => After pending e w r w') (e.run w) :=
  h.mono fun _ _ h' => h'.after hgood (obeys_free he)

/-- A callback that returns to lwIP, when the worlds before and inside it agree. -/
theorem Held.returned {cb : Callback} (h : Held w' w'')
    (hcalling : w'.net.calling = cb :: w.net.calling)
    (hinside : w.net.calling ≠ [] → Inside w w') : Held w w''.returned where
  calling := by
    change w''.net.calling.tail = w.net.calling
    rw [h.calling, hcalling]
    rfl
  fit := fun _ => h.fit (by rw [hcalling]; exact List.cons_ne_nil _ _)
  inside := by
    intro hne
    have hsub : w.net.calling ⊆ w'.net.calling := by
      rw [hcalling]
      exact List.subset_cons_self _ _
    have hne' : w'.net.calling ≠ [] := by
      rw [hcalling]
      exact List.cons_ne_nil _ _
    have hinside' : Inside w' w''.returned :=
      (h.inside hne').trans (fun _ hmem => h.calling ▸ hmem) (.same rfl rfl rfl)
    exact (hinside hne).trans hsub hinside'

/-- A pcb callback with its pcb in an open session begins. -/
theorem held_callBack (cb : Callback) (hpcb : w.session.pcb.isSome)
    (hclosing : w.session.closing = false) : Held (w.callBack cb) (w.callBack cb) :=
  .refl fun _ => .inl ⟨hpcb, hclosing⟩

/-- A callback that has aborted nothing keeps to the rule if it does not return `ERR_ABRT`. -/
theorem obeys_same {e : Entry} {r : Err} (haborts : aborts w'.log = aborts w.log)
    (hr : r ≠ .ERR_ABRT) : ObeysAbort e w r w' :=
  fun _ _ => ⟨[], by rw [haborts, List.append_nil], fun h => absurd h hr,
    fun h => absurd h List.not_mem_nil⟩

/-- A callback that has aborted its pcb keeps to the rule if it returns `ERR_ABRT`. -/
theorem obeys_abort {e : Entry} {p : ℕ} (he : ∀ pcb, e.abortable = some pcb → pcb = p)
    (haborts : aborts w'.log = aborts w.log ++ [p]) : ObeysAbort e w .ERR_ABRT w' := by
  intro pcb hpcb
  refine ⟨[p], haborts, fun _ => ?_, fun _ => rfl⟩
  rw [he pcb hpcb]
  exact List.mem_singleton.2 rfl

/-- What a callback of lwIP comes to: it has aborted its pcb and says so, or neither. -/
def Tells (p : ℕ) (w : World) (r : Err) (w' : World) : Prop :=
  (r = .ERR_ABRT ∧ aborts w'.log = aborts w.log ++ [p]) ∨
    (r ≠ .ERR_ABRT ∧ aborts w'.log = aborts w.log)

theorem Tells.obeys {e : Entry} {p : ℕ} {r : Err} (h : Tells p w r w')
    (he : ∀ pcb, e.abortable = some pcb → pcb = p) : ObeysAbort e w r w' := by
  rcases h with ⟨rfl, haborts⟩ | ⟨hr, haborts⟩
  · exact obeys_abort he haborts
  · exact obeys_same haborts hr

/-- Nothing has been aborted while lwIP waits for `lwip_sent` or `lwip_connected`. -/
theorem Held.aborts_of_watched (h : Held w w') (hwatched : ¬ Unwatched w)
    (hne : w.net.calling ≠ []) : aborts w'.log = aborts w.log := by
  cases h.inside hne with
  | same _ _ aborted => exact aborted
  | aborted _ _ _ _ _ _ watched => exact absurd watched hwatched
  | lost _ _ _ _ aborted _ => exact aborted

/-- What is shown of a callback for the pcb `p`, from the world `w₀` in which it began. -/
def Replies (pending : List Call) (p : ℕ) (w₀ : World) (r : Err) (w : World) : Prop :=
  w.net.calling = w₀.net.calling ∧ (pending ≠ [] → Held w₀ w) ∧ Tells p w₀ r w

theorem Replies.after {cb : Callback} {e : Entry} {p : ℕ} {r : Err}
    (h : Replies pending p (w.callBack cb) r w') (hgood : contract.good pending w)
    (he : ∀ pcb, e.abortable = some pcb → pcb = p) : After pending e w r w'.returned := by
  obtain ⟨hcalling, hheld, ht⟩ := h
  refine Held.after ?_ hgood (ht.obeys he)
  rcases eq_or_ne pending [] with hnil | hne
  · refine .idle (hgood.1 hnil) ?_
    change w'.net.calling.tail = w.net.calling
    rw [hcalling]
    rfl
  · exact (hheld hne).returned rfl fun _ => .same rfl rfl rfl

/-- A callback that has aborted nothing. -/
theorem Held.replies {p : ℕ} (h : Held w₀ w) (haborts : aborts w.log = aborts w₀.log) :
    Replies pending p w₀ .ERR_OK w :=
  ⟨h.calling, fun _ => h, .inr ⟨Err.noConfusion, haborts⟩⟩

/-- An open session closes inside a callback for its pcb, below which nothing waits. -/
theorem replies_close {p : ℕ} (h : Held w₀ w) (hne : w₀.net.calling ≠ [])
    (hpending : pending = []) (hpcb : w₀.session.pcb = some p)
    (hclosing : w.session.closing = false) :
    contract.Spec pending (fun r w' => Replies pending p w₀ r w') (Session.close w) := by
  have hopen : w.session.pcb = some p ∧ aborts w.log = aborts w₀.log := by
    cases h.inside hne with
    | same pcb _ aborted => exact ⟨pcb.trans hpcb, aborted⟩
    | aborted _ _ _ _ closed _ _ => rw [hclosing] at closed; cases closed
    | lost _ _ _ closed _ _ => rw [hclosing] at closed; cases closed
  obtain ⟨hpcb', haborts⟩ := hopen
  refine (close_open hclosing).mono ?_
  rintro r w' ⟨hr, hheld⟩
  obtain rfl : r = .ERR_ABRT := by rw [hr, hpcb']; rfl
  have hcalling : w.shut.net.calling = w₀.net.calling := calling_shut.trans h.calling
  refine ⟨hheld.calling.trans hcalling, fun hpending' => absurd hpending hpending',
    .inl ⟨rfl, ?_⟩⟩
  have hsame : aborts w'.log = aborts w.shut.log := by
    refine hheld.aborts_of_closed (by rwa [hcalling]) ?_
    rw [World.shut_session]
  rw [hsame, aborts_shut, hpcb', haborts]
  rfl

/-- `close` of a session that is closed. -/
theorem replies_close_again {p : ℕ} (h : Held w₀ w) (haborts : aborts w.log = aborts w₀.log)
    (hclosing : w.session.closing = true) :
    contract.Spec pending (fun r w' => Replies pending p w₀ r w') (Session.close w) := by
  rw [Session.close_apply, if_pos hclosing]
  exact h.replies haborts

/-! #### `lwip_sent` and `lwip_connected` -/

theorem replies_lwipSent {len p : ℕ} (h : Held w₀ w₀) (hpcb : w₀.session.pcb = some p)
    (hsent : .sent ∈ w₀.net.calling) :
    contract.Spec pending (fun r w' => Replies pending p w₀ r w') (Session.lwipSent len w₀) := by
  have hne : w₀.net.calling ≠ [] := List.ne_nil_of_mem hsent
  have hwatched : ¬ Unwatched w₀ := fun h => h.1 hsent
  rw [Session.lwipSent_apply]
  split
  · exact Held.replies (h.same rfl rfl rfl rfl) rfl
  · split
    · refine held_call (h.same rfl rfl rfl rfl) fun accepted w' h' hok => ?_
      have haborts := h'.aborts_of_watched hwatched hne
      cases accepted with
      | true => exact h'.replies haborts
      | false =>
          cases hclosing : w'.session.closing with
          | true => exact replies_close_again h' haborts hclosing
          | false =>
              rcases hok.2.2 rfl hclosing with ⟨-, hnil⟩ | hwatched'
              · exact replies_close h' hne hnil hpcb hclosing
              · refine absurd hwatched' fun h'' => hwatched ?_
                rwa [Unwatched, ← h'.calling]
    · exact Held.replies (h.same rfl rfl rfl rfl) rfl

theorem replies_lwipConnected {err : Err} {p : ℕ} (h : Held w₀ w₀) (hpending : pending = [])
    (hpcb : w₀.session.pcb = some p) (hclosing : w₀.session.closing = false)
    (hconnected : .connected ∈ w₀.net.calling) :
    contract.Spec pending (fun r w' => Replies pending p w₀ r w')
      (Session.lwipConnected err w₀) := by
  have hne : w₀.net.calling ≠ [] := List.ne_nil_of_mem hconnected
  have hwatched : ¬ Unwatched w₀ := fun h => h.2 hconnected
  rw [Session.lwipConnected_apply]
  split
  · exact replies_close h hne hpending hpcb hclosing
  · dsimp only
    split
    · refine held_call (h.same rfl rfl rfl rfl) fun _ w' h' _ => ?_
      exact h'.replies (h'.aborts_of_watched hwatched hne)
    · exact Held.replies (h.same rfl rfl rfl rfl) rfl

/-! #### `lwip_recv` -/

/-- The session has been closed, and has said so already. -/
theorem replies_onClosed {p : ℕ} (h : Held w₀ w) (hne : w₀.net.calling ≠ [])
    (hpending : pending = []) (haborts : aborts w.log = aborts w₀.log ++ [p])
    (hpcb : w.session.pcb = none) :
    contract.Spec pending (fun _ w' => Replies pending p w₀ .ERR_ABRT w')
      (Session.onClosed w) := by
  have hself : Held w w := .refl fun _ => h.fit hne
  refine (held_onClosed hself).mono fun _ w' h' => ?_
  refine ⟨h'.calling.trans h.calling, fun hpending' => absurd hpending hpending',
    .inl ⟨rfl, ?_⟩⟩
  rw [h'.aborts_of_closed (by rwa [h.calling]) hpcb, haborts]

theorem replies_recvLoop {pcb p : ℕ} {q : List Pbuf} (hrecv : .recv ∈ w₀.net.calling)
    (hpending : pending = []) (hpcb : w₀.session.pcb = some p)
    (hclosing : w₀.session.closing = false) : ∀ {it : List Pbuf} {w : World}, Held w₀ w →
      aborts w.log = aborts w₀.log →
      contract.Spec pending
        (fun r w' => r.elim (Held w₀ w' ∧ aborts w'.log = aborts w₀.log)
          fun err => Replies pending p w₀ err w') (Session.recvLoop pcb q it w) := by
  have hne : w₀.net.calling ≠ [] := List.ne_nil_of_mem hrecv
  intro it
  induction it with
  | nil => exact fun h haborts => ⟨h, haborts⟩
  | cons it next ih =>
      intro w h haborts
      rw [Session.recvLoop_cons]
      refine held_call h fun accepted w' h' _ => ?_
      have hset : Held w₀ (w'.set fun s => { s with processing := false }) :=
        h'.same rfl rfl rfl rfl
      cases h'.inside hne with
      | same pcb' closing' aborted =>
          rw [hclosing] at closing'
          rw [closing', pcb', hpcb]
          simp only [Option.isNone_some, Bool.or_self, Bool.false_eq_true, if_false]
          split
          · rw [Session.releaseChain_apply, Reentrant.Res.bind_done]
            exact Spec.bind (replies_close ((hset.emit rfl).emit rfl) hne hpending hpcb closing')
              fun _ _ hr => hr
          · split
            · exact ⟨h', aborted⟩
            · exact ih h' aborted
      | aborted q pcb' _ pcb'' closing'' aborted _ =>
          obtain rfl : p = q := Option.some.inj (hpcb.symm.trans pcb')
          rw [closing'', Bool.true_or, if_pos rfl]
          exact Spec.bind (replies_onClosed hset hne hpending aborted pcb'') fun _ _ hr => hr
      | lost _ _ _ _ _ watched => exact absurd hrecv watched

theorem replies_lwipRecv {pcb p : ℕ} {q : List Pbuf} (h : Held w₀ w₀)
    (hrecv : .recv ∈ w₀.net.calling) (hpending : pending = []) (hpcb : w₀.session.pcb = some p)
    (hclosing : w₀.session.closing = false) :
    contract.Spec pending (fun r w' => Replies pending p w₀ r w')
      (Session.lwipRecv pcb q .ERR_OK w₀) := by
  have hne : w₀.net.calling ≠ [] := List.ne_nil_of_mem hrecv
  have hrelease {w : World} (h : Held w₀ w) (haborts : aborts w.log = aborts w₀.log) :
      contract.Spec pending (fun r w' => Replies pending p w₀ r w')
        ((Session.releaseChain pcb q w).bind fun _ w' => .done .ERR_OK w') := by
    rw [Session.releaseChain_apply, Reentrant.Res.bind_done]
    refine ((h.emit rfl).emit rfl).replies ?_
    rw [aborts_emit rfl, aborts_emit rfl, haborts]
  rw [Session.lwipRecv_apply]
  simp only [reduceCtorEq, if_false, ne_eq, not_true_eq_false]
  split
  · exact replies_close h hne hpending hpcb hclosing
  · split
    · refine Spec.bind (replies_recvLoop hrecv hpending hpcb hclosing
        (h.same rfl rfl rfl rfl) rfl) fun r w' hr => ?_
      cases r with
      | none => exact hrelease (hr.1.same rfl rfl rfl rfl) hr.2
      | some err => exact hr
    · exact hrelease h rfl

/-! #### All of them -/

theorem spec_lwipErr {pcb : ℕ} (hgood : contract.good pending w)
    (hfits : AbortFits pending w (.enter (.lwipErr pcb))) :
    contract.Spec pending (fun r w' => After pending (.lwipErr pcb) w r w')
      (Entry.run (.lwipErr pcb) w) := by
  rw [Entry.run_lwipErr, fromLwip_apply, Session.lwipErr_apply, Session.close_apply]
  generalize hw₁ : ((((w.update (Net.drop pcb)).callBack .err).emit
    (.clearCallbacks ((w.update (Net.drop pcb)).callBack .err).session.pcb)).set fun s =>
      { s with pcb := none }) = w₁
  have hpcb : w₁.session.pcb = none := by rw [← hw₁]; rfl
  have hclosing : w₁.session.closing = w.session.closing := by rw [← hw₁]; rfl
  have hcalling : w₁.net.calling = .err :: w.net.calling := by rw [← hw₁]; rfl
  have haborts : aborts w₁.log = aborts w.log := by rw [← hw₁]; exact aborts_emit rfl
  have hafter {w' w'' : World} (hcalling : w'.net.calling = .err :: w.net.calling)
      (hinside : w.net.calling ≠ [] → Inside w w') (h : Held w' w'') :
      After pending (.lwipErr pcb) w .ERR_OK w''.returned :=
    (h.returned hcalling hinside).after hgood (obeys_free rfl)
  split
  · -- the session had been closed before
    rename_i hclosed
    refine hafter hcalling (fun hne => ?_) (.refl fun _ => .inr ⟨hpcb, hclosed⟩)
    rw [hclosing] at hclosed
    rcases hgood.2 hne with ⟨-, hopen⟩ | ⟨hnone, -⟩
    · rw [hclosed] at hopen
      cases hopen
    · exact .same (hpcb.trans hnone.symm) hclosing haborts
  · rename_i hopen
    rw [hclosing] at hopen
    have hcalling' : w₁.shut.net.calling = .err :: w.net.calling := calling_shut.trans hcalling
    have hlost (hne : w.net.calling ≠ []) : Inside w w₁.shut := by
      rcases hgood.2 hne with ⟨hsome, hopen⟩ | ⟨-, hclosed⟩
      · refine .lost hsome hopen ?_ ?_ ?_ (hfits.2.1 rfl)
        · rw [World.shut_session]
        · rw [World.shut_session]
        · rw [aborts_shut, hpcb, haborts]
          exact List.append_nil _
      · exact absurd hclosed hopen
    split
    · exact hafter hcalling' hlost (.refl fun _ => fit_shut)
    · refine Spec.bind (Spec.bind (Spec.bind (held_onClosed (.refl fun _ => fit_shut))
        fun _ _ h => ?_) fun _ _ h => h) fun _ _ h => h
      exact hafter hcalling' hlost h

/-- A callback for the pcb of an open session, once its code is known to reply. -/
theorem spec_callBack {cb : Callback} {e : Entry} {x : Prog Err} {p : ℕ}
    (hgood : contract.good pending w) (he : ∀ pcb, e.abortable = some pcb → pcb = p)
    (h : contract.Spec pending (fun r w' => Replies pending p (w.callBack cb) r w')
      (x (w.callBack cb))) :
    contract.Spec pending (fun r w' => After pending e w r w') (fromLwip cb x w) := by
  rw [fromLwip_apply]
  exact Spec.bind h fun _ _ h' => h'.after hgood he

/-- `lwip_recv` of an open session with an error, of which nothing is promised. -/
theorem calling_lwipRecv {pcb : ℕ} {p : List Pbuf} {err : Err} (herr : err ≠ .ERR_OK)
    (hclosing : w.session.closing = false) :
    contract.Spec pending (fun _ w' => w'.net.calling = w.net.calling)
      (Session.lwipRecv pcb p err w) := by
  have hclose {w' : World} (hclosing : w'.session.closing = false)
      (hcalling : w'.net.calling = w.net.calling) :
      contract.Spec pending (fun _ w'' => w''.net.calling = w.net.calling) (Session.close w') :=
    (close_open hclosing).mono fun _ _ h => (h.2.calling.trans calling_shut).trans hcalling
  rw [Session.lwipRecv_apply]
  rcases eq_or_ne err .ERR_ABRT with rfl | hne
  · simp only [if_true]
    split
    · exact hclose hclosing rfl
    · exact Spec.bind (hclose hclosing rfl) fun _ _ h => h
  · simp only [hne, if_false]
    split
    · exact hclose hclosing rfl
    · exact Spec.bind (hclose hclosing rfl) fun _ _ h => h

theorem spec_lwipRecv {pcb : ℕ} {p : List Pbuf} {err : Err} (hpending : pending = [])
    (hgood : contract.good pending w) (hpcb : w.session.pcb = some pcb)
    (hclosing : w.session.closing = false) :
    contract.Spec pending (fun r w' => After pending (.lwipRecv pcb p err) w r w')
      (Entry.run (.lwipRecv pcb p err) w) := by
  have hidle := hgood.1 hpending
  rw [Entry.run_lwipRecv]
  rcases eq_or_ne err .ERR_OK with rfl | herr
  · rw [if_neg Err.noConfusion]
    refine spec_callBack (p := pcb) hgood (fun _ hp => Option.some.inj hp.symm) ?_
    exact replies_lwipRecv (held_callBack _ (by rw [hpcb]; rfl) hclosing) List.mem_cons_self
      hpending hpcb hclosing
  · rw [fromLwip_apply]
    have hfree : (Entry.lwipRecv pcb p err).abortable = none := by
      cases err <;> first | rfl | exact absurd rfl herr
    refine Spec.bind (calling_lwipRecv herr ?_) fun r w' hcalling => ?_
    · split <;> exact hclosing
    · refine Held.after (.idle hidle ?_) hgood (obeys_free hfree)
      change w'.net.calling.tail = w.net.calling
      rw [hcalling]
      split <;> rfl

/-- **Every method keeps the contract.** -/
theorem sound : contract.Sound Entry.run fun _ e w r w' => ObeysAbort e w r w' where
  refl _ _ := ⟨rfl, fun _ => .same rfl rfl rfl⟩
  trans _ _ _ _ h h' := by
    refine ⟨h'.1.trans h.1, fun hne => ?_⟩
    exact (h.2 hne).trans (fun _ hmem => h.1 ▸ hmem) (h'.2 (by rwa [h.1]))
  method pending w e hgood hok := by
    obtain ⟨hproper, honly, hfits⟩ := hok
    have hself : Held w w := .refl hgood.2
    cases e with
    | send data => exact spec_free (e := .send data) rfl hgood (held_send hself hgood.1)
    | close =>
        refine spec_free (e := .close) rfl hgood (held_close hself fun _ hclosing => ?_)
        rcases hfits.2.2 rfl hclosing with ⟨h, -⟩ | hwatched
        · cases h
        · exact hwatched
    | connect host port =>
        refine spec_free (e := .connect host port) rfl hgood ?_
        rw [Entry.run_connect]
        exact held_connect (honly rfl) rfl
    | connectAddress host ipaddr port =>
        refine spec_free (e := .connectAddress host ipaddr port) rfl hgood ?_
        rw [Entry.run_connectAddress]
        exact held_connectAddress (honly rfl) rfl
    | dnsCallback host ipaddr =>
        refine spec_free (e := .dnsCallback host ipaddr) rfl hgood ?_
        have hidle := hgood.1 hproper.1
        cases ipaddr with
        | none =>
            rw [Entry.run_dnsCallback_none]
            exact Spec.bind (held_onClosed (.idle hidle rfl)) fun _ _ h => h
        | some ipaddr =>
            rw [Entry.run_dnsCallback_some]
            exact Spec.bind (held_connectAddress hidle rfl) fun _ _ h => h
    | lwipConnected pcb err =>
        obtain ⟨hpcb, hclosing⟩ := hfits.1 pcb rfl
        refine spec_callBack (p := pcb) (e := .lwipConnected pcb err) hgood
          (fun _ hp => Option.some.inj hp.symm) ?_
        exact replies_lwipConnected (held_callBack _ (by rw [hpcb]; rfl) hclosing) hproper.1 hpcb
          hclosing List.mem_cons_self
    | lwipRecv pcb p err =>
        obtain ⟨hpcb, hclosing⟩ := hfits.1 pcb rfl
        exact spec_lwipRecv hproper.1 hgood hpcb hclosing
    | lwipSent pcb len =>
        obtain ⟨hpcb, hclosing⟩ := hfits.1 pcb rfl
        refine spec_callBack (p := pcb) (e := .lwipSent pcb len) hgood
          (fun _ hp => Option.some.inj hp.symm) ?_
        exact replies_lwipSent (held_callBack _ (by rw [hpcb]; rfl) hclosing) hpcb
          List.mem_cons_self
    | lwipErr pcb => exact spec_lwipErr hgood hfits

end Abort

/-! ### The property of every run -/

/-- **Every pcb callback keeps to the rule**: it returns `ERR_ABRT` if and only if it has aborted
its pcb. -/
theorem abort_obeyed (setup : Setup) (arg : Option ℕ) (tls callback : Bool) (moves : List Move)
    (c : Config)
    (hrun : Reentrant.run Entry.run
      (fun pending w m => Proper pending w m ∧ OnlySendsAndCloses w m ∧ AbortFits pending w m)
      moves (.start (.start setup arg tls callback)) = some c) :
    ∀ r ∈ c.history, ObeysAbort r.entry r.before r.result r.after :=
  (Abort.sound.run ⟨fun _ => rfl, fun hne => absurd rfl hne⟩ hrun).2

/-- The application closes the session inside `on_recv`. -/
theorem abort_obeyed_example :
    ∃ c : Config, Reentrant.run Entry.run
      (fun pending w m => Proper pending w m ∧ OnlySendsAndCloses w m ∧ AbortFits pending w m)
      [.enter (.lwipRecv 1 [⟨[7], 1⟩] .ERR_OK), .enter .close, .answer (.onRecv [7]) true,
        .answer .onClosed ()]
      (.start (.start ⟨16384, true, by decide⟩ (some 1) false true)) = some c ∧
      ∀ r ∈ c.history, ObeysAbort r.entry r.before r.result r.after := by
  refine ⟨_, rfl, abort_obeyed ⟨16384, true, by decide⟩ (some 1) false true
    [.enter (.lwipRecv 1 [⟨[7], 1⟩] .ERR_OK), .enter .close, .answer (.onRecv [7]) true,
      .answer .onClosed ()] _ ?_⟩
  rfl

/-- **A session that is closed inside `on_connected` aborts its pcb and returns `ERR_OK`.** -/
theorem abort_hidden :
    ¬ ∀ (setup : Setup) (arg : Option ℕ) (tls callback : Bool) (moves : List Move) (c : Config),
      Reentrant.run Entry.run (fun pending w m => Proper pending w m ∧ OnlySendsAndCloses w m)
        moves (.start (.start setup arg tls callback)) = some c →
      ∀ r ∈ c.history, ObeysAbort r.entry r.before r.result r.after := by
  intro hall
  have h := hall ⟨16384, true, by decide⟩ none false true
    [.enter (.connect [104] 80), .answer (.dnsGethostbyname [104]) (.ERR_OK, 9),
      .answer (.altcpNew false) (some 1), .answer (.altcpConnect (some 1) 9 80) .ERR_OK,
      .enter (.lwipConnected 1 .ERR_OK), .enter .close, .answer .onClosed (),
      .answer .onConnected ()] _ rfl
  have hlast := h _ (List.mem_cons_of_mem _ (List.mem_cons_of_mem _ List.mem_cons_self))
  obtain ⟨new, hnew, hresult⟩ := hlast 1 rfl
  obtain rfl : [1] = new := hnew
  exact absurd (hresult.2 List.mem_cons_self) (by decide)

end Tls
