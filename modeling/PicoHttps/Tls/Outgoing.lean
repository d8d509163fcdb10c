/-
**What a session writes.**

`send` passes data to `altcp_write` in pieces, and it is the only method that does.  What it leaves
is stated for any owner of the session: while a call of the session waits, the owner may have done
anything that writes nothing and opens no session, and lwIP answers as the parameter `ok` permits.
If the session is still open when `send` is done, all the data has been written, unless a call of
lwIP has failed.

Main definitions:

* `Tls.written` — the bytes that have been passed to `altcp_write`;
* `Tls.Later`, `Tls.Mute` — nothing has been written, and code that writes nothing;
* `Tls.Outgoing.contract` — what is expected of the owner.

Main results:

* `Tls.mute_run` — what lwIP calls writes nothing;
* `Tls.gives_send`, `Tls.gives_connect` — what `send` and `connect` do not call;
* `Tls.Outgoing.spec_send` — **what `send` passes on**.
-/

import PicoHttps.Tls.Sending

set_option relaxedAutoImplicit false
set_option autoImplicit false

namespace Tls

open Reentrant (Res)

/-- The piece of data that an event passes to `altcp_write`. -/
def Event.chunk : Event → List UInt8
  | .call (.altcpWrite _ data) => data
  | _ => []

/-- The bytes that have been passed to `altcp_write`. -/
def written (log : List Event) : List UInt8 := log.flatMap Event.chunk

theorem written_append (log log' : List Event) :
    written (log ++ log') = written log ++ written log' := List.flatMap_append

instance (w : World) : Decidable w.IsOpen := inferInstanceAs (Decidable (_ = _ ∧ _ ≠ _))

/-! ### Code that writes nothing -/

/-- **Nothing has been written**, and a session that is open now was open before. -/
structure Later (w w' : World) : Prop where
  written : written w'.log = written w.log
  opened : w'.IsOpen → w.IsOpen

/-- The calls while which nothing is written: all but those of `altcp`, and `on_connected`. -/
def Call.isMute : Call → Bool
  | .onConnected | .altcpWrite _ _ | .altcpOutput _ => false
  | _ => true

section later

variable {α : Type} {w₀ w w' w'' : World}

theorem Later.refl (w : World) : Later w w := ⟨rfl, id⟩

theorem Later.trans (h : Later w w') (h' : Later w' w'') : Later w w'' :=
  ⟨h'.written.trans h.written, fun hopen => h.opened (h'.opened hopen)⟩

theorem written_emit (e : Event) (w : World) :
    written (w.emit e).log = written w.log ++ e.chunk := by
  rw [World.emit_log, written_append]
  exact congrArg _ (List.flatMap_singleton _ _)

theorem Later.emit {e : Event} (h : Later w₀ w) (he : e.chunk = []) : Later w₀ (w.emit e) where
  written := by rw [written_emit, he, List.append_nil, h.written]
  opened := h.opened

theorem Later.update (f : Net → Net) (h : Later w₀ w) : Later w₀ (w.update f) :=
  ⟨h.written, h.opened⟩

/-- A step of the session that does not open it. -/
theorem Later.set {f : Session → Session} (h : Later w₀ w) (hf : (w.set f).IsOpen → w.IsOpen) :
    Later w₀ (w.set f) := ⟨h.written, fun hopen => h.opened (hf hopen)⟩

theorem chunk_call {c : Call} (hc : c.isOutput = false) : (Event.call c).chunk = [] := by
  cases c <;> first | rfl | cases hc

theorem isOutput_of_isMute {c : Call} (hc : c.isMute = true) : c.isOutput = false := by
  cases c <;> first | rfl | cases hc

theorem not_isOpen_shut (w : World) : ¬ w.shut.IsOpen := by
  rw [World.IsOpen, World.shut_session]
  exact fun hopen => Bool.false_ne_true hopen.1.symm

theorem Later.shut (h : Later w₀ w) : Later w₀ w.shut where
  written := by
    rw [World.shut_log, written_append, h.written]
    cases w.session.pcb <;> exact List.append_nil _
  opened := fun hopen => absurd hopen (not_isOpen_shut w)

/-- **Code that writes nothing**, and opens no session. -/
abbrev Mute (w₀ : World) (r : Res World Call Call.Answer α) : Prop :=
  r.Within Later (fun c => c.isMute = true) w₀

theorem Mute.after {r : Res World Call Call.Answer α} (h : Later w₀ w) (hr : Mute w r) :
    Mute w₀ r := Res.Within.after (fun _ _ _ => Later.trans) h hr

theorem Mute.bind {β : Type} {r : Res World Call Call.Answer α}
    {f : α → World → Res World Call Call.Answer β} (hr : Mute w r) (hf : ∀ a w, Mute w (f a w)) :
    Mute w (r.bind f) := Res.Within.bind (R := Later) (fun _ _ _ => Later.trans) hr hf

theorem mute_call {c : Call} {k : c.Answer → World → Res World Call Call.Answer α}
    (h : Later w₀ w) (hc : c.isMute = true) (hk : ∀ a w', Mute w' (k a w')) :
    Mute w₀ (.call c (w.emit (.call c)) k) :=
  Res.Within.call (h.emit (chunk_call (isOutput_of_isMute hc))) hc hk

theorem mute_onClosed (w : World) : Mute w (Session.onClosed w) := by
  rw [Session.onClosed_apply]
  split
  · exact mute_call (.refl w) rfl fun _ w' => Later.refl w'
  · exact Later.refl w

theorem mute_close (w : World) : Mute w (Session.close w) := by
  have hshut : Later w w.shut := (Later.refl w).shut
  rw [Session.close_apply]
  split
  · exact Later.refl w
  · split
    · exact hshut
    · exact .after hshut ((mute_onClosed _).bind fun _ w' => Later.refl w')

theorem mute_lwipSent (len : ℕ) (w : World) : Mute w (Session.lwipSent len w) := by
  rw [Session.lwipSent_apply]
  split
  · exact Later.set (.refl w) id
  · split
    · refine mute_call (Later.set (.refl w) id) rfl fun accepted w' => ?_
      cases accepted with
      | true => exact Later.refl w'
      | false => exact mute_close w'
    · exact Later.set (.refl w) id

theorem mute_releaseChain (pcb : ℕ) (p : List Pbuf) (w : World) :
    Mute w (Session.releaseChain pcb p w) := by
  rw [Session.releaseChain_apply]
  exact ((Later.refl w).emit rfl).emit rfl

theorem mute_recvLoop {pcb : ℕ} {p it : List Pbuf} : ∀ w : World,
    Mute w (Session.recvLoop pcb p it w) := by
  induction it with
  | nil => exact Later.refl
  | cons it next ih =>
      intro w
      rw [Session.recvLoop_cons]
      refine mute_call (.refl w) rfl fun accepted w' => ?_
      have hset : Later w' (w'.set fun s => { s with processing := false }) := (Later.refl w').set id
      split
      · exact .after hset ((mute_onClosed _).bind fun _ w'' => Later.refl w'')
      · split
        · refine .after hset ((mute_releaseChain pcb p _).bind fun _ w'' => ?_)
          exact (mute_close w'').bind fun _ w'' => Later.refl w''
        · split
          · exact Later.refl w'
          · exact ih w'

theorem mute_lwipRecv (pcb : ℕ) (p : List Pbuf) (err : Err) (w : World) :
    Mute w (Session.lwipRecv pcb p err w) := by
  have hlost : Later w (if err = .ERR_ABRT then w.set fun s => { s with pcb := none } else w) := by
    split
    · exact (Later.refl w).set fun hopen => absurd rfl hopen.2
    · exact .refl w
  rw [Session.lwipRecv_apply]
  dsimp only
  generalize (if err = .ERR_ABRT then w.set fun s => { s with pcb := none } else w) = w' at *
  refine Mute.after hlost ?_
  split
  · exact mute_close w'
  · split
    · exact (mute_close w').bind fun _ w'' => Later.refl w''
    · split
      · have hset : Later w' (w'.set fun s => { s with processing := true }) :=
          (Later.refl w').set id
        refine .after hset ((mute_recvLoop _).bind fun r w'' => ?_)
        cases r with
        | none =>
            have hunset : Later w'' (w''.set fun s => { s with processing := false }) :=
              (Later.refl w'').set id
            exact .after hunset (Mute.bind (mute_releaseChain pcb p _) fun _ w => Later.refl w)
        | some err => exact Later.refl w''
      · exact (mute_releaseChain pcb p w').bind fun _ w'' => Later.refl w''

theorem mute_fromLwip {cb : Callback} {x : Prog Err} (h : ∀ w, Mute w (x w)) (w : World) :
    Mute w (fromLwip cb x w) := by
  rw [fromLwip_apply]
  refine .after ((Later.refl w).update _) ((h _).bind fun _ w' => ?_)
  exact (Later.refl w').update _

/-- **What lwIP calls writes nothing.** -/
theorem mute_run {e : Entry} (he : e.isRaised ∨ ∃ pcb p err, e = .lwipRecv pcb p err) :
    ∀ w, Mute w (e.run w) := by
  rcases he with he | ⟨pcb, p, err, rfl⟩
  · cases e with
    | lwipSent pcb len => exact mute_fromLwip (mute_lwipSent len)
    | lwipErr pcb =>
        intro w
        rw [Entry.run_lwipErr]
        refine .after ((Later.refl w).update _) (mute_fromLwip (fun w => ?_) _)
        rw [Session.lwipErr_apply]
        have hlost : Later w ((w.emit (.clearCallbacks w.session.pcb)).set fun s =>
            { s with pcb := none }) :=
          Later.set ((Later.refl w).emit rfl) fun hopen => absurd rfl hopen.2
        exact .after hlost ((mute_close _).bind fun _ w' => Later.refl w')
    | _ => cases he
  · intro w
    rw [Entry.run_lwipRecv]
    split
    · exact .after ((Later.refl w).update _) (mute_fromLwip (mute_lwipRecv pcb p err) _)
    · exact mute_fromLwip (mute_lwipRecv pcb p err) w

/-- Nothing has been written; a session may have been opened. -/
def Unwritten (w w' : World) : Prop := Tls.written w'.log = Tls.written w.log

theorem Unwritten.trans (h : Unwritten w w') (h' : Unwritten w' w'') : Unwritten w w'' :=
  Eq.trans h' h

theorem Mute.unwritten {r : Res World Call Call.Answer α} (h : Mute w r) :
    r.Within Unwritten (fun c => c.isMute = true) w :=
  Res.Within.mono h (fun _ _ h => h.written) fun _ hc => hc

theorem unwritten_connectAddress (host : Option Host) (ipaddr port : ℕ) (w : World) :
    (Session.connectAddress host ipaddr port w).Within Unwritten (fun c => c.isMute = true) w := by
  rw [Session.connectAddress_apply]
  split
  · exact (mute_close w).unwritten
  · refine Res.Within.call (((Later.refl w).emit rfl).written) rfl fun pcb w' => ?_
    refine Res.Within.call ?_ rfl fun err w'' => ?_
    · rw [Unwritten, written_emit, World.prepare_log, written_append]
      cases w.session.tls <;> cases host <;> simp [written, Event.chunk]
    · split
      · exact (mute_close w'').unwritten
      · exact rfl

theorem unwritten_connect (host : Host) (port : ℕ) (w : World) :
    (Session.connect host port w).Within Unwritten (fun c => c.isMute = true) w := by
  rw [Session.connect_apply]
  refine Res.Within.call ?_ rfl fun found w' => ?_
  · exact (written_emit _ _).trans (List.append_nil _)
  · split
    · exact unwritten_connectAddress _ _ _ w'
    · split
      · exact rfl
      · exact rfl

/-- **What the resolver calls writes nothing.** -/
theorem unwritten_dnsCallback (host : Host) (ipaddr : Option ℕ) (w : World) :
    (Entry.run (.dnsCallback host ipaddr) w).Within Unwritten (fun c => c.isMute = true) w := by
  cases ipaddr with
  | none =>
      rw [Entry.run_dnsCallback_none]
      refine Res.Within.bind (R := Unwritten) (fun _ _ _ => Unwritten.trans) ?_ fun _ _ => rfl
      exact Res.Within.after (fun _ _ _ => Unwritten.trans) (rfl : Unwritten w (w.resolved host none))
        (mute_onClosed _).unwritten
  | some ipaddr =>
      rw [Entry.run_dnsCallback_some]
      refine Res.Within.bind (R := Unwritten) (fun _ _ _ => Unwritten.trans) ?_ fun _ _ => rfl
      exact Res.Within.after (fun _ _ _ => Unwritten.trans)
        (rfl : Unwritten w (w.resolved host (some ipaddr))) (unwritten_connectAddress _ _ _ _)

end later

/-! ### What is not called -/

/-- The calls by which the session hands on what lwIP has brought. -/
def Call.delivers : Call → Bool
  | .onConnected | .onRecv _ => true
  | _ => false

section gives

variable {α : Type}

/-- Code that hands on nothing. -/
abbrev Gives (r : Res World Call Call.Answer α) : Prop := r.Makes fun c => c.delivers = false

theorem makes_onClosed (w : World) : (Session.onClosed w).Makes (· = .onClosed) := by
  rw [Session.onClosed_apply]
  split
  · exact ⟨rfl, fun _ _ => trivial⟩
  · trivial

/-- `close` only notifies the callback object. -/
theorem makes_close (w : World) : (Session.close w).Makes (· = .onClosed) := by
  rw [Session.close_apply]
  split
  · trivial
  · split
    · trivial
    · exact (makes_onClosed _).bind fun _ _ => trivial

/-- With nobody to notify, `close` is done at once. -/
theorem close_done {w : World} (h : w.session.callback = false) :
    ∃ err w', Session.close w = .done err w' := by
  rw [Session.close_apply]
  split
  · exact ⟨_, _, rfl⟩
  · split
    · exact ⟨_, _, rfl⟩
    · rw [Session.onClosed_apply, if_neg (by simp [World.shut_session, h]), Res.bind_done]
      exact ⟨_, _, rfl⟩

theorem delivers_onClosed : ∀ c : Call, c = .onClosed → c.delivers = false := by
  rintro c rfl
  rfl

theorem gives_checkSendFailure (err : Err) (w : World) :
    Gives (Session.checkSendFailure err w) := by
  rw [Session.checkSendFailure_apply]
  split
  · trivial
  · split
    · exact ((makes_onClosed _).mono delivers_onClosed).bind fun _ _ => trivial
    · trivial

theorem gives_lwipSent (len : ℕ) (w : World) : Gives (Session.lwipSent len w) := by
  rw [Session.lwipSent_apply]
  split
  · trivial
  · split
    · refine ⟨rfl, fun accepted w' => ?_⟩
      cases accepted with
      | true => trivial
      | false => exact (makes_close w').mono delivers_onClosed
    · trivial

theorem gives_writeLoop {turns : ℕ} : ∀ (data : List UInt8) (w : World),
    Gives (Session.writeLoop turns data w) := by
  induction turns with
  | zero => exact fun _ _ => trivial
  | succ turns ih =>
      intro data w
      rcases eq_or_ne data [] with rfl | hdata
      · trivial
      · obtain ⟨n, -, -, hloop⟩ := Session.writeLoop_succ w turns hdata
        rw [hloop]
        refine ⟨rfl, fun err w' => (gives_checkSendFailure err w').bind fun r w'' => ?_⟩
        split
        · trivial
        · exact ih _ w''

theorem gives_finishSend (w : World) : Gives (Session.finishSend w) := by
  have hflush : Gives (Session.flush w) := by
    rw [Session.flush_apply]
    split
    · trivial
    · exact ⟨rfl, fun _ _ => trivial⟩
  rw [Session.finishSend_apply]
  refine hflush.bind fun err w' => (gives_checkSendFailure err w').bind fun r w'' => ?_
  split
  · trivial
  · split
    · exact gives_lwipSent 0 _
    · trivial

/-- **`send` hands on nothing.** -/
theorem gives_send (data : List UInt8) (w : World) : Gives (Session.send (some data) w) := by
  rw [Session.send_apply]
  split
  · trivial
  · refine (gives_writeLoop data _).bind fun r w' => ?_
    cases r with
    | none => exact gives_finishSend w'
    | some err => trivial

theorem gives_connectAddress (host : Option Host) (ipaddr port : ℕ) (w : World) :
    Gives (Session.connectAddress host ipaddr port w) := by
  rw [Session.connectAddress_apply]
  split
  · exact (makes_close w).mono delivers_onClosed
  · refine ⟨rfl, fun pcb w' => ⟨rfl, fun err w'' => ?_⟩⟩
    dsimp only
    split
    · exact (makes_close w'').mono delivers_onClosed
    · trivial

/-- **`connect` hands on nothing.** -/
theorem gives_connect (host : Host) (port : ℕ) (w : World) :
    Gives (Session.connect host port w) := by
  rw [Session.connect_apply]
  refine ⟨rfl, fun found w' => ?_⟩
  dsimp only
  split
  · exact gives_connectAddress _ _ _ w'
  · split <;> trivial

end gives

/-! ### What `send` leaves -/

/-- A call of `altcp` fails. -/
def Move.fails : Move → Bool
  | .answer (.altcpWrite _ _) err => err ≠ .ERR_OK
  | .answer (.altcpOutput _) err => err ≠ .ERR_OK
  | _ => false

/-- The moves of surroundings, where a call waits: none of them is a failure of `altcp`. -/
def Reliable (ok : List Call → World → Move → Prop) : Prop :=
  ∀ pending w m, ok pending w m → m.fails = false

namespace Outgoing

variable {α β : Type} {ok : List Call → World → Move → Prop} {w w' w'' : World}

/-- What the owner of a session is expected to do while a call of `send` waits: nothing is handed on
to it, `m_processing` is set whenever a call of `altcp` waits, nothing is written and no session is
opened. -/
def contract (ok : List Call → World → Move → Prop) :
    Reentrant.Contract World Entry Call Call.Answer where
  ok := ok
  good pending w := ∀ c ∈ pending.head?, c.delivers = false ∧
    (c.isOutput = true → w.session.processing = true)
  rely _ w w' := Later w w'

/-- The contract is kept by code of the session. -/
abbrev Spec (ok : List Call → World → Move → Prop) (post : α → World → Prop) :
    Res World Call Call.Answer α → Prop := (contract ok).Spec [] post

theorem spec_call {post : α → World → Prop} {c : Call}
    {k : c.Answer → World → Res World Call Call.Answer α} (hc : c.delivers = false)
    (houtput : c.isOutput = true → w.session.processing = true)
    (hk : ∀ a w', Later w w' → (c.isOutput = true → w'.session.processing = true) →
      ok [c] w' (.answer c a) → Spec ok post (k a w')) : Spec ok post (.call c w k) := by
  refine ⟨fun c' hc' => ?_, fun a w' hgood hrely hok => hk a w' hrely (hgood c rfl).2 hok⟩
  obtain rfl : c = c' := Option.some.inj hc'
  exact ⟨hc, houtput⟩

/-- A call that is not of `altcp`. -/
theorem spec_waits {post : α → World → Prop} {c : Call}
    {k : c.Answer → World → Res World Call Call.Answer α} (hc : c.delivers = false)
    (houtput : c.isOutput = false) (hk : ∀ a w', Later w w' → Spec ok post (k a w')) :
    Spec ok post (.call c (w.emit (.call c)) k) := by
  refine spec_call hc (fun h => by rw [houtput] at h; cases h) fun a w' hlater _ _ => ?_
  exact hk a w' (((Later.refl w).emit (chunk_call houtput)).trans hlater)

theorem spec_onClosed (w : World) : Spec ok (fun _ w' => Later w w') (Session.onClosed w) := by
  rw [Session.onClosed_apply]
  split
  · exact spec_waits rfl rfl fun _ w' h => h
  · exact Later.refl w

/-- What `close` leaves. -/
theorem spec_close (w : World) :
    Spec ok (fun _ w' => Later w w' ∧ ¬ w'.IsOpen) (Session.close w) := by
  rw [Session.close_apply]
  split
  · rename_i hclosing
    refine ⟨.refl w, fun hopen => ?_⟩
    rw [hopen.1] at hclosing
    cases hclosing
  · have hshut : Later w w.shut := (Later.refl w).shut
    split
    · exact ⟨hshut, not_isOpen_shut w⟩
    · refine (spec_onClosed w.shut).bind fun _ w' h => ⟨hshut.trans h, fun hopen => ?_⟩
      exact not_isOpen_shut w (h.opened hopen)

/-- What `check_send_failure` finds. -/
theorem spec_checkSendFailure (err : Err) (w : World) :
    Spec ok (fun r w' => Later w w' ∧ (r = .ERR_OK → err = .ERR_OK ∧ w' = w) ∧
      (r ≠ .ERR_OK → err = .ERR_OK → ¬ w'.IsOpen)) (Session.checkSendFailure err w) := by
  have hset : Later w (w.set fun s => { s with processing := false }) := (Later.refl w).set id
  rw [Session.checkSendFailure_apply]
  split
  · rename_i herr
    exact ⟨hset, fun hok => absurd hok herr, fun _ hok => absurd hok herr⟩
  · rename_i herr
    have hok : err = .ERR_OK := not_not.1 herr
    split
    · rename_i hlost
      have hnot : ¬ w.IsOpen := by
        rw [Sending.isOpen_iff]
        intro hopen
        have hlost' : (w.session.closing || w.session.pcb.isNone) = true := hlost
        rw [hopen] at hlost'
        cases hlost'
      refine (spec_onClosed _).bind fun _ w' h => ⟨hset.trans h, (fun hok' => by cases hok'), ?_⟩
      exact fun _ _ hopen => hnot (hset.opened (h.opened hopen))
    · exact ⟨.refl w, fun _ => ⟨hok, rfl⟩, fun hne => absurd rfl hne⟩

/-- What the loop of `send` leaves: all the data has been written; or the session is lost, if the
value that is returned is `ERR_OK` or no call fails. -/
structure Looped (reliable : Prop) (w : World) (data : List UInt8) (r : Option Err) (w' : World) :
    Prop where
  opened : w'.IsOpen → w.IsOpen
  written : r = none → Tls.written w'.log = Tls.written w.log ++ data ∧
    w'.session.processing = true
  lost : ∀ err ∈ r, err = .ERR_OK ∨ reliable → ¬ w'.IsOpen

/-- There is nothing to write. -/
theorem Looped.nil {reliable : Prop} (h : w.session.processing = true) :
    Looped reliable w [] none w where
  opened := id
  written := fun _ => ⟨(List.append_nil _).symm, h⟩
  lost := fun _ herr => by cases herr

/-- **The loop of `send`.** -/
theorem spec_writeLoop {turns : ℕ} : ∀ {data : List UInt8} {w : World}, data.length ≤ turns →
    w.session.processing = true →
      Spec ok (Looped (Reliable ok) w data) (Session.writeLoop turns data w) := by
  induction turns with
  | zero =>
      intro data w hlen hprocessing
      obtain rfl := List.length_eq_zero_iff.1 (Nat.le_zero.1 hlen)
      exact .nil hprocessing
  | succ turns ih =>
      intro data w hlen hprocessing
      rcases eq_or_ne data [] with rfl | hdata
      · exact .nil hprocessing
      · obtain ⟨n, hpos, -, hloop⟩ := Session.writeLoop_succ w turns hdata
        rw [hloop]
        refine spec_call rfl (fun _ => hprocessing) fun err w' hlater hprocessing' hok => ?_
        -- what has been passed to `altcp_write` is on record, whatever lwIP answers
        have hwritten : Tls.written w'.log = Tls.written w.log ++ data.take n :=
          hlater.written.trans (written_emit _ _)
        have hopened : w'.IsOpen → w.IsOpen := hlater.opened
        have herr : Reliable ok → err = .ERR_OK := fun hreliable =>
          of_decide_eq_false (hreliable _ _ _ hok) |> not_not.1
        refine (spec_checkSendFailure err w').bind ?_
        rintro r w'' ⟨hlater', hok', hlost⟩
        by_cases hr : r = .ERR_OK
        · obtain ⟨rfl, rfl⟩ := hok' hr
          subst hr
          have hdrop : (data.drop n).length ≤ turns := by
            have := List.length_pos_iff.2 hdata
            rw [List.length_drop]
            omega
          rw [if_neg (not_not.2 rfl)]
          refine (ih hdrop (hprocessing' rfl)).mono fun r w₁ h => ?_
          refine ⟨fun ho => hopened (h.opened ho), fun hnone => ?_, h.lost⟩
          obtain ⟨hrest, hprocessing₁⟩ := h.written hnone
          rw [hrest, hwritten, List.append_assoc, List.take_append_drop]
          exact ⟨rfl, hprocessing₁⟩
        · rw [if_pos hr]
          refine ⟨fun ho => hopened (hlater'.opened ho), (fun hnone => by cases hnone), ?_⟩
          rintro err' ⟨⟩ hfine
          exact hlost hr (hfine.elim id herr)

/-- What the session tells of sent bytes. -/
theorem spec_lwipSent (len : ℕ) (w : World) :
    Spec ok (fun _ w' => Later w w') (Session.lwipSent len w) := by
  have hset : Later w (w.set fun s => { s with sentBytes := 0 }) := (Later.refl w).set id
  rw [Session.lwipSent_apply]
  split
  · exact (Later.refl w).set id
  · split
    · refine spec_waits rfl rfl fun accepted w' hlater => ?_
      cases accepted with
      | true => exact hset.trans hlater
      | false => exact (spec_close w').mono fun _ _ h => (hset.trans hlater).trans h.1
    · exact hset

/-- **The end of `send`** writes nothing more. -/
theorem spec_finishSend (hprocessing : w.session.processing = true) :
    Spec ok (fun _ w' => Later w w') (Session.finishSend w) := by
  have hflush : Spec ok (fun _ w' => Later w w') (Session.flush w) := by
    rw [Session.flush_apply]
    split
    · exact Later.refl w
    · refine spec_call rfl (fun _ => hprocessing) fun _ w' hlater _ _ => ?_
      exact ((Later.refl w).emit rfl).trans hlater
  rw [Session.finishSend_apply]
  refine hflush.bind fun err w' hlater => (spec_checkSendFailure err w').bind fun r w'' h => ?_
  have hchecked : Later w w'' := hlater.trans h.1
  split
  · exact hchecked
  · have hset : Later w (w''.set fun s => { s with processing := false }) := hchecked.set id
    split
    · exact (spec_lwipSent 0 _).mono fun _ _ h => hset.trans h
    · exact hset

end Outgoing

/-- What `send` leaves: if the session is still open, and all is fine, the data has been written. -/
structure Sent (w : World) (data : List UInt8) (fine : Prop) (w' : World) : Prop where
  opened : w'.IsOpen → w.IsOpen
  written : w'.IsOpen → fine → Tls.written w'.log = Tls.written w.log ++ data

/-- One piece of data after another. -/
theorem Sent.trans {w w' w'' : World} {xs ys : List UInt8} {fine fine' : Prop}
    (h : Sent w xs fine w') (hfine : fine) (h' : Sent w' ys fine' w'') :
    Sent w (xs ++ ys) fine' w'' where
  opened := fun hopen => h.opened (h'.opened hopen)
  written := fun hopen hfine' => by
    rw [h'.written hopen hfine', h.written (h'.opened hopen) hfine, List.append_assoc]

/-- **What `send` passes on.**  All is fine if `ERR_OK` is returned, or if no call fails. -/
theorem Outgoing.spec_send (ok : List Call → World → Move → Prop) (data : List UInt8) (w : World) :
    Spec ok (fun err w' => Sent w data (err = .ERR_OK ∨ Reliable ok) w')
      (Session.send (some data) w) := by
  rw [Session.send_apply]
  split
  · rename_i hpcb
    have hlost : ¬ w.IsOpen := fun hopen => hopen.2 (Option.isNone_iff_eq_none.1 hpcb)
    exact ⟨id, fun hopen => absurd hopen hlost⟩
  · refine (spec_writeLoop (Nat.le_refl _) rfl).bind fun r w' h => ?_
    cases r with
    | some err => exact ⟨h.opened, fun hopen hfine => absurd hopen (h.lost err rfl hfine)⟩
    | none =>
        obtain ⟨hwritten, hprocessing⟩ := h.written rfl
        refine (spec_finishSend hprocessing).mono fun err w'' hlater => ?_
        exact ⟨fun hopen => h.opened (hlater.opened hopen),
          fun _ _ => hlater.written.trans hwritten⟩

end Tls
