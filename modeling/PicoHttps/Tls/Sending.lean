/-
**What `send` reports.**

`Session::send` passes its data to `altcp_write` in pieces that mbedTLS takes, and flushes it.  Each
of these calls may raise `lwip_sent` and `lwip_err` before it returns, so `check_send_failure` looks
after each of them whether the session is still open.  But what `send` then returns is the answer of
the call and not what `check_send_failure` has found: a session that is lost inside a call which lwIP
answers with `ERR_OK` has `send` return `ERR_OK`.

Main definitions:

* `Tls.Raised`, `Tls.Surroundings` — what may happen before a call is answered;
* `Tls.chunks` — the pieces that an invocation has passed to `altcp_write`;
* `Tls.SendsTruly` — an invocation of `send` that returns `ERR_OK` only when it has sent the data;
* `Tls.StaysOpen` — the session is found open wherever `send` takes an answer for a success.

Main results:

* `Tls.Sending.writeLoop_goes`, `Tls.Sending.finishSend_goes` — the loop, and what follows it;
* `Tls.send_succeeds_iff` — **`send` returns `ERR_OK` only when it has sent the data, if and only if
  the session stays open**;
* `Tls.send_hides_loss` — an invocation that returns `ERR_OK` for a session that is lost.
-/

import PicoHttps.Tls.Methods

set_option relaxedAutoImplicit false
set_option autoImplicit false

namespace Tls

/-! ### An invocation -/

/-- A call that has been answered. -/
abbrev Answered := Reentrant.Answered World Call Call.Answer

/-- The callbacks that lwIP raises inside `altcp_write` and `altcp_output`. -/
def Entry.isRaised : Entry → Bool
  | .lwipSent _ _ | .lwipErr _ => true
  | _ => false

/-- lwIP raises any number of these callbacks; while `m_processing` is set, each returns at once. -/
inductive Raised : World → World → Prop
  | refl (w : World) : Raised w w
  | step {w w₁ w' : World} {e : Entry} {r : Err} (he : e.isRaised) (hrun : e.run w = .done r w₁)
      (h : Raised w₁ w') : Raised w w'

/-- **What may happen before a call is answered**: lwIP answers as it likes, after any callbacks;
the application does what it likes. -/
def Surroundings : (c : Call) → World → c.Answer → World → Prop
  | .altcpWrite _ _, w, _, w' => Raised w w'
  | .altcpOutput _, w, _, w' => Raised w w'
  | _, _, _, _ => True

/-- The session is open: it has its pcb and has not been closed. -/
def World.IsOpen (w : World) : Prop := w.session.closing = false ∧ w.session.pcb ≠ none

/-- The piece of data that a call passes to `altcp_write`. -/
def Call.chunk : Call → Option (List UInt8)
  | .altcpWrite _ data => some data
  | _ => none

/-- The pieces of data that have been passed to `altcp_write`. -/
def chunks (path : List Answered) : List (List UInt8) := path.filterMap (·.request.chunk)

/-- lwIP has answered the call with an error. -/
def failed (x : Answered) : Bool :=
  match x with
  | ⟨.altcpWrite _ _, err, _⟩ => err ≠ .ERR_OK
  | ⟨.altcpOutput _, err, _⟩ => err ≠ .ERR_OK
  | _ => false

/-- The answer is one that `send` takes for a success: `ERR_OK` of lwIP, or any answer to
`on_sent`. -/
def passed (x : Answered) : Bool :=
  match x with
  | ⟨.altcpWrite _ _, err, _⟩ => err = .ERR_OK
  | ⟨.altcpOutput _, err, _⟩ => err = .ERR_OK
  | ⟨.onSent _, _, _⟩ => true
  | _ => false

/-! ### The property -/

/-- **An invocation of `send` that tells the truth**: the pieces are not too long and make up a
prefix of the data, in order; and it returns `ERR_OK` only if they make up all of it, every call of
`altcp` was answered with `ERR_OK`, and the session was open all the time. -/
structure SendsTruly (w : World) (data : List UInt8) (path : List Answered) (r : Err)
    (w' : World) : Prop where
  bounded : ∀ chunk ∈ chunks path, chunk.length ≤ w.setup.outContentLen
  ordered : (chunks path).flatten <+: data
  complete : r = .ERR_OK → (chunks path).flatten = data
  accepted : r = .ERR_OK → ∀ x ∈ path, failed x = false
  opened : r = .ERR_OK → w.IsOpen ∧ (∀ x ∈ path, x.state.IsOpen) ∧ w'.IsOpen

/-- **The condition**: without data the session is open to begin with, and it is open whenever lwIP
answers a call with `ERR_OK` or the application answers `on_sent`. -/
def StaysOpen (w : World) (data : List UInt8) (path : List Answered) : Prop :=
  (data = [] → w.IsOpen) ∧ ∀ x ∈ path, passed x → x.state.IsOpen

namespace Sending

open Reentrant (Res)

variable {w w' : World} {path p q : List Answered} {r err : Err}

theorem isOpen_iff : w.IsOpen ↔ (w.session.closing || w.session.pcb.isNone) = false := by
  rw [World.IsOpen, Bool.or_eq_false_iff, Option.isNone_eq_false_iff, Option.isSome_iff_ne_none]

/-! ### What lwIP raises -/

/-- While `m_processing` is set, `close` returns at once. -/
theorem close_of_processing (hprocessing : w.session.processing = true) :
    ∃ r w₁, Session.close w = .done r w₁ ∧ w₁.session.processing = true ∧ w₁.setup = w.setup ∧
      (w₁.IsOpen → w.IsOpen) := by
  rw [Session.close_apply]
  by_cases hclosing : w.session.closing = true
  · exact ⟨_, _, if_pos hclosing, hprocessing, rfl, id⟩
  · refine ⟨_, _, (if_neg hclosing).trans (if_pos hprocessing), ?_, World.shut_setup w, ?_⟩
    · rw [World.shut_session]
      exact hprocessing
    · intro hopen
      rw [World.IsOpen, World.shut_session] at hopen
      cases hopen.1

/-- While `m_processing` is set, a callback that lwIP raises returns at once. -/
theorem raised_run {e : Entry} (he : e.isRaised) (hprocessing : w.session.processing = true) :
    ∃ r w₁, e.run w = .done r w₁ ∧ w₁.session.processing = true ∧ w₁.setup = w.setup ∧
      (w₁.IsOpen → w.IsOpen) := by
  cases e with
  | lwipSent pcb len =>
      have hcalled : (w.callBack .sent).session.processing = true := hprocessing
      have hrun : Entry.run (.lwipSent pcb len) w = .done .ERR_OK ((w.callBack .sent).set fun s =>
          { s with sentBytes := (s.sentBytes + len) % 2 ^ 16 }).returned := by
        refine (fromLwip_apply .sent (Session.lwipSent len) w).trans ?_
        rw [Session.lwipSent_apply, if_pos hcalled]
        rfl
      exact ⟨_, _, hrun, hprocessing, rfl, id⟩
  | lwipErr pcb =>
      obtain ⟨r, w₁, hclose, hprocessing₁, hsetup, hopen⟩ := close_of_processing
        (w := (((w.update (Net.drop pcb)).callBack .err).emit
          (.clearCallbacks w.session.pcb)).set fun s => { s with pcb := none }) hprocessing
      have hrun : Entry.run (.lwipErr pcb) w = .done .ERR_OK w₁.returned := by
        rw [Entry.run_lwipErr, fromLwip_apply, Session.lwipErr_apply]
        exact congrArg (fun r : Res World Call Call.Answer Err =>
          (r.bind fun _ w' => .done Err.ERR_OK w').bind fun r w' => .done r w'.returned) hclose
      exact ⟨_, _, hrun, hprocessing₁, hsetup, fun h => absurd rfl (hopen h).2⟩
  | _ => cases he

/-- What lwIP raises leaves `m_processing` set, and does not open a session. -/
theorem Raised.keeps (h : Raised w w') (hprocessing : w.session.processing = true) :
    w'.session.processing = true ∧ w'.setup = w.setup ∧ (w'.IsOpen → w.IsOpen) := by
  induction h with
  | refl w => exact ⟨hprocessing, rfl, id⟩
  | step he hrun _ ih =>
      obtain ⟨r, w₁, hrun', hprocessing', hsetup, hopen⟩ := raised_run he hprocessing
      obtain ⟨-, rfl⟩ := Res.done.inj (hrun.symm.trans hrun')
      obtain ⟨hprocessing₁, hsetup₁, hopen₁⟩ := ih hprocessing'
      exact ⟨hprocessing₁, hsetup₁.trans hsetup, fun h' => hopen (hopen₁ h')⟩

/-! ### Paths -/

theorem chunks_append : chunks (p ++ q) = chunks p ++ chunks q := List.filterMap_append

/-- The session is open wherever `send` takes an answer for a success. -/
def Watched (path : List Answered) : Prop := ∀ x ∈ path, passed x → x.state.IsOpen

/-- No call has failed, and the session is open after each. -/
def Clean (path : List Answered) : Prop := ∀ x ∈ path, failed x = false ∧ x.state.IsOpen

/-- What is returned is the truth, if the session stays open; and an error is not returned for a
session that has not. -/
structure Honest (path : List Answered) (r : Err) (w' : World) : Prop where
  truth : Watched path → r = .ERR_OK → Clean path ∧ w'.IsOpen
  error : r ≠ .ERR_OK → Watched path

theorem Clean.watched (h : Clean path) : Watched path := fun x hx _ => (h x hx).2

theorem Clean.append (hp : Clean p) (hq : Clean q) : Clean (p ++ q) := by
  intro x hx
  rcases List.mem_append.1 hx with hx | hx
  · exact hp x hx
  · exact hq x hx

theorem Watched.append (hp : Watched p) (hq : Watched q) : Watched (p ++ q) := by
  intro x hx
  rcases List.mem_append.1 hx with hx | hx
  · exact hp x hx
  · exact hq x hx

theorem Watched.right (h : Watched (p ++ q)) : Watched q :=
  fun x hx => h x (List.mem_append_right p hx)

theorem Honest.append (hp : Clean p) (hq : Honest q r w') : Honest (p ++ q) r w' where
  truth := by
    intro hwatched hr
    obtain ⟨hclean, hopen⟩ := hq.truth hwatched.right hr
    exact ⟨hp.append hclean, hopen⟩
  error := fun hr => hp.watched.append (hq.error hr)

/-- An error of lwIP is returned. -/
theorem Honest.of_error (hr : r ≠ .ERR_OK) (hwatched : Watched path) : Honest path r w' :=
  ⟨fun _ hok => absurd hok hr, fun _ => hwatched⟩

/-- `ERR_OK` is returned for a session that is not open. -/
theorem Honest.of_lost {x : Answered} (hx : x ∈ path) (hpassed : passed x)
    (hlost : ¬ x.state.IsOpen) : Honest path .ERR_OK w' :=
  ⟨fun hwatched => absurd (hwatched x hx hpassed) hlost, fun hr => absurd rfl hr⟩

/-! ### The parts of `send` -/

/-- Only `on_closed` is called. -/
def Quiet (path : List Answered) : Prop := ∀ x ∈ path, x.request = .onClosed

theorem Quiet.watched (h : Quiet path) : Watched path := by
  rintro ⟨c, b, s⟩ hx hpassed
  obtain rfl : c = .onClosed := h _ hx
  cases hpassed

theorem Quiet.chunks (h : Quiet path) : chunks path = [] := by
  refine List.filterMap_eq_nil_iff.2 fun x hx => ?_
  rw [h x hx]
  rfl

theorem onClosed_goes {a : Unit} (h : (Session.onClosed w).Goes Surroundings path a w') :
    Quiet path := by
  rw [Session.onClosed_apply] at h
  split at h
  · obtain ⟨b, s', rest, rfl, -, hrest⟩ := Res.goes_call.1 h
    obtain ⟨rfl, -, -⟩ := Res.goes_done.1 hrest
    intro x hx
    rw [List.mem_singleton.1 hx]
  · obtain ⟨rfl, -, -⟩ := Res.goes_done.1 h
    exact fun x hx => absurd hx List.not_mem_nil

/-- `close` returns `ERR_ABRT` for a session that is open, and `ERR_OK` otherwise. -/
theorem close_goes (h : (Session.close w).Goes Surroundings path r w') :
    Quiet path ∧ (r = .ERR_OK ↔ ¬ w.IsOpen) := by
  have hresult : (if w.session.pcb.isSome then Err.ERR_ABRT else .ERR_OK) = .ERR_OK ↔
      w.session.pcb = none := by
    cases w.session.pcb <;> simp
  rw [Session.close_apply] at h
  split at h
  · rename_i hclosing
    obtain ⟨rfl, rfl, -⟩ := Res.goes_done.1 h
    refine ⟨fun x hx => absurd hx List.not_mem_nil, fun _ hopen => ?_, fun _ => rfl⟩
    exact absurd (hopen.1.symm.trans hclosing) Bool.noConfusion
  · rename_i hclosing
    have hopen : ¬ w.IsOpen ↔ w.session.pcb = none := by
      rw [World.IsOpen, Bool.eq_false_iff.2 hclosing]
      simp
    split at h
    · obtain ⟨rfl, rfl, -⟩ := Res.goes_done.1 h
      exact ⟨fun x hx => absurd hx List.not_mem_nil, hresult.trans hopen.symm⟩
    · obtain ⟨p, q, a, s', rfl, hp, hq⟩ := Res.goes_bind.1 h
      obtain ⟨rfl, rfl, -⟩ := Res.goes_done.1 hq
      rw [List.append_nil]
      exact ⟨onClosed_goes hp, hresult.trans hopen.symm⟩

/-- What `check_send_failure` finds. -/
theorem checkSendFailure_goes (h : (Session.checkSendFailure err w).Goes Surroundings path r w') :
    err ≠ .ERR_OK ∧ r ≠ .ERR_OK ∧ path = [] ∨
      err = .ERR_OK ∧ r ≠ .ERR_OK ∧ ¬ w.IsOpen ∧ Quiet path ∨
      err = .ERR_OK ∧ r = .ERR_OK ∧ w.IsOpen ∧ path = [] ∧ w' = w := by
  rw [Session.checkSendFailure_apply] at h
  split at h
  · rename_i herr
    obtain ⟨rfl, rfl, -⟩ := Res.goes_done.1 h
    exact .inl ⟨herr, herr, rfl⟩
  · rename_i herr
    have hok : err = .ERR_OK := not_not.1 herr
    split at h
    · rename_i hlost
      obtain ⟨p, q, a, s', rfl, hp, hq⟩ := Res.goes_bind.1 h
      obtain ⟨rfl, rfl, -⟩ := Res.goes_done.1 hq
      rw [List.append_nil]
      refine .inr (.inl ⟨hok, by decide, fun hopen => ?_, onClosed_goes hp⟩)
      exact absurd (hlost.symm.trans (isOpen_iff.1 hopen)) Bool.noConfusion
    · rename_i hopen
      obtain ⟨rfl, rfl, rfl⟩ := Res.goes_done.1 h
      exact .inr (.inr ⟨hok, rfl, isOpen_iff.2 (Bool.eq_false_iff.2 hopen), rfl, rfl⟩)

/-- A report of sent bytes to an open session, and what comes of it. -/
theorem lwipSent_goes {len : ℕ} (hprocessing : w.session.processing = false) (hopen : w.IsOpen)
    (h : (Session.lwipSent len w).Goes Surroundings path r w') :
    chunks path = [] ∧ Honest path r w' := by
  rw [Session.lwipSent_apply, if_neg (by rw [hprocessing]; exact Bool.noConfusion)] at h
  split at h
  · obtain ⟨accepted, s', rest, rfl, -, hrest⟩ := Res.goes_call.1 h
    cases accepted with
    | true =>
        obtain ⟨rfl, rfl, rfl⟩ := Res.goes_done.1 hrest
        refine ⟨rfl, ?_⟩
        by_cases hlost : w'.IsOpen
        · refine ⟨fun _ _ => ⟨fun x hx => ?_, hlost⟩, fun hr => absurd rfl hr⟩
          obtain rfl := List.mem_singleton.1 hx
          exact ⟨rfl, hlost⟩
        · exact .of_lost (List.mem_singleton_self _) rfl hlost
    | false =>
        obtain ⟨hquiet, hr⟩ := close_goes hrest
        refine ⟨hquiet.chunks, ?_⟩
        by_cases hlost : s'.IsOpen
        · refine .of_error (fun hok => hr.1 hok hlost) fun x hx hpassed => ?_
          rcases List.mem_cons.1 hx with rfl | hx
          · exact hlost
          · exact hquiet.watched x hx hpassed
        · obtain rfl := hr.2 hlost
          exact .of_lost List.mem_cons_self rfl hlost
  · obtain ⟨rfl, rfl, rfl⟩ := Res.goes_done.1 h
    refine ⟨rfl, fun _ _ => ⟨fun x hx => absurd hx List.not_mem_nil, hopen⟩,
      fun hr => absurd rfl hr⟩

/-- What the loop of `send` comes to: it is left with an error of lwIP, or with `ERR_OK` for a
session that is lost; or all the data has been written to an open session. -/
def Wrote (w : World) (data : List UInt8) (path : List Answered) : Option Err → World → Prop
  | some err, _ => data ≠ [] ∧ (err = .ERR_OK ↔ ¬ Watched path)
  | none, w' => (chunks path).flatten = data ∧ Clean path ∧ w'.session.processing = true ∧
      (data = [] → w' = w) ∧ (data ≠ [] → w.IsOpen ∧ w'.IsOpen)

/-- The pieces are not too long and make up a prefix of the data. -/
def Fits (w : World) (data : List UInt8) (path : List Answered) : Prop :=
  (∀ chunk ∈ chunks path, chunk.length ≤ w.setup.outContentLen) ∧ (chunks path).flatten <+: data

theorem Fits.nil (data : List UInt8) : Fits w data [] :=
  ⟨fun _ hc => absurd hc List.not_mem_nil, List.nil_prefix⟩

theorem Fits.cons {data chunk : List UInt8} {x : Answered} (hx : x.request.chunk = some chunk)
    {n : ℕ} (hn : n ≤ w.setup.outContentLen) (hchunk : chunk = data.take n)
    (h : Fits w (data.drop n) path) : Fits w data (x :: path) := by
  obtain ⟨hlen, hprefix⟩ := h
  have hcons : chunks (x :: path) = chunk :: chunks path := List.filterMap_cons_some hx
  subst hchunk
  rw [Fits, hcons]
  constructor
  · intro chunk hc
    rcases List.mem_cons.1 hc with rfl | hc
    · exact Nat.le_trans (List.length_take_le _ _) hn
    · exact hlen chunk hc
  · rw [List.flatten_cons]
    nth_rewrite 2 [← List.take_append_drop n data]
    exact (List.prefix_append_right_inj _).2 hprefix

/-- Without data nothing is written. -/
theorem Wrote.nil (hprocessing : w.session.processing = true) : Wrote w [] [] none w :=
  ⟨rfl, fun _ hx => absurd hx List.not_mem_nil, hprocessing, fun _ => rfl,
    fun hne => absurd rfl hne⟩

/-- A piece that is written to an open session, and what comes after it. -/
theorem Wrote.cons {data : List UInt8} {x : Answered} {n : ℕ} {r : Option Err} (hdata : data ≠ [])
    (hchunk : x.request.chunk = some (data.take n)) (hok : failed x = false)
    (hopen : x.state.IsOpen) (hopened : w.IsOpen) (h : Wrote x.state (data.drop n) path r w') :
    Wrote w data (x :: path) r w' := by
  cases r with
  | some err =>
      refine ⟨hdata, h.2.trans (not_congr ⟨fun hwatched y hy => ?_, fun hall y hy =>
        hall y (List.mem_cons_of_mem _ hy)⟩)⟩
      rcases List.mem_cons.1 hy with rfl | hy
      · exact fun _ => hopen
      · exact hwatched y hy
  | none =>
      obtain ⟨hflatten, hclean, hprocessing, hnil, hcons⟩ := h
      have hchunks : chunks (x :: path) = data.take n :: chunks path :=
        List.filterMap_cons_some hchunk
      refine ⟨?_, fun y hy => ?_, hprocessing, fun hnil => absurd hnil hdata, fun _ => ?_⟩
      · rw [hchunks, List.flatten_cons, hflatten, List.take_append_drop]
      · rcases List.mem_cons.1 hy with rfl | hy
        · exact ⟨hok, hopen⟩
        · exact hclean y hy
      · refine ⟨hopened, ?_⟩
        rcases eq_or_ne (data.drop n) [] with hlast | hmore
        · rw [hnil hlast]
          exact hopen
        · exact (hcons hmore).2

/-- **The loop of `send`.** -/
theorem writeLoop_goes {turns : ℕ} : ∀ {data : List UInt8} {w w' : World} {path : List Answered}
    {r : Option Err}, data.length ≤ turns → w.session.processing = true →
    (Session.writeLoop turns data w).Goes Surroundings path r w' →
      Fits w data path ∧ Wrote w data path r w' := by
  induction turns with
  | zero =>
      intro data w w' path r hlen hprocessing h
      obtain ⟨rfl, rfl, rfl⟩ := Res.goes_done.1 h
      obtain rfl := List.length_eq_zero_iff.1 (Nat.le_zero.1 hlen)
      exact ⟨.nil [], .nil hprocessing⟩
  | succ turns ih =>
      intro data w w' path r hlen hprocessing h
      rcases eq_or_ne data [] with rfl | hdata
      · obtain ⟨rfl, rfl, rfl⟩ := Res.goes_done.1 h
        exact ⟨.nil [], .nil hprocessing⟩
      · obtain ⟨n, hpos, hn, hloop⟩ := Session.writeLoop_succ w turns hdata
        rw [hloop] at h
        obtain ⟨err, w₁, rest, rfl, hraised, hgoes⟩ := Res.goes_call.1 h
        obtain ⟨hprocessing₁, hsetup, hopened⟩ := Raised.keeps hraised hprocessing
        obtain ⟨p, q, checked, w₂, rfl, hcheck, hrest⟩ := Res.goes_bind.1 hgoes
        rcases checkSendFailure_goes hcheck with
          ⟨herr, hchecked, rfl⟩ | ⟨rfl, hchecked, hlost, hquiet⟩ | ⟨rfl, rfl, hopen, rfl, rfl⟩
        · -- lwIP has answered with an error
          rw [if_pos hchecked] at hrest
          obtain ⟨rfl, rfl, rfl⟩ := Res.goes_done.1 hrest
          refine ⟨Fits.cons rfl hn rfl (.nil _), hdata, fun hok => absurd hok herr, fun hlost => ?_⟩
          refine absurd (fun x hx hpassed => ?_) hlost
          obtain rfl := List.mem_singleton.1 hx
          exact absurd (of_decide_eq_true hpassed) herr
        · -- the session has been lost, and the answer is returned
          rw [if_pos hchecked] at hrest
          obtain ⟨rfl, rfl, rfl⟩ := Res.goes_done.1 hrest
          rw [List.append_nil]
          refine ⟨Fits.cons rfl hn rfl ?_, hdata, fun _ hwatched => ?_, fun _ => rfl⟩
          · rw [Fits, hquiet.chunks]
            exact ⟨fun _ hc => absurd hc List.not_mem_nil, List.nil_prefix⟩
          · exact hlost (hwatched _ List.mem_cons_self rfl)
        · -- the session is open, and the loop goes on
          rw [if_neg (not_not.2 rfl)] at hrest
          have hdrop : (data.drop n).length ≤ turns := by
            have := List.length_pos_iff.2 hdata
            rw [List.length_drop]
            omega
          obtain ⟨hfits, hwrote⟩ := ih hdrop hprocessing₁ hrest
          rw [List.nil_append]
          exact ⟨Fits.cons rfl hn rfl ⟨fun chunk hc => hsetup ▸ hfits.1 chunk hc, hfits.2⟩,
            hwrote.cons hdata rfl rfl hopen (hopened hopen)⟩

/-- `send` ends: what has been put off is reported. -/
theorem finished_goes (hopen : w.IsOpen)
    (h : (if w.session.sentBytes > 0 then
        Session.lwipSent 0 (w.set fun s => { s with processing := false })
      else .done .ERR_OK (w.set fun s => { s with processing := false })).Goes Surroundings path r w') :
    chunks path = [] ∧ Honest path r w' := by
  split at h
  · exact lwipSent_goes (w := w.set fun s => { s with processing := false }) rfl hopen h
  · obtain ⟨rfl, rfl, rfl⟩ := Res.goes_done.1 h
    exact ⟨rfl, fun _ _ => ⟨fun x hx => absurd hx List.not_mem_nil, hopen⟩, fun hr => absurd rfl hr⟩

/-- **The end of `send`**, after its loop: for a session that is not open it returns `ERR_OK`. -/
theorem finishSend_goes (hprocessing : w.session.processing = true)
    (h : (Session.finishSend w).Goes Surroundings path r w') :
    chunks path = [] ∧ (w.IsOpen → Honest path r w') ∧ (¬ w.IsOpen → r = .ERR_OK) := by
  rw [Session.finishSend_apply] at h
  obtain ⟨p, q, err, w₁, rfl, hflush, hgoes⟩ := Res.goes_bind.1 h
  obtain ⟨p', q, checked, w₂, rfl, hcheck, hrest⟩ := Res.goes_bind.1 hgoes
  rw [Session.flush_apply] at hflush
  split at hflush
  · rename_i hlost
    have hshut : ¬ w.IsOpen := fun hopen =>
      absurd (hlost.symm.trans (isOpen_iff.1 hopen)) Bool.noConfusion
    obtain ⟨rfl, rfl, rfl⟩ := Res.goes_done.1 hflush
    rcases checkSendFailure_goes hcheck with
      ⟨herr, -, -⟩ | ⟨-, hchecked, -, hquiet⟩ | ⟨-, -, hopen, -, -⟩
    · exact absurd rfl herr
    · rw [if_pos hchecked] at hrest
      obtain ⟨rfl, rfl, rfl⟩ := Res.goes_done.1 hrest
      refine ⟨?_, fun hopen => absurd hopen hshut, fun _ => rfl⟩
      rw [List.nil_append, List.append_nil]
      exact hquiet.chunks
    · exact absurd hopen hshut
  · obtain ⟨err', w₁', rest, rfl, hraised, hdone⟩ := Res.goes_call.1 hflush
    obtain ⟨rfl, rfl, rfl⟩ := Res.goes_done.1 hdone
    obtain ⟨-, -, hopened⟩ := Raised.keeps hraised hprocessing
    have hwas : ¬ ¬ w.IsOpen := by
      rename_i hopen
      exact not_not.2 (isOpen_iff.2 (Bool.eq_false_iff.2 hopen))
    rcases checkSendFailure_goes hcheck with
      ⟨herr, hchecked, rfl⟩ | ⟨rfl, hchecked, hlost, hquiet⟩ | ⟨rfl, rfl, hopen, rfl, rfl⟩
    · rw [if_pos hchecked] at hrest
      obtain ⟨rfl, rfl, rfl⟩ := Res.goes_done.1 hrest
      refine ⟨rfl, fun _ => .of_error herr fun x hx hpassed => ?_, fun hshut => absurd hshut hwas⟩
      obtain rfl := List.mem_singleton.1 hx
      exact absurd (of_decide_eq_true hpassed) herr
    · rw [if_pos hchecked] at hrest
      obtain ⟨rfl, rfl, rfl⟩ := Res.goes_done.1 hrest
      refine ⟨?_, fun _ => .of_lost List.mem_cons_self rfl hlost, fun hshut => absurd hshut hwas⟩
      rw [List.append_nil]
      exact hquiet.chunks
    · rw [if_neg (not_not.2 rfl)] at hrest
      obtain ⟨hchunks, hhonest⟩ := finished_goes hopen hrest
      refine ⟨hchunks, fun _ => Honest.append (p := [_]) (fun x hx => ?_) hhonest,
        fun hshut => absurd hshut hwas⟩
      obtain rfl := List.mem_singleton.1 hx
      exact ⟨rfl, hopen⟩

/-- **What an invocation of `send` comes to.** -/
theorem send_goes {data : List UInt8} (hpcb : w.session.pcb ≠ none)
    (h : (Session.send (some data) w).Goes Surroundings path r w') :
    Fits w data path ∧
      (StaysOpen w data path → r = .ERR_OK →
        (chunks path).flatten = data ∧ Clean path ∧ w.IsOpen ∧ w'.IsOpen) ∧
      (r ≠ .ERR_OK → StaysOpen w data path) := by
  rw [Session.send_apply, if_neg (by simpa using hpcb)] at h
  obtain ⟨p, q, written, w₁, rfl, hloop, hrest⟩ := Res.goes_bind.1 h
  obtain ⟨hfits, hwrote⟩ := writeLoop_goes (w := w.set fun s => { s with processing := true })
    (Nat.le_refl _) rfl hloop
  cases written with
  | some err =>
      obtain ⟨rfl, rfl, rfl⟩ := Res.goes_done.1 hrest
      obtain ⟨hdata, hwatched⟩ := hwrote
      rw [List.append_nil]
      exact ⟨hfits, fun hstays hok => absurd hstays.2 (hwatched.1 hok),
        fun herr => ⟨fun hnil => absurd hnil hdata, not_not.1 fun hlost => herr (hwatched.2 hlost)⟩⟩
  | none =>
      obtain ⟨hflatten, hclean, hprocessing, hnil, hcons⟩ := hwrote
      obtain ⟨hchunks, hhonest, hlost⟩ := finishSend_goes hprocessing hrest
      have hall : chunks (p ++ q) = chunks p := by rw [chunks_append, hchunks, List.append_nil]
      -- the session is open after the loop if it was open before, and if there is any data
      have hopen : (data = [] → w.IsOpen) → w.IsOpen ∧ w₁.IsOpen := by
        intro hentry
        rcases eq_or_ne data [] with hdata | hdata
        · rw [hnil hdata]
          exact ⟨hentry hdata, hentry hdata⟩
        · exact hcons hdata
      refine ⟨?_, fun hstays hok => ?_, fun herr => ?_⟩
      · rw [Fits, hall]
        exact hfits
      · obtain ⟨hentry, hafter⟩ := hopen hstays.1
        obtain ⟨hclean', hend⟩ := (Honest.append hclean (hhonest hafter)).truth hstays.2 hok
        exact ⟨hall ▸ hflatten, hclean', hentry, hend⟩
      · have hafter : w₁.IsOpen := not_not.1 fun hshut => herr (hlost hshut)
        refine ⟨fun hdata => ?_, (Honest.append hclean (hhonest hafter)).error herr⟩
        rw [hnil hdata] at hafter
        exact hafter

end Sending

/-! ### The property of every invocation -/

/-- **`send` returns `ERR_OK` only when it has sent the data, if and only if the session stays
open**, for every state of a session with a pcb, all data, and whatever its surroundings do. -/
theorem send_succeeds_iff (w : World) (data : List UInt8) (path : List Answered) (r : Err)
    (w' : World) (hpcb : w.session.pcb ≠ none)
    (h : (Session.send (some data) w).Goes Surroundings path r w') :
    SendsTruly w data path r w' ↔ StaysOpen w data path := by
  obtain ⟨hfits, hsound, hrest⟩ := Sending.send_goes hpcb h
  constructor
  · intro htruly
    rcases eq_or_ne r .ERR_OK with hok | herr
    · obtain ⟨hopen, hpath, -⟩ := htruly.opened hok
      exact ⟨fun _ => hopen, fun x hx _ => hpath x hx⟩
    · exact hrest herr
  · intro hstays
    have hclean := hsound hstays
    exact
      { bounded := hfits.1
        ordered := hfits.2
        complete := fun hok => (hclean hok).1
        accepted := fun hok x hx => ((hclean hok).2.1 x hx).1
        opened := fun hok =>
          ⟨(hclean hok).2.2.1, fun x hx => ((hclean hok).2.1 x hx).2, (hclean hok).2.2.2⟩ }

/-- A byte that is written and flushed. -/
theorem send_succeeds_iff_example : ∃ (w₁ w₂ w' : World),
    SendsTruly (.start ⟨16384, true, by decide⟩ (some 1) false true) [7]
      [⟨.altcpWrite (some 1) [7], .ERR_OK, w₁⟩, ⟨.altcpOutput (some 1), .ERR_OK, w₂⟩]
      .ERR_OK w' := by
  refine ⟨_, _, _, (send_succeeds_iff (.start ⟨16384, true, by decide⟩ (some 1) false true) [7]
    [⟨.altcpWrite (some 1) [7], .ERR_OK, _⟩, ⟨.altcpOutput (some 1), .ERR_OK, _⟩] .ERR_OK _
    (by decide) (.call (.refl _) (.call (.refl _) (.done _ _)))).2 ⟨nofun, ?_⟩⟩
  intro x hx _
  rcases List.mem_cons.1 hx with rfl | hx
  · exact ⟨rfl, Option.some_ne_none 1⟩
  · obtain rfl := List.mem_singleton.1 hx
    exact ⟨rfl, Option.some_ne_none 1⟩

/-- **A session that is lost inside `altcp_write` has `send` return `ERR_OK`.** -/
theorem send_hides_loss :
    ¬ ∀ (w : World) (data : List UInt8) (path : List Answered) (r : Err) (w' : World),
      w.session.pcb ≠ none → (Session.send (some data) w).Goes Surroundings path r w' →
      SendsTruly w data path r w' := by
  intro hall
  have hraised : Raised _ _ := .step (w := ((World.start ⟨16384, true, by decide⟩ (some 1) false
    true).set fun s => { s with processing := true }).emit (.call (.altcpWrite (some 1) [7])))
    (e := .lwipErr 1) rfl rfl (.refl _)
  have hgoes : ∃ path w', (Session.send (some [7]) (.start ⟨16384, true, by decide⟩ (some 1) false
      true)).Goes Surroundings path .ERR_OK w' ∧ ∃ x ∈ path, x.state.session.pcb = none := by
    refine ⟨[_, ⟨.onClosed, (), .start ⟨16384, true, by decide⟩ none false true⟩],
      .start ⟨16384, true, by decide⟩ none false true, .call (b := .ERR_OK) hraised ?_, _,
      List.mem_cons_self, rfl⟩
    refine .call trivial ?_
    exact .done _ _
  obtain ⟨path, w', hgoes, x, hx, hlost⟩ := hgoes
  have h := hall _ [7] path .ERR_OK w' (by decide) hgoes
  exact ((h.opened rfl).2.1 x hx).2 hlost

end Tls
