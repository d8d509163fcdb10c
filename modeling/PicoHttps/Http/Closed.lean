/-
**A closed session delivers nothing.**

Once the application has closed an HTTP session it expects no data any more, wherever it has closed
it: `lwip_recv` looks at `m_closing` after every call of `on_recv`.  But `on_recv` itself and the
loop of `decodeData`, which the application may have closed the session out of, look at the answer
of the application only.  So an application that closes the session and answers `true` gets what
is left of the chunk.

Main definitions:

* `Http.SilentOnceClosed` — no data is delivered after a close;
* `Http.LeavesOff` — the application goes on with a session it has closed only where no data is
  left.

Main results:

* `Http.Closed.steady`, `Http.Closed.receives` — every step of a session keeps the invariant;
* `Http.silent_once_closed` — **a closed session delivers nothing**, in every run of such moves;
* `Http.delivered_once_closed` — a run that delivers data after a close.
-/

import PicoHttps.Http.Delivery

set_option relaxedAutoImplicit false
set_option autoImplicit false

namespace Http

open Delivery (View Rests)

/-! ### The property -/

/-- A call that delivers data. -/
def Event.delivers : Event → Bool
  | .call c => c.isData
  | _ => false

/-- **No data is delivered after a close.** -/
def SilentOnceClosed (log : List Event) : Prop :=
  log.Pairwise fun e e' => e = .close → e'.delivers = false

instance (log : List Event) : Decidable (SilentOnceClosed log) :=
  inferInstanceAs (Decidable (log.Pairwise _))

/-! ### The condition -/

/-- The call that delivers data which the application answers with `true`. -/
def Move.accepts : Move → Option Call
  | .answer (.onRequestReceived header data) accepted =>
    if accepted then some (.onRequestReceived header data) else none
  | .answer (.onHttpData data) accepted => if accepted then some (.onHttpData data) else none
  | .answer (.onWebSocketData data) accepted =>
    if accepted then some (.onWebSocketData data) else none
  | .answer .onFinishedPacket accepted => if accepted then some .onFinishedPacket else none
  | _ => none

/-- **The application answers `true` in a session it has closed only where no data is left** to
deliver: no byte after the header, no end of the frame, no payload of another frame. -/
def LeavesOff (w : World) (m : Move) : Prop := .close ∈ w.log → ∀ c ∈ m.accepts, Rests c w

instance (w : World) (m : Move) : Decidable (LeavesOff w m) :=
  inferInstanceAs (Decidable (_ → ∀ c ∈ m.accepts, Rests c w))

/-! ### The invariant -/

namespace Closed

/-- A session that the application has closed is closed, and delivers nothing. -/
structure Inv (v : View) : Prop where
  closing : .close ∈ v.log → v.closing = true
  silent : SilentOnceClosed v.log

/-- The moves, in which the application leaves off. -/
abbrev Ok (pending : List Call) (w : World) (m : Move) : Prop :=
  Proper pending w m ∧ LeavesOff w m

/-- The session has not been closed. -/
abbrev Open (log : List Event) : Prop := .close ∉ log

variable {v : View} {e : Event}

theorem silentOnceClosed_append {log : List Event} (h : SilentOnceClosed log)
    (he : Open log ∨ e.delivers = false) : SilentOnceClosed (log ++ [e]) := by
  refine List.pairwise_append.2 ⟨h, List.pairwise_singleton _ _, ?_⟩
  intro e' he' e'' he'' hclose
  obtain rfl := List.mem_singleton.1 he''
  rcases he with hopen | he
  · exact absurd (hclose ▸ he') hopen
  · exact he

theorem mem_emit (he : e ≠ .close) (h : .close ∈ (v.emit e).log) : .close ∈ v.log := by
  rcases List.mem_append.1 h with h | h
  · exact h
  · exact absurd (List.mem_singleton.1 h).symm he

theorem Inv.emit (h : Inv v) (he : e ≠ .close) (hopen : Open v.log ∨ e.delivers = false) :
    Inv (v.emit e) where
  closing := fun hclose => h.closing (mem_emit he hclose)
  silent := silentOnceClosed_append h.silent hopen

/-- An open session has not been closed by the application. -/
theorem Inv.open (h : Inv v) (hopen : v.closing = false) : Open v.log := by
  intro hclose
  rw [h.closing hclose] at hopen
  cases hopen

theorem Inv.state (h : Inv v) (state : HTTPSessionState) : Inv { v with state := state } :=
  ⟨h.closing, h.silent⟩

theorem steady : Delivery.Steady Ok fun _ => Inv where
  proper := And.left
  closing := fun h => ⟨fun _ => rfl, h.silent⟩
  pass := fun _ => Iff.rfl
  emit := by
    intro e below v he h
    cases e with
    | call c => exact h.emit nofun (.inr (Eq.mp (Bool.not_eq_true' _) he))
    | answered | acceptWebSocket | deleted => exact h.emit nofun (.inr rfl)
    | onRecv | decodeData | close => cases he
  accepted := fun h => Inv.emit (h.state _) nofun (.inr rfl)
  close := fun h hclosing => ⟨fun _ => hclosing, silentOnceClosed_append h.silent (.inr rfl)⟩

/-- The application goes on in an open session, or where it may. -/
theorem open_or_rests {c : Call} {w : World} {m : Move} (hm : LeavesOff w m)
    (hc : m.accepts = some c) : Open (w.emit (.answered c)).log ∨ Rests c w := by
  by_cases hclose : .close ∈ w.log
  · exact .inr (hm hclose c hc)
  · refine .inl fun hmem => ?_
    rcases List.mem_append.1 hmem with hmem | hmem
    · exact hclose hmem
    · cases List.mem_singleton.1 hmem

theorem receives : Delivery.Receives Ok (fun _ => Inv) Open where
  frame := fun _ h hopen => h.emit nofun (.inl hopen)
  framed := fun _ h => h.emit nofun (.inr rfl)
  onWebSocketData := fun _ hok => open_or_rests hok.2 rfl
  onFinishedPacket := fun _ hok => open_or_rests hok.2 rfl
  refused := fun h _ _ => h.emit nofun (.inr rfl)
  request := by
    intro data v m header mem h hopen _ _ _ _ _
    have hrecv : Inv (v.emit (.onRecv data)) := h.emit nofun (.inr rfl)
    exact Inv.emit (hrecv.state _) nofun (.inl (hrecv.open hopen))
  requested := fun h _ _ => Inv.emit h nofun (.inr rfl)
  rest := by
    intro header data w h hok hrest
    have hanswered : Inv ((Delivery.view w).emit (.answered (.onRequestReceived header data))) :=
      h.emit nofun (.inr rfl)
    refine Inv.emit hanswered nofun (.inl ?_)
    -- there is data after the header, so the session has not been closed
    refine (open_or_rests hok.2 rfl).resolve_right fun hle => hrest ?_
    exact List.drop_eq_nil_of_le hle
  received := by
    intro data v h hopen _
    have hrecv : Inv (v.emit (.onRecv data)) := h.emit nofun (.inr rfl)
    exact hrecv.emit nofun (.inl (hrecv.open hopen))
  answered := fun h => h.emit nofun (.inr rfl)
  decode := by
    intro data v h hopen _
    have hrecv : Inv (v.emit (.onRecv data)) := h.emit nofun (.inr rfl)
    have hdecode : Inv ((v.emit (.onRecv data)).emit (.decodeData data)) :=
      hrecv.emit nofun (.inr rfl)
    exact ⟨hdecode, hdecode.open hopen⟩

end Closed

/-! ### The property of every run -/

/-- **A closed session delivers nothing**, in every run in which the application does not go on
where data is left in a session that it has closed. -/
theorem silent_once_closed (crypto : Crypto) (setup : Tls.Setup) (arg : Option ℕ) (tls : Bool)
    (op : WebSocket.WebSocketOperation) (key : Fin 4 → UInt8)
    (buffer : Buffer WebSocket.MAX_WEBSOCKET_HEADER) (moves : List Move) (c : Config)
    (hrun : Reentrant.run Entry.run (fun pending w m => Proper pending w m ∧ LeavesOff w m) moves
      (.start (.start crypto setup arg tls op key buffer)) = some c) :
    SilentOnceClosed c.state.log := by
  have hstart : Closed.Inv ⟨.INIT, false, []⟩ := ⟨fun h => absurd h List.not_mem_nil, .nil⟩
  exact (Closed.steady.run Closed.receives (.start hstart) hrun).inv.silent

/-- A request with a byte after its header; the application closes the session when it gets it. -/
def closeAtRequest (answer : Bool) : List Move :=
  [.enter (.lwipRecv 1 [⟨Text.ascii "GET / HTTP/1.1\r\n\r\nx", 19⟩] .ERR_OK),
    .enter .close,
    .answer (.onRequestReceived ⟨[], 18, 0, some 0, some 4⟩
      (Text.ascii "GET\x00/\x00HTTP/1.1\r\n\r\nx")) answer]

/-- An application that answers `false` when it has closed the session. -/
theorem silent_once_closed_example :
    ∃ c : Config, Reentrant.run Entry.run (fun pending w m => Proper pending w m ∧ LeavesOff w m)
      (closeAtRequest false) (.start listening) = some c ∧ SilentOnceClosed c.state.log := by
  have hrun : (Reentrant.run Entry.run (fun pending w m => Proper pending w m ∧ LeavesOff w m)
      (closeAtRequest false) (.start listening)).isSome := by decide +kernel
  obtain ⟨c, hc⟩ := Option.isSome_iff_exists.1 hrun
  exact ⟨c, hc, silent_once_closed _ _ _ _ _ _ _ _ c hc⟩

/-- **An application that closes the session when it gets the request and answers `true` gets the
data after it.** -/
theorem delivered_once_closed :
    ¬ ∀ (crypto : Crypto) (setup : Tls.Setup) (arg : Option ℕ) (tls : Bool)
      (op : WebSocket.WebSocketOperation) (key : Fin 4 → UInt8)
      (buffer : Buffer WebSocket.MAX_WEBSOCKET_HEADER) (moves : List Move) (c : Config),
      Reentrant.run Entry.run Proper moves
        (.start (.start crypto setup arg tls op key buffer)) = some c →
      SilentOnceClosed c.state.log := by
  intro hall
  have hrun : ((Reentrant.run Entry.run Proper (closeAtRequest true) (.start listening)).any
      fun c => ¬ SilentOnceClosed c.state.log) = true := by decide +kernel
  obtain ⟨c, hc, hloud⟩ := (Option.any_eq_true _ _).1 hrun
  exact of_decide_eq_true hloud (hall _ _ _ _ _ _ _ _ c hc)

end Http
