/-
**Data goes where the request has sent it.**

After a request whose application has accepted a WebSocket, what the peer sends are frames;
otherwise it is data of the request.  `on_recv` looks at `m_state` for every chunk, but the chunk
with the header is different: what follows the header in it is handed to `onHttpData`, whatever the
application has done in `onRequestReceived`.  So a frame that arrives with the header is lost.

Main definitions:

* `Http.received`, `Http.httpData`, `Http.decoded` — the bytes that the session was given, and the
  ones it has handed over as data and as frames;
* `Http.AcceptedInRequest` — a WebSocket has been accepted in `onRequestReceived`;
* `Http.Routed` — every byte after the header goes where it belongs;
* `Http.Routing.Idle`, `Http.Routing.Asking` — the invariant.

Main results:

* `Http.Routing.steady`, `Http.Routing.receives` — every step of a session keeps the invariant;
* `Http.routed_iff` — **the bytes after the header go where they belong exactly when none of them
  comes in one chunk with the header of a request that has become a WebSocket**;
* `Http.frame_lost` — a run that hands a byte of a frame to `onHttpData`.
-/

import PicoHttps.Http.Delivery

set_option relaxedAutoImplicit false
set_option autoImplicit false

namespace Http

open Delivery (View)

/-! ### The property -/

/-- The bytes of an event: what `on_recv` is given. -/
def Event.recvBytes : Event → List UInt8
  | .onRecv data => data
  | _ => []

/-- The bytes of an event: what `onHttpData` is given. -/
def Event.httpBytes : Event → List UInt8
  | .call (.onHttpData data) => data
  | _ => []

/-- The bytes of an event: what `decodeData` is given. -/
def Event.frameBytes : Event → List UInt8
  | .decodeData data => data
  | _ => []

/-- The bytes that the session was given. -/
def received (log : List Event) : List UInt8 := log.flatMap Event.recvBytes

/-- The bytes that were handed over as data. -/
def httpData (log : List Event) : List UInt8 := log.flatMap Event.httpBytes

/-- The bytes that were fed to the decoder of frames. -/
def decoded (log : List Event) : List UInt8 := log.flatMap Event.frameBytes

theorem received_append (log log' : List Event) :
    received (log ++ log') = received log ++ received log' := List.flatMap_append

theorem httpData_append (log log' : List Event) :
    httpData (log ++ log') = httpData log ++ httpData log' := List.flatMap_append

theorem decoded_append (log log' : List Event) :
    decoded (log ++ log') = decoded log ++ decoded log' := List.flatMap_append

/-- A call of `onRequestReceived`. -/
def Event.requests : Event → Bool
  | .call (.onRequestReceived _ _) => true
  | _ => false

/-- `onRequestReceived` has returned. -/
def Event.requested : Event → Bool
  | .answered (.onRequestReceived _ _) => true
  | _ => false

/-- What happens from the call of `onRequestReceived` until it returns. -/
def duringRequest (log : List Event) : List Event :=
  (log.dropWhile fun e => !e.requests).takeWhile fun e => !e.requested

/-- **A WebSocket has been accepted in `onRequestReceived`.** -/
def AcceptedInRequest (log : List Event) : Prop := .acceptWebSocket true ∈ duringRequest log

instance (log : List Event) : Decidable (AcceptedInRequest log) :=
  inferInstanceAs (Decidable (_ ∈ _))

/-- **Every byte after a header of `n` bytes goes where it belongs**: to the decoder of frames, when
a WebSocket has been accepted in `onRequestReceived`, and to `onHttpData`, when `acceptWebSocket`
has not been called. -/
structure Routed (n : ℕ) (log : List Event) : Prop where
  frames : AcceptedInRequest log →
    (∀ data, .call (.onHttpData data) ∉ log) ∧ decoded log = (received log).drop n
  data : (∀ accepted, .acceptWebSocket accepted ∉ log) →
    httpData log = (received log).drop n ∧ ∀ data, .decodeData data ∉ log

/-- The first chunk that `on_recv` was given. -/
def firstChunk (log : List Event) : Option (List UInt8) :=
  log.findSome? fun
    | .onRecv data => some data
    | _ => none

/-- The callbacks of the application return `true`. -/
def Willing : Move → Prop
  | .answer (.onRequestReceived _ _) accepted => accepted = true
  | .answer (.onHttpData _) accepted => accepted = true
  | .answer (.onWebSocketData _) accepted => accepted = true
  | .answer .onFinishedPacket accepted => accepted = true
  | .answer (.onSent _) accepted => accepted = true
  | _ => True

instance : ∀ m, Decidable (Willing m)
  | .answer (.onRequestReceived _ _) _ | .answer (.onHttpData _) _ | .answer (.onWebSocketData _) _
  | .answer .onFinishedPacket _ | .answer (.onSent _) _ => inferInstanceAs (Decidable (_ = true))
  | .answer (.lwip _) _ | .answer .fault _ | .enter _ => inferInstanceAs (Decidable True)

/-! ### The invariant -/

namespace Routing

/-- What happens apart from the request, its answer, and bytes that come or are handed over. -/
structure Calm (e : Event) : Prop where
  recv : ∀ data, e ≠ .onRecv data
  http : ∀ data, e ≠ .call (.onHttpData data)
  decode : ∀ data, e ≠ .decodeData data
  requests : e.requests = false
  requested : e.requested = false

/-- The same, and that no WebSocket is accepted. -/
structure Blank (e : Event) : Prop extends Calm e where
  accept : e ≠ .acceptWebSocket true

/-- A WebSocket has been accepted. -/
abbrev Accepted (log : List Event) : Prop := .acceptWebSocket true ∈ log

/-- What the state tells: whether a WebSocket has been accepted since the request. -/
def Mode (v : View) : Prop :=
  v.state = .HEADER_RECEIVED ∧ ¬ Accepted v.log ∨ v.state = .WEBSOCKET_ESTABLISHED ∧ Accepted v.log

/-- A log that has come to the request `m`, which the chunk `x` begins with, and no further. -/
structure Asked (header : HTTPHeader) (mem x : List UInt8) (m : Message) (log : List Event) :
    Prop where
  read : readMessage x = some m
  split : ∃ pre mid, log = pre ++ .onRecv x :: .call (.onRequestReceived header mem) :: mid ∧
    (∀ e ∈ pre, Blank e) ∧ ∀ e ∈ mid, Calm e

/-- What has happened after the request, for a log up to there. -/
structure Follows (x : List UInt8) (m : Message) (before post : List Event) : Prop where
  data : ¬ Accepted (before ++ post) →
    httpData post = (x ++ received post).drop m.size ∧ ∀ data, .decodeData data ∉ post
  frames : Accepted before → decoded post = received post
  http : Accepted before → ((∀ data, .call (.onHttpData data) ∉ post) ↔ x.length = m.size)

/-- No request waits for its answer: none has come, a WebSocket has been accepted before, or the
request has been answered. -/
inductive Idle (v : View) : Prop
  | blank (hlog : ∀ e ∈ v.log, Blank e) (hstate : v.closing = false → v.state = .INIT)
  | early (hlog : ∀ e ∈ v.log, e.requests = false) (haccepted : Accepted v.log)
      (hstate : v.closing = false → v.state = .WEBSOCKET_ESTABLISHED)
  | routed {header : HTTPHeader} {mem x : List UInt8} {m : Message} {before post : List Event}
      (hasked : Asked header mem x m before)
      (hlog : v.log = before ++ .answered (.onRequestReceived header mem) :: post)
      (hpost : Follows x m before post) (hmode : v.closing = false → Mode v)

/-- A request waits for its answer. -/
def Asking (header : HTTPHeader) (mem : List UInt8) (v : View) : Prop :=
  ∃ x m, Asked header mem x m v.log ∧ header.getHeaderSize = m.size ∧
    mem.drop m.size = x.drop m.size ∧ (v.closing = false → Mode v)

/-- The first chunk does not begin with a request. -/
def Unread (log : List Event) : Prop := ∃ x, firstChunk log = some x ∧ readMessage x = none

/-- The invariant, for the call that waits for an answer to data. -/
def Phase : Option Call → View → Prop
  | some (.onRequestReceived header mem) => Asking header mem
  | _ => Idle

/-- **The invariant.** -/
def Inv (pending : List Call) (v : View) : Prop :=
  Unread v.log ∨ Phase (pending.find? Call.isData) v

/-- The moves, with callbacks that return `true`. -/
abbrev Ok (pending : List Call) (w : World) (m : Move) : Prop := Proper pending w m ∧ Willing m

variable {v v' : View} {e : Event} {header : HTTPHeader} {mem x : List UInt8} {m : Message}
  {before post : List Event}

/-! #### Events that deliver nothing -/

theorem accepted_append (he : e ≠ .acceptWebSocket true) (log : List Event) :
    Accepted (log ++ [e]) ↔ Accepted log := by
  rw [Accepted, List.mem_append, List.mem_singleton]
  exact or_iff_left (Ne.symm he)

theorem Calm.recvBytes (he : Calm e) : e.recvBytes = [] := by
  cases e with
  | onRecv data => exact absurd rfl (he.recv data)
  | _ => rfl

theorem Calm.httpBytes (he : Calm e) : e.httpBytes = [] := by
  cases e with
  | call c =>
      cases c with
      | onHttpData data => exact absurd rfl (he.http data)
      | _ => rfl
  | _ => rfl

theorem Calm.frameBytes (he : Calm e) : e.frameBytes = [] := by
  cases e with
  | decodeData data => exact absurd rfl (he.decode data)
  | _ => rfl

theorem blank_of_neutral (he : Delivery.neutral e = true) : Blank e := by
  cases e with
  | call c =>
      cases c with
      | onSent | lwip | fault => exact ⟨⟨nofun, nofun, nofun, rfl, rfl⟩, nofun⟩
      | onRequestReceived | onHttpData | onWebSocketData | onFinishedPacket => cases he
  | answered c =>
      cases c with
      | onSent | lwip | fault => exact ⟨⟨nofun, nofun, nofun, rfl, rfl⟩, nofun⟩
      | onRequestReceived | onHttpData | onWebSocketData | onFinishedPacket => cases he
  | acceptWebSocket accepted =>
      cases accepted with
      | false => exact ⟨⟨nofun, nofun, nofun, rfl, rfl⟩, nofun⟩
      | true => cases he
  | deleted => exact ⟨⟨nofun, nofun, nofun, rfl, rfl⟩, nofun⟩
  | onRecv | decodeData | close => cases he

theorem Unread.append {log : List Event} (h : Unread log) (more : List Event) :
    Unread (log ++ more) := by
  obtain ⟨x, hx, hread⟩ := h
  exact ⟨x, (List.prefix_append log more).findSome?_eq_some hx, hread⟩

theorem Asked.append (h : Asked header mem x m before) (he : Calm e) :
    Asked header mem x m (before ++ [e]) := by
  obtain ⟨pre, mid, rfl, hpre, hmid⟩ := h.split
  refine ⟨h.read, pre, mid ++ [e], by simp, hpre, ?_⟩
  intro e' he'
  rcases List.mem_append.1 he' with he' | he'
  · exact hmid e' he'
  · rw [List.mem_singleton.1 he']
    exact he

theorem Follows.append (h : Follows x m before post) (he : Calm e) :
    Follows x m before (post ++ [e]) where
  data := by
    intro hnot
    have hnot' : ¬ Accepted (before ++ post) := fun hmem => hnot <| by
      rw [← List.append_assoc]
      exact List.mem_append_left _ hmem
    obtain ⟨hdata, hdecode⟩ := h.data hnot'
    refine ⟨?_, fun data hmem => ?_⟩
    · rw [httpData, List.flatMap_append, List.flatMap_singleton, he.httpBytes, List.append_nil,
        received, List.flatMap_append, List.flatMap_singleton, he.recvBytes, List.append_nil]
      exact hdata
    · rcases List.mem_append.1 hmem with hmem | hmem
      · exact hdecode data hmem
      · exact he.decode data (List.mem_singleton.1 hmem).symm
  frames := by
    intro haccepted
    rw [decoded, List.flatMap_append, List.flatMap_singleton, he.frameBytes, List.append_nil,
      received, List.flatMap_append, List.flatMap_singleton, he.recvBytes, List.append_nil]
    exact h.frames haccepted
  http := by
    intro haccepted
    rw [← h.http haccepted]
    refine forall_congr' fun data => ?_
    rw [List.mem_append, List.mem_singleton, or_iff_left (Ne.symm (he.http data))]

/-- A mode that no event has changed. -/
theorem Mode.emit (h : Mode v) (he : e ≠ .acceptWebSocket true) : Mode (v.emit e) := by
  rw [Mode, View.emit, accepted_append he]
  exact h

theorem Mode.emit_emit {e' : Event} (h : Mode v) (he : e ≠ .acceptWebSocket true)
    (he' : e' ≠ .acceptWebSocket true) : Mode ((v.emit e).emit e') := (h.emit he).emit he'

theorem Idle.emit (h : Idle v) (he : Blank e) : Idle (v.emit e) := by
  cases h with
  | blank hlog hstate =>
      refine .blank (fun e' he' => ?_) hstate
      rcases List.mem_append.1 he' with he' | he'
      · exact hlog e' he'
      · rw [List.mem_singleton.1 he']
        exact he
  | early hlog haccepted hstate =>
      refine .early (fun e' he' => ?_) (List.mem_append_left _ haccepted) hstate
      rcases List.mem_append.1 he' with he' | he'
      · exact hlog e' he'
      · rw [List.mem_singleton.1 he']
        exact he.requests
  | routed hasked hlog hpost hmode =>
      refine .routed hasked ?_ (hpost.append he.toCalm) fun hopen => (hmode hopen).emit he.accept
      rw [View.emit, hlog]
      simp

theorem Asking.emit (h : Asking header mem v) (he : Blank e) : Asking header mem (v.emit e) := by
  obtain ⟨x, m, hasked, hsize, hdrop, hmode⟩ := h
  exact ⟨x, m, hasked.append he.toCalm, hsize, hdrop, fun hopen => (hmode hopen).emit he.accept⟩

/-! #### A WebSocket that is accepted, and a close -/

theorem calm_accept : Calm (.acceptWebSocket true) := ⟨nofun, nofun, nofun, rfl, rfl⟩

theorem Idle.accept (h : Idle v) :
    Idle (View.emit (.acceptWebSocket true) { v with state := .WEBSOCKET_ESTABLISHED }) := by
  have haccepted : Accepted (v.log ++ [.acceptWebSocket true]) :=
    List.mem_append_right _ (List.mem_singleton_self _)
  have hrequests : (∀ e ∈ v.log, e.requests = false) →
      ∀ e ∈ v.log ++ [.acceptWebSocket true], e.requests = false := by
    intro hlog e he
    rcases List.mem_append.1 he with he | he
    · exact hlog e he
    · rw [List.mem_singleton.1 he]
      rfl
  cases h with
  | blank hlog hstate =>
      exact .early (hrequests fun e he => (hlog e he).requests) haccepted fun _ => rfl
  | early hlog _ hstate => exact .early (hrequests hlog) haccepted fun _ => rfl
  | routed hasked hlog hpost hmode =>
      refine .routed hasked ?_ (hpost.append calm_accept) fun _ => .inr ⟨rfl, haccepted⟩
      rw [View.emit, hlog]
      simp

theorem Asking.accept (h : Asking header mem v) : Asking header mem
    (View.emit (.acceptWebSocket true) { v with state := .WEBSOCKET_ESTABLISHED }) := by
  obtain ⟨x, m, hasked, hsize, hdrop, hmode⟩ := h
  refine ⟨x, m, hasked.append calm_accept, hsize, hdrop, fun _ => .inr ⟨rfl, ?_⟩⟩
  exact List.mem_append_right _ (List.mem_singleton_self _)

/-- In a closed session the state tells nothing. -/
theorem Idle.shut (h : Idle v) (state : HTTPSessionState) :
    Idle { v with state := state, closing := true } := by
  cases h with
  | blank hlog hstate => exact .blank hlog nofun
  | early hlog haccepted hstate => exact .early hlog haccepted nofun
  | routed hasked hlog hpost hmode => exact .routed hasked hlog hpost nofun

theorem Asking.shut (h : Asking header mem v) (state : HTTPSessionState) :
    Asking header mem { v with state := state, closing := true } := by
  obtain ⟨x, m, hasked, hsize, hdrop, hmode⟩ := h
  exact ⟨x, m, hasked, hsize, hdrop, nofun⟩

/-! #### The invariant is steady -/

theorem Phase.map {c : Option Call} (hidle : Idle v → Idle v')
    (hasking : ∀ header mem, Asking header mem v → Asking header mem v') (h : Phase c v) :
    Phase c v' := by
  cases c with
  | none => exact hidle h
  | some c =>
      cases c with
      | onRequestReceived header mem => exact hasking header mem h
      | _ => exact hidle h

theorem Inv.emit {pending : List Call} (h : Inv pending v) (he : Blank e) :
    Inv pending (v.emit e) :=
  h.imp (fun hunread => hunread.append _)
    (Phase.map (fun hidle => hidle.emit he) fun _ _ hasking => hasking.emit he)

theorem steady : Delivery.Steady Ok Inv where
  proper := And.left
  closing := fun {_ v} h =>
    h.imp id (Phase.map (fun hidle => hidle.shut v.state) fun _ _ hasking => hasking.shut v.state)
  pass := by
    intro c below v hc
    rw [Inv, Inv, List.find?_cons_of_neg (by rw [hc]; exact Bool.false_ne_true)]
  emit := fun he h => h.emit (blank_of_neutral he)
  accepted := fun h => h.imp (fun hunread => hunread.append _)
    (Phase.map (fun hidle => hidle.accept) fun _ _ hasking => hasking.accept)
  close := by
    intro below v h hclosing
    obtain ⟨state, closing, log⟩ := v
    obtain rfl : closing = true := hclosing
    have hshut : Inv below ⟨.FAIL, true, log⟩ :=
      h.imp id (Phase.map (fun hidle => hidle.shut _) fun _ _ hasking => hasking.shut _)
    exact hshut.emit ⟨⟨nofun, nofun, nofun, rfl, rfl⟩, nofun⟩

/-! #### What `on_recv` does -/

/-- An open session has not failed. -/
theorem Idle.state (h : Idle v) (hopen : v.closing = false) : v.state ≠ .FAIL := by
  intro hfail
  cases h with
  | blank _ hstate => exact absurd (hfail.symm.trans (hstate hopen)) nofun
  | early _ _ hstate => exact absurd (hfail.symm.trans (hstate hopen)) nofun
  | routed _ _ _ hmode =>
      rcases hmode hopen with ⟨hstate, -⟩ | ⟨hstate, -⟩
      · exact absurd (hfail.symm.trans hstate) nofun
      · exact absurd (hfail.symm.trans hstate) nofun

/-- A session in the state `INIT` has been given nothing yet. -/
theorem Idle.init (h : Idle v) (hopen : v.closing = false) (hinit : v.state = .INIT) :
    ∀ e ∈ v.log, Blank e := by
  cases h with
  | blank hlog _ => exact hlog
  | early _ _ hstate => exact absurd (hinit.symm.trans (hstate hopen)) nofun
  | routed _ _ _ hmode =>
      rcases hmode hopen with ⟨hstate, -⟩ | ⟨hstate, -⟩
      · exact absurd (hinit.symm.trans hstate) nofun
      · exact absurd (hinit.symm.trans hstate) nofun

theorem firstChunk_eq_none {log : List Event} (hlog : ∀ e ∈ log, Blank e) :
    firstChunk log = none := by
  refine List.findSome?_eq_none_iff.2 fun e he => ?_
  cases e with
  | onRecv data => exact absurd rfl ((hlog _ he).recv data)
  | _ => rfl

theorem firstChunk_of_blank {log : List Event} (hlog : ∀ e ∈ log, Blank e) (data : List UInt8)
    (post : List Event) : firstChunk (log ++ .onRecv data :: post) = some data := by
  rw [firstChunk, List.findSome?_append, ← firstChunk, firstChunk_eq_none hlog]
  rfl

/-- The first chunk does not begin with a request. -/
theorem Idle.refused (h : Idle v) (hopen : v.closing = false) (hinit : v.state = .INIT)
    {data : List UInt8} (hread : readMessage data = none) :
    Unread (v.emit (.onRecv data)).log :=
  ⟨data, firstChunk_of_blank (h.init hopen hinit) data [], hread⟩

theorem Idle.request (h : Idle v) (hopen : v.closing = false) (hinit : v.state = .INIT)
    {data : List UInt8} (hread : readMessage data = some m)
    (hsize : header.getHeaderSize = m.size) (hdrop : mem.drop m.size = data.drop m.size) :
    Asking header mem (View.emit (.call (.onRequestReceived header mem))
      { v.emit (.onRecv data) with state := .HEADER_RECEIVED }) := by
  have hlog := h.init hopen hinit
  refine ⟨data, m, ⟨hread, v.log, [], ?_, hlog, fun e he => absurd he List.not_mem_nil⟩, hsize,
    hdrop, fun _ => .inl ⟨rfl, fun haccepted => ?_⟩⟩
  · simp [View.emit]
  · simp only [View.emit, Accepted, List.mem_append, List.mem_singleton, reduceCtorEq,
      or_false] at haccepted
    exact (hlog _ haccepted).accept rfl

/-- The request has been answered, and there is no data after the header. -/
theorem Asking.answered (h : Asking header mem v) (hrest : mem.drop header.getHeaderSize = []) :
    Idle (v.emit (.answered (.onRequestReceived header mem))) := by
  obtain ⟨x, m, hasked, hsize, hdrop, hmode⟩ := h
  rw [hsize, hdrop] at hrest
  have hlen : x.length = m.size :=
    Nat.le_antisymm (List.drop_eq_nil_iff.1 hrest) (size_le_of_readMessage hasked.read)
  refine .routed hasked rfl ⟨fun _ => ⟨?_, nofun⟩, fun _ => rfl, fun _ => ?_⟩
    fun hopen => (hmode hopen).emit nofun
  · rw [received, List.flatMap_nil, List.append_nil, hrest]
    rfl
  · exact iff_of_true (fun _ => List.not_mem_nil) hlen

/-- The request has been answered, and the data after the header is handed over. -/
theorem Asking.rest (h : Asking header mem v) (hrest : mem.drop header.getHeaderSize ≠ []) :
    Idle ((v.emit (.answered (.onRequestReceived header mem))).emit
      (.call (.onHttpData (mem.drop header.getHeaderSize)))) := by
  obtain ⟨x, m, hasked, hsize, hdrop, hmode⟩ := h
  rw [hsize, hdrop] at hrest ⊢
  have hlen : x.length ≠ m.size := by
    rintro heq
    rw [← heq, List.drop_length] at hrest
    exact hrest rfl
  have hpost : Follows x m v.log [.call (.onHttpData (x.drop m.size))] := by
    refine ⟨fun _ => ⟨?_, by simp⟩, fun _ => rfl, fun _ => iff_of_false (fun hnot => ?_) hlen⟩
    · simp [httpData, received, Event.httpBytes, Event.recvBytes]
    · exact hnot _ (List.mem_singleton_self _)
  exact .routed hasked (by simp [View.emit]) hpost fun hopen => (hmode hopen).emit_emit nofun nofun

/-- A chunk of data of the request. -/
theorem Idle.recvData (h : Idle v) (hopen : v.closing = false)
    (hstate : v.state = .HEADER_RECEIVED) (data : List UInt8) :
    Idle ((v.emit (.onRecv data)).emit (.call (.onHttpData data))) := by
  cases h with
  | blank _ hinit => exact absurd (hstate.symm.trans (hinit hopen)) nofun
  | early _ _ hearly => exact absurd (hstate.symm.trans (hearly hopen)) nofun
  | routed hasked hlog hpost hmode =>
      rename_i header mem x m before post
      have hnot : ¬ Accepted v.log := by
        rcases hmode hopen with ⟨-, hnot⟩ | ⟨hframes, -⟩
        · exact hnot
        · exact absurd (hstate.symm.trans hframes) nofun
      have hbefore : ¬ Accepted before := fun hmem => hnot <| by
        rw [hlog]
        exact List.mem_append_left _ hmem
      have hpost' : Follows x m before (post ++ [.onRecv data, .call (.onHttpData data)]) := by
        refine ⟨fun _ => ?_, fun hmem => absurd hmem hbefore, fun hmem => absurd hmem hbefore⟩
        have hnot' : ¬ Accepted (before ++ post) := fun hmem => hnot <| by
          rw [hlog]
          simpa using hmem
        obtain ⟨hdata, hdecode⟩ := hpost.data hnot'
        refine ⟨?_, by simpa using hdecode⟩
        have hsize := size_le_of_readMessage hasked.read
        have hle : m.size ≤ (x ++ received post).length := by
          rw [List.length_append]
          omega
        rw [httpData_append, received_append, hdata, ← List.append_assoc,
          List.drop_append_of_le_length hle]
        simp [httpData, received, Event.httpBytes, Event.recvBytes]
      exact .routed hasked (by simp [View.emit, hlog]) hpost' fun _ =>
        (hmode hopen).emit_emit nofun nofun

/-- A chunk of frames. -/
theorem Idle.recvFrames (h : Idle v) (hopen : v.closing = false)
    (hstate : v.state = .WEBSOCKET_ESTABLISHED) (data : List UInt8) :
    Idle ((v.emit (.onRecv data)).emit (.decodeData data)) := by
  cases h with
  | blank _ hinit => exact absurd (hstate.symm.trans (hinit hopen)) nofun
  | early hlog haccepted hearly =>
      refine .early ?_ (List.mem_append_left _ (List.mem_append_left _ haccepted)) hearly
      intro e he
      rcases List.mem_append.1 he with he | he
      · rcases List.mem_append.1 he with he | he
        · exact hlog e he
        · rw [List.mem_singleton.1 he]
          rfl
      · rw [List.mem_singleton.1 he]
        rfl
  | routed hasked hlog hpost hmode =>
      rename_i header mem x m before post
      have haccepted : Accepted v.log := by
        rcases hmode hopen with ⟨hdata, -⟩ | ⟨-, haccepted⟩
        · exact absurd (hstate.symm.trans hdata) nofun
        · exact haccepted
      have hpost' : Follows x m before (post ++ [.onRecv data, .decodeData data]) := by
        refine ⟨fun hnot => absurd ?_ hnot, fun hmem => ?_, fun hmem => ?_⟩
        · rw [hlog] at haccepted
          simp only [Accepted, List.mem_append, List.mem_cons, reduceCtorEq, false_or] at haccepted
          simp only [Accepted, List.mem_append]
          exact haccepted.imp id .inl
        · rw [decoded_append, received_append, hpost.frames hmem]
          simp [decoded, received, Event.frameBytes, Event.recvBytes]
        · rw [← hpost.http hmem]
          simp
      exact .routed hasked (by simp [View.emit, hlog]) hpost' fun _ =>
        (hmode hopen).emit_emit nofun nofun

theorem inv_frame {c : Call} (hc : Delivery.isFrame c = true) : Inv [c] v ↔ Inv [] v := by
  cases c with
  | onWebSocketData | onFinishedPacket => exact Iff.rfl
  | onRequestReceived | onHttpData | onSent | lwip | fault => cases hc

theorem blank_frame {c : Call} (hc : Delivery.isFrame c = true) :
    Blank (.call c) ∧ Blank (.answered c) := by
  cases c with
  | onWebSocketData | onFinishedPacket =>
      exact ⟨⟨⟨nofun, nofun, nofun, rfl, rfl⟩, nofun⟩, ⟨⟨nofun, nofun, nofun, rfl, rfl⟩, nofun⟩⟩
  | onRequestReceived | onHttpData | onSent | lwip | fault => cases hc

theorem receives : Delivery.Receives Ok Inv fun _ => True where
  frame := fun hc h _ => (inv_frame hc).2 (h.emit (blank_frame hc).1)
  framed := fun hc h => ((inv_frame hc).1 h).emit (blank_frame hc).2
  onWebSocketData := fun _ _ => .inl trivial
  onFinishedPacket := fun _ _ => .inl trivial
  refused := by
    intro data v h hopen hstate
    rcases h with hunread | hidle
    · exact .inl (hunread.append _)
    · rcases hstate with hfail | ⟨hinit, hread⟩
      · exact absurd hfail (Idle.state hidle hopen)
      · exact .inl (Idle.refused hidle hopen hinit hread)
  request := by
    intro data v m header mem h hopen hinit hread hsize hdrop _
    refine h.imp (fun hunread => ?_) fun hidle => Idle.request hidle hopen hinit hread hsize hdrop
    exact (hunread.append _).append _
  requested := by
    intro header data accepted w h hok hrest
    -- the application returns `true`
    refine h.imp (fun hunread => hunread.append _) fun hasking => ?_
    have hasking : Asking header data (Delivery.view w) := hasking
    exact hasking.answered (hrest hok.2)
  rest := by
    intro header data w h _ hrest
    refine h.imp (fun hunread => (hunread.append _).append _) fun hasking => ?_
    have hasking : Asking header data (Delivery.view w) := hasking
    exact hasking.rest hrest
  received := by
    intro data v h hopen hstate
    refine h.imp (fun hunread => ?_) fun hidle => Idle.recvData hidle hopen hstate data
    exact (hunread.append _).append _
  answered := by
    intro data v h
    have hidle : Inv [] v := h
    exact hidle.emit ⟨⟨nofun, nofun, nofun, rfl, rfl⟩, nofun⟩
  decode := by
    intro data v h hopen hstate
    refine ⟨h.imp (fun hunread => ?_) fun hidle => Idle.recvFrames hidle hopen hstate data, trivial⟩
    exact (hunread.append _).append _

/-! #### What the invariant says -/

theorem not_acceptedInRequest {log : List Event} (hlog : ∀ e ∈ log, e.requests = false) :
    ¬ AcceptedInRequest log := by
  have hdrop : (log ++ []).dropWhile (fun e : Event => !e.requests) = [] :=
    List.dropWhile_append_of_pos fun e he => by rw [hlog e he]; rfl
  rw [List.append_nil] at hdrop
  rw [AcceptedInRequest, duringRequest, hdrop]
  exact List.not_mem_nil

/-- What happens in `onRequestReceived`. -/
theorem duringRequest_eq {pre mid : List Event} (hpre : ∀ e ∈ pre, Blank e)
    (hmid : ∀ e ∈ mid, Calm e) (post : List Event) :
    duringRequest ((pre ++ .onRecv x :: .call (.onRequestReceived header mem) :: mid) ++
      .answered (.onRequestReceived header mem) :: post) =
        .call (.onRequestReceived header mem) :: mid := by
  have htake : (mid ++ .answered (.onRequestReceived header mem) :: post).takeWhile
      (fun e : Event => !e.requested) = mid ++ [] :=
    List.takeWhile_append_of_pos fun e he => by rw [(hmid e he).requested]; rfl
  rw [List.append_nil] at htake
  rw [duringRequest, List.append_assoc,
    List.dropWhile_append_of_pos fun e he => by rw [(hpre e he).requests]; rfl,
    List.cons_append, List.dropWhile_cons_of_pos rfl, List.cons_append,
    List.dropWhile_cons_of_neg (by simp [Event.requests]), List.takeWhile_cons_of_pos rfl, htake]

theorem acceptedInRequest_iff (h : Asked header mem x m before) (post : List Event) :
    AcceptedInRequest (before ++ .answered (.onRequestReceived header mem) :: post) ↔
      Accepted before := by
  obtain ⟨pre, mid, rfl, hpre, hmid⟩ := h.split
  have hnot : .acceptWebSocket true ∉ pre := fun hmem => (hpre _ hmem).accept rfl
  rw [AcceptedInRequest, duringRequest_eq hpre hmid]
  simp [Accepted, hnot]

/-- The bytes of a log up to the request. -/
theorem Asked.bytes (h : Asked header mem x m before) :
    received before = x ∧ httpData before = [] ∧ decoded before = [] ∧
      (∀ data, .call (.onHttpData data) ∉ before) ∧ ∀ data, .decodeData data ∉ before := by
  obtain ⟨pre, mid, rfl, hpre, hmid⟩ := h.split
  have hcalm : ∀ e ∈ pre ++ mid, Calm e := by
    intro e he
    rcases List.mem_append.1 he with he | he
    · exact (hpre e he).toCalm
    · exact hmid e he
  have hnil : ∀ f : Event → List UInt8, (∀ e, Calm e → f e = []) →
      pre.flatMap f = [] ∧ mid.flatMap f = [] := by
    intro f hf
    refine ⟨List.flatMap_eq_nil_iff.2 fun e he => ?_, List.flatMap_eq_nil_iff.2 fun e he => ?_⟩
    · exact hf e (hpre e he).toCalm
    · exact hf e (hmid e he)
  obtain ⟨hrecv₁, hrecv₂⟩ := hnil _ fun _ => Calm.recvBytes
  obtain ⟨hhttp₁, hhttp₂⟩ := hnil _ fun _ => Calm.httpBytes
  obtain ⟨hframe₁, hframe₂⟩ := hnil _ fun _ => Calm.frameBytes
  refine ⟨?_, ?_, ?_, fun data hmem => ?_, fun data hmem => ?_⟩
  · simp [received, hrecv₁, hrecv₂, Event.recvBytes]
  · simp [httpData, hhttp₁, hhttp₂, Event.httpBytes]
  · simp [decoded, hframe₁, hframe₂, Event.frameBytes]
  · exact (hcalm _ (by simpa using hmem)).http data rfl
  · exact (hcalm _ (by simpa using hmem)).decode data rfl

theorem Idle.routes_iff (h : Idle v) (hfirst : firstChunk v.log = some x)
    (hread : readMessage x = some m) :
    Routed m.size v.log ↔ (AcceptedInRequest v.log → x.length = m.size) := by
  cases h with
  | blank hlog _ =>
      -- nothing has come yet
      have hnone : firstChunk v.log = none := firstChunk_eq_none hlog
      rw [hnone] at hfirst
      cases hfirst
  | early hlog haccepted _ =>
      have hnot := not_acceptedInRequest hlog
      refine iff_of_true ⟨fun hreq => absurd hreq hnot, fun hnever => ?_⟩
        fun hreq => absurd hreq hnot
      exact absurd haccepted (hnever true)
  | routed hasked hlog hpost hmode =>
      rename_i header mem x' m' before post
      obtain ⟨hrecv, hhttp, hdecode, hnohttp, hnodecode⟩ := hasked.bytes
      -- the chunk with the request is the first one
      obtain ⟨rfl, rfl⟩ : x = x' ∧ m = m' := by
        obtain ⟨pre, mid, rfl, hpre, -⟩ := hasked.split
        rw [hlog, List.append_assoc, List.cons_append, firstChunk_of_blank hpre] at hfirst
        obtain rfl := Option.some.inj hfirst
        exact ⟨rfl, Option.some.inj (hread.symm.trans hasked.read)⟩
      have hbytes : received v.log = x ++ received post ∧ httpData v.log = httpData post ∧
          decoded v.log = decoded post := by
        rw [hlog, received_append, httpData_append, decoded_append, hrecv, hhttp, hdecode]
        exact ⟨rfl, rfl, rfl⟩
      have hmem : ∀ e, e.requested = false → e ∉ before → (e ∈ v.log ↔ e ∈ post) := by
        intro e he hnot
        rw [hlog, List.mem_append, or_iff_right hnot, List.mem_cons]
        refine or_iff_right ?_
        rintro rfl
        cases he
      have hin : AcceptedInRequest v.log ↔ Accepted before := by
        rw [hlog]
        exact acceptedInRequest_iff hasked post
      constructor
      · intro hrouted haccepted
        refine (hpost.http (hin.1 haccepted)).1 fun data hdata => ?_
        exact (hrouted.frames haccepted).1 data ((hmem _ rfl (hnohttp data)).2 hdata)
      · intro hlen
        refine ⟨fun haccepted => ⟨fun data hdata => ?_, ?_⟩, fun hnever => ?_⟩
        · refine (hpost.http (hin.1 haccepted)).2 (hlen haccepted) data ?_
          exact (hmem _ rfl (hnohttp data)).1 hdata
        · rw [hbytes.2.2, hbytes.1, hpost.frames (hin.1 haccepted), ← hlen haccepted,
            List.drop_left]
        · have hnot : ¬ Accepted (before ++ post) := by
            intro haccepted
            refine hnever true ?_
            rw [hlog]
            simpa [Accepted] using haccepted
          obtain ⟨hdata, hdecode⟩ := hpost.data hnot
          refine ⟨by rw [hbytes.2.1, hbytes.1, hdata], fun data hmem' => ?_⟩
          exact hdecode data ((hmem _ rfl (hnodecode data)).1 hmem')

end Routing

/-! ### The property of every run -/

/-- **Every byte after the header goes where it belongs**, whenever no callback that is given data
waits, **exactly when no byte follows the header of a request in its chunk**, if a WebSocket has
been accepted in `onRequestReceived`. -/
theorem routed_iff (crypto : Crypto) (setup : Tls.Setup) (arg : Option ℕ) (tls : Bool)
    (op : WebSocket.WebSocketOperation) (key : Fin 4 → UInt8)
    (buffer : Buffer WebSocket.MAX_WEBSOCKET_HEADER) (moves : List Move) (c : Config)
    (x : List UInt8) (m : Message)
    (hrun : Reentrant.run Entry.run (fun pending w m => Proper pending w m ∧ Willing m) moves
      (.start (.start crypto setup arg tls op key buffer)) = some c)
    (hidle : ∀ call ∈ c.pending, call.isData = false) (hfirst : firstChunk c.state.log = some x)
    (hread : readMessage x = some m) :
    Routed m.size c.state.log ↔ (AcceptedInRequest c.state.log → x.length = m.size) := by
  have hstart : Routing.Inv [] ⟨.INIT, false, []⟩ :=
    .inr (.blank (fun e he => absurd he List.not_mem_nil) fun _ => rfl)
  have hgood := Routing.steady.run Routing.receives (.start hstart) hrun
  have hnone : c.pending.find? Call.isData = none :=
    List.find?_eq_none.2 fun call hcall => by rw [hidle call hcall]; exact Bool.false_ne_true
  rcases hgood.inv with ⟨x', hfirst', hunread⟩ | hphase
  · obtain rfl := Option.some.inj (hfirst.symm.trans hfirst')
    rw [hread] at hunread
    cases hunread
  · rw [hnone] at hphase
    exact Routing.Idle.routes_iff (v := Delivery.view c.state) hphase hfirst hread

/-- A request for a WebSocket with the bytes `more` after it. -/
def upgradeChunk (more : List UInt8) : List UInt8 :=
  Text.ascii "GET / HTTP/1.1\r\nSec-WebSocket-Key: k\r\n\r\n" ++ more

/-- The application accepts the WebSocket that is asked for, when it gets the request. -/
def upgrade (more : List UInt8) : List Move :=
  let header : HTTPHeader := ⟨[(16, 35)], 40, 0, some 0, some 4⟩
  let mem := Text.ascii "GET\x00/\x00HTTP/1.1\r\nSec-WebSocket-Key\x00 k\x00\n\r\n" ++ more
  [.enter (.lwipRecv 1 [⟨upgradeChunk more, 40 + more.length⟩] .ERR_OK),
    .enter (.acceptWebSocket header mem),
    .answer (.lwip (.altcpWrite (some 1) (HTTPSession.acceptReply acceptKey))) .ERR_OK,
    .answer (.lwip (.altcpOutput (some 1))) .ERR_OK,
    .answer (.onRequestReceived header mem) true]

/-- The first byte of a frame comes after the request. -/
theorem routed_iff_example :
    ∃ (c : Config) (m : Message), Reentrant.run Entry.run
      (fun pending w m => Proper pending w m ∧ Willing m)
      (upgrade [] ++ [.enter (.lwipRecv 1 [⟨[0x81], 1⟩] .ERR_OK)]) (.start listening) = some c ∧
      readMessage (upgradeChunk []) = some m ∧ AcceptedInRequest c.state.log ∧
      Routed m.size c.state.log := by
  have hrun : ((Reentrant.run Entry.run (fun pending w m => Proper pending w m ∧ Willing m)
      (upgrade [] ++ [.enter (.lwipRecv 1 [⟨[0x81], 1⟩] .ERR_OK)]) (.start listening)).any
        fun c => c.pending = [] ∧ firstChunk c.state.log = some (upgradeChunk []) ∧
          AcceptedInRequest c.state.log) = true := by
    decide +kernel
  obtain ⟨c, hc, hidle⟩ := (Option.any_eq_true _ _).1 hrun
  obtain ⟨hpending, hfirst, haccepted⟩ := of_decide_eq_true hidle
  have hsize : (readMessage (upgradeChunk [])).map Message.size =
      some (upgradeChunk []).length := by decide +kernel
  obtain ⟨m, hread, hm⟩ := Option.map_eq_some_iff.1 hsize
  refine ⟨c, m, hc, hread, haccepted,
    (routed_iff _ _ _ _ _ _ _ _ c (upgradeChunk []) m hc ?_ hfirst hread).2 fun _ => hm.symm⟩
  rw [hpending]
  exact fun call hcall => absurd hcall List.not_mem_nil

/-- **A byte of a frame that comes in one chunk with the request is handed to `onHttpData`**, after
the application has accepted the WebSocket. -/
theorem frame_lost :
    ¬ ∀ (crypto : Crypto) (setup : Tls.Setup) (arg : Option ℕ) (tls : Bool)
      (op : WebSocket.WebSocketOperation) (key : Fin 4 → UInt8)
      (buffer : Buffer WebSocket.MAX_WEBSOCKET_HEADER) (moves : List Move) (c : Config)
      (x : List UInt8) (m : Message),
      Reentrant.run Entry.run (fun pending w m => Proper pending w m ∧ Willing m) moves
        (.start (.start crypto setup arg tls op key buffer)) = some c →
      (∀ call ∈ c.pending, call.isData = false) → firstChunk c.state.log = some x →
      readMessage x = some m → Routed m.size c.state.log := by
  intro hall
  have hrun : ((Reentrant.run Entry.run (fun pending w m => Proper pending w m ∧ Willing m)
      (upgrade [0x81] ++ [.answer (.onHttpData [0x81]) true]) (.start listening)).any
        fun c => c.pending = [] ∧ firstChunk c.state.log = some (upgradeChunk [0x81]) ∧
          AcceptedInRequest c.state.log ∧ .call (.onHttpData [0x81]) ∈ c.state.log) = true := by
    decide +kernel
  obtain ⟨c, hc, hlost⟩ := (Option.any_eq_true _ _).1 hrun
  obtain ⟨hpending, hfirst, haccepted, hmem⟩ := of_decide_eq_true hlost
  obtain ⟨m, hread⟩ := Option.isSome_iff_exists.1
    (show (readMessage (upgradeChunk [0x81])).isSome by decide +kernel)
  have hrouted := hall _ _ _ _ _ _ _ _ c (upgradeChunk [0x81]) m hc (by
    rw [hpending]
    exact fun call hcall => absurd hcall List.not_mem_nil) hfirst hread
  exact (hrouted.frames haccepted).1 _ hmem

end Http
