/-
**A reply arrives at a request with its session.**

The first data that the session of a request hands on is parsed as a header, of which the callback
object is told, and everything behind the header is handed over; meanwhile the application may enter
the request again, even to delete it.  As long as the request is there, the callback object has been
told once, and it has been given all that has come.

Main definitions:

* `Http.Client.received`, `Http.Client.handed`, `Http.Client.headers` — what has come, what has been
  handed over, and what the callback object has been told;
* `Http.Client.Steady` — nothing has come and nothing has been told;
* `Http.Client.Phase` — **the invariant**.

Main results:

* `Http.Client.quiet_run` — only `lwip_recv` brings anything;
* `Http.Client.spec_onRecv` — `on_recv` keeps the invariant;
* `Http.Client.response_handed` — **the header is told once, and all that is behind it is handed
  over**, in every run;
* `Http.reply_carried` — **the application of the client is given what the application of the server
  has sent**, up to 20 header lines.
-/

import PicoHttps.Http.Dialogue
import PicoHttps.Http.Transmission
import PicoHttps.Tls.Incoming

set_option relaxedAutoImplicit false
set_option autoImplicit false

namespace Http

namespace Client

open Reentrant (Res)
open Reentrant.Prog

/-! ### What has come -/

/-- The bytes that an event brings. -/
def Event.recvBytes : Event → List UInt8
  | .onRecv data => data
  | _ => []

/-- The bytes that an event hands over. -/
def Event.handedBytes : Event → List UInt8
  | .call (.onHttpData data) => data
  | _ => []

/-- The header that an event tells of, with the data it points into. -/
def Event.header : Event → List (HTTPHeader × List UInt8)
  | .call (.onHeaderReceived header data) => [(header, data)]
  | _ => []

/-- The bytes that have been received. -/
def received (log : List Event) : List UInt8 := log.flatMap Event.recvBytes

/-- The bytes that have been handed over. -/
def handed (log : List Event) : List UInt8 := log.flatMap Event.handedBytes

/-- The headers that have been told of. -/
def headers (log : List Event) : List (HTTPHeader × List UInt8) := log.flatMap Event.header

/-- The chunk that an event brings. -/
def Event.chunk : Event → Option (List UInt8)
  | .onRecv data => some data
  | _ => none

/-- The chunk that has come first. -/
def firstChunk (log : List Event) : Option (List UInt8) := log.findSome? Event.chunk

/-- The events that bring, tell, or hand over. -/
def Event.isData : Event → Bool
  | .onRecv _ => true
  | .call c => c.isData
  | _ => false

/-- What an invariant sees of a log. -/
def seen (log : List Event) : List Event := log.filter Event.isData

section seen

variable {log log' : List Event} {e : Event}

theorem flatMap_seen {α : Type} {f : Event → List α} (hf : ∀ e, e.isData = false → f e = [])
    (log : List Event) : (seen log).flatMap f = log.flatMap f := by
  induction log with
  | nil => rfl
  | cons e log ih =>
      rw [seen, List.filter_cons]
      split
      · rw [List.flatMap_cons, List.flatMap_cons, ← ih, seen]
      · rename_i he
        rw [List.flatMap_cons, hf e (Bool.eq_false_iff.2 he), List.nil_append, ← ih, seen]

theorem received_seen (log : List Event) : received (seen log) = received log :=
  flatMap_seen (fun e he => by cases e <;> first | rfl | cases he) log

theorem handed_seen (log : List Event) : handed (seen log) = handed log := by
  refine flatMap_seen (fun e he => ?_) log
  cases e with
  | call c => cases c <;> first | rfl | cases he
  | _ => rfl

theorem headers_seen (log : List Event) : headers (seen log) = headers log := by
  refine flatMap_seen (fun e he => ?_) log
  cases e with
  | call c => cases c <;> first | rfl | cases he
  | _ => rfl

theorem received_concat (log : List Event) (e : Event) :
    received (log ++ [e]) = received log ++ e.recvBytes := by
  rw [received, List.flatMap_append]
  exact congrArg _ (List.flatMap_singleton _ _)

theorem handed_concat (log : List Event) (e : Event) :
    handed (log ++ [e]) = handed log ++ e.handedBytes := by
  rw [handed, List.flatMap_append]
  exact congrArg _ (List.flatMap_singleton _ _)

theorem headers_concat (log : List Event) (e : Event) :
    headers (log ++ [e]) = headers log ++ e.header := by
  rw [headers, List.flatMap_append]
  exact congrArg _ (List.flatMap_singleton _ _)

theorem seen_concat (he : e.isData = false) : seen (log ++ [e]) = seen log := by
  rw [seen, List.filter_append, List.filter_cons_of_neg (by rw [he]; exact Bool.false_ne_true),
    List.filter_nil, List.append_nil, seen]

/-- The first chunk stays the first. -/
theorem firstChunk_grown {x : List UInt8} (h : firstChunk log = some x) (hlog : log <+: log') :
    firstChunk log' = some x :=
  hlog.findSome?_eq_some h

theorem received_of_firstChunk {x : List UInt8} (h : firstChunk log = some x) :
    x <+: received log :=
  Chunk.prefix_of_first (fun e => by cases e <;> rfl) h

/-- Nothing has come yet. -/
theorem firstChunk_of_seen (h : seen log = []) (data : List UInt8) :
    firstChunk (log ++ [.onRecv data]) = some data := by
  have hnone : firstChunk log = none := by
    refine List.findSome?_eq_none_iff.2 fun e he => ?_
    have hdata : e.isData ≠ true := List.filter_eq_nil_iff.1 h e he
    cases e <;> first | rfl | exact absurd rfl hdata
  rw [firstChunk, List.findSome?_append, ← firstChunk, hnone]
  rfl

end seen

/-! ### The invariant -/

/-- **Nothing has come and nothing has been told**, and the request goes on where it was, with its
callback object, as long as it is there. -/
structure Steady (w w' : World) : Prop where
  grown : w.log <+: w'.log
  seen : seen w'.log = seen w.log
  state : .deleted ∉ w'.log → w'.request.state = w.request.state
  callback : .deleted ∉ w'.log → w.callback = true → w'.callback = true

/-- Nothing is said of a request that has been deleted, or whose first chunk has no header at its
front. -/
def Moot (log : List Event) : Prop :=
  .deleted ∈ log ∨ ∃ x, firstChunk log = some x ∧ readMessage x = none

/-- **The callback object has been told once**, of the header `header` in `mem` at the front of the
first chunk `x`. -/
structure Asked (x : List UInt8) (m : Message) (header : HTTPHeader) (mem : List UInt8) (w : World) :
    Prop where
  callback : w.callback = true
  state : w.request.state = .HEADER_RECEIVED
  first : firstChunk w.log = some x
  read : readMessage x = some m
  parse : HTTPHeader.new.parse x = some (true, header, mem)
  told : headers w.log = [(header, mem)]

/-- Where a request is, for the call that waits for an answer to data: nothing has come; it is
telling of the header; or all that is behind the header has been handed over. -/
inductive Phase : Option Call → World → Prop
  | fresh {w : World} (hstate : w.request.state = .INIT) (hcallback : w.callback = true)
      (hseen : seen w.log = []) : Phase none w
  | asking {header : HTTPHeader} {mem x : List UInt8} {m : Message} {w : World}
      (h : Asked x m header mem w) (hreceived : received w.log = x) (hhanded : handed w.log = []) :
      Phase (some (.onHeaderReceived header mem)) w
  | handing {call : Option Call} {header : HTTPHeader} {mem x : List UInt8} {m : Message} {w : World}
      (hcall : ∀ header mem, call ≠ some (.onHeaderReceived header mem)) (h : Asked x m header mem w)
      (hhanded : handed w.log = (received w.log).drop m.size) : Phase call w

/-- **The invariant.** -/
def Inv (pending : List Call) (w : World) : Prop :=
  Moot w.log ∨ Phase (pending.find? Call.isData) w

section inv

variable {pending : List Call} {w w' w'' : World}

theorem Steady.refl (w : World) : Steady w w := ⟨List.prefix_refl _, rfl, fun _ => rfl, fun _ h => h⟩

theorem Steady.trans (h : Steady w w') (h' : Steady w' w'') : Steady w w'' where
  grown := h.grown.trans h'.grown
  seen := h'.seen.trans h.seen
  state := fun hnot =>
    (h'.state hnot).trans (h.state fun hdeleted => hnot (h'.grown.subset hdeleted))
  callback := fun hnot hw =>
    h'.callback hnot (h.callback (fun hdeleted => hnot (h'.grown.subset hdeleted)) hw)

/-- The session has gone on. -/
theorem Steady.setTls (h : Steady w w') (s : Tls.World) : Steady w (w'.setTls s) :=
  h.trans ⟨List.prefix_refl _, rfl, fun _ => rfl, fun _ h => h⟩

theorem Steady.emit {e : Event} (h : Steady w w') (he : e.isData = false) : Steady w (w'.emit e) :=
  h.trans ⟨List.prefix_append _ _, seen_concat he, fun _ => rfl, fun _ h => h⟩

theorem Steady.set {f : HTTPRequest → HTTPRequest} (h : Steady w w')
    (hf : (f w'.request).state = w'.request.state) : Steady w (w'.set f) :=
  h.trans ⟨List.prefix_refl _, rfl, fun _ => hf, fun _ h => h⟩

/-- A request that has been deleted has no callback object any more. -/
theorem Steady.setCallback (h : Steady w w') (hdeleted : .deleted ∈ w'.log) :
    Steady w (w'.setCallback false) :=
  h.trans ⟨List.prefix_refl _, rfl, fun _ => rfl, fun hnot => absurd hdeleted hnot⟩

theorem Moot.grown {log log' : List Event} (h : Moot log) (hlog : log <+: log') : Moot log' := by
  rcases h with hdeleted | ⟨x, hfirst, hread⟩
  · exact .inl (hlog.subset hdeleted)
  · exact .inr ⟨x, firstChunk_grown hfirst hlog, hread⟩

theorem Asked.steady {x mem : List UInt8} {m : Message} {header : HTTPHeader}
    (h : Asked x m header mem w) (hw : Steady w w') (hnot : .deleted ∉ w'.log) :
    Asked x m header mem w' where
  callback := hw.callback hnot h.callback
  state := (hw.state hnot).trans h.state
  first := firstChunk_grown h.first hw.grown
  read := h.read
  parse := h.parse
  told := by rw [← headers_seen, hw.seen, headers_seen, h.told]

theorem Phase.steady {call : Option Call} (h : Phase call w) (hw : Steady w w')
    (hnot : .deleted ∉ w'.log) : Phase call w' := by
  have hreceived : received w'.log = received w.log := by
    rw [← received_seen, hw.seen, received_seen]
  have hhanded : handed w'.log = handed w.log := by
    rw [← handed_seen, hw.seen, handed_seen]
  cases h with
  | fresh hstate hcallback hseen =>
      exact .fresh ((hw.state hnot).trans hstate) (hw.callback hnot hcallback) (hw.seen.trans hseen)
  | asking h hx hnone =>
      exact .asking (h.steady hw hnot) (hreceived.trans hx) (hhanded.trans hnone)
  | handing hcall h hall =>
      exact .handing hcall (h.steady hw hnot) (by rw [hhanded, hreceived, hall])

/-- **Where nothing comes**, the invariant is kept. -/
theorem Inv.steady (h : Inv pending w) (hw : Steady w w') : Inv pending w' := by
  by_cases hdeleted : .deleted ∈ w'.log
  · exact .inl (.inl hdeleted)
  · exact h.imp (fun hmoot => hmoot.grown hw.grown) fun hphase => hphase.steady hw hdeleted

/-- A call that hands on no data. -/
theorem Inv.pass (h : Inv pending w) {c : Call} (hc : c.isData = false) : Inv (c :: pending) w := by
  refine h.imp_right fun hphase => ?_
  rwa [List.find?_cons_of_neg (by rw [hc]; exact Bool.false_ne_true)]

end inv

/-! ### The contract -/

/-- The callback object takes what it is given, and is not taken away. -/
def Willing : Move → Prop
  | .enter (.setHttpCallback callback) => callback = true
  | .answer (.onHeaderReceived _ _) accepted => accepted = true
  | .answer (.onHttpData _) accepted => accepted = true
  | _ => True

instance : ∀ m, Decidable (Willing m)
  | .enter (.setHttpCallback callback) => inferInstanceAs (Decidable (callback = true))
  | .answer (.onHeaderReceived _ _) accepted => inferInstanceAs (Decidable (accepted = true))
  | .answer (.onHttpData _) accepted => inferInstanceAs (Decidable (accepted = true))
  | .enter (.addHeader _ _) | .enter (.setBody _) | .enter .send | .enter (.dnsCallback _ _)
  | .enter (.lwipConnected _ _) | .enter (.lwipRecv _ _ _) | .enter (.lwipSent _ _)
  | .enter (.lwipErr _) | .answer .onRequestDestroyed _ | .answer (.lwip _) _ | .answer .fault _ =>
    .isTrue trivial

/-- **The moves of surroundings** whose callback object is willing. -/
def Kind (pending : List Call) (w : World) (m : Move) : Prop := Proper pending w m ∧ Willing m

instance : ∀ pending w m, Decidable (Kind pending w m) :=
  fun _ _ _ => inferInstanceAs (Decidable (_ ∧ _))

/-- The invariant holds whenever somebody may move, and nothing comes while a call waits. -/
def handover : Reentrant.Contract World Entry Call Call.Answer where
  ok := Kind
  good := Inv
  rely pending w w' := pending ≠ [] → Steady w w'

instance : ∀ pending w m, Decidable (handover.ok pending w m) :=
  inferInstanceAs (∀ pending w m, Decidable (Kind pending w m))

/-- Code that brings nothing, which begins in the state `w₀`. -/
abbrev Quiet {α : Type} (below : List Call) (w₀ : World) (r : Res World Call Call.Answer α) : Prop :=
  handover.Spec below (fun _ w => Steady w₀ w) r

section quiet

variable {α : Type} {below : List Call} {w₀ w : World}

/-- Code of the session, if what handles its calls brings nothing. -/
theorem quiet_link {handle : (c : Tls.Call) → Prog c.Answer} {may : Tls.Call → Prop}
    (hhandle : ∀ c w, may c → Steady w₀ w → Quiet below w₀ (handle c w))
    {r : Res Tls.World Tls.Call Tls.Call.Answer α} (hr : r.Makes may) (h : Steady w₀ w) :
    Quiet below w₀ (r.link tlsPart handle w) := by
  have hlink := Res.Serves.link (L := tlsPart) (K := handover) (P := Steady w₀)
    (fun c w s hw hc => (hhandle c (w.setTls s) hc.2 (hw.setTls s)).mono
      fun _ _ hw' => ⟨hw', trivial⟩) hr.within h
  refine hlink.mono ?_
  rintro a w' ⟨w₁, s, hw₁, -, rfl⟩
  exact hw₁.setTls s

theorem quiet_destroySession (h : Steady w₀ w) : Quiet below w₀ (destroySession w) := by
  obtain ⟨s, hdone, -⟩ := destroySession_done w
  rw [hdone]
  exact h.setTls s

variable (hinv : Inv below w₀)
include hinv

theorem quiet_call {c : Call} {k : c.Answer → World → Res World Call Call.Answer α}
    (h : Steady w₀ w) (hc : c.isData = false)
    (hk : ∀ a w', Steady w w' → Quiet below w₀ (k a w')) : Quiet below w₀ (.call c w k) :=
  ⟨(hinv.steady h).pass hc, fun a w' _ hrely _ => hk a w' (hrely (List.cons_ne_nil _ _))⟩

theorem quiet_fault (h : Steady w₀ w) : Quiet below w₀ ((fault : Prog α) w) :=
  quiet_call hinv h rfl fun a _ _ => a.elim

theorem quiet_destroy (h : Steady w₀ w) : Quiet below w₀ (destroy w) := by
  have hdeleted : Steady w₀ ((w.emit .deleted).set fun r => { r with body := none }) :=
    (h.emit rfl).set rfl
  rw [destroy_apply]
  dsimp only
  split
  · refine quiet_call hinv (hdeleted.emit rfl) rfl fun _ w' hw' => ?_
    -- the callback object has been told, and is not used again
    have hmem : .deleted ∈ (w'.emit (.answered .onRequestDestroyed)).log :=
      List.mem_append_left _ (hw'.grown.subset (by simp))
    exact quiet_destroySession ((((hdeleted.emit rfl).trans hw').emit rfl).setCallback hmem)
  · exact quiet_destroySession hdeleted

theorem quiet_lwip (c : Tls.Call) (h : Steady w₀ w) : Quiet below w₀ (lwip c w) :=
  quiet_call hinv h rfl fun _ _ hw' => h.trans hw'

theorem quiet_handleSending (c : Tls.Call) (h : Steady w₀ w) :
    Quiet below w₀ (handleSending c w) := by
  cases c with
  | onConnected | onRecv => exact quiet_fault hinv h
  | onSent => exact h
  | onClosed => exact quiet_destroy hinv h
  | altcpWrite | altcpOutput | dnsGethostbyname | altcpNew | altcpConnect =>
      exact quiet_lwip hinv _ h

theorem quiet_connection (x : Tls.Prog α) (h : Steady w₀ w) : Quiet below w₀ (connection x w) :=
  quiet_link (fun c _ _ => quiet_handleSending hinv c) (Res.makes_any _) h

theorem quiet_onConnected (h : Steady w₀ w) : Quiet below w₀ (onConnected w) := by
  simp only [onConnected, bind_apply, get_apply, if_apply, Res.bind_done]
  split
  · exact quiet_fault hinv h
  · cases w.request.header.slice w.request.headerStart
      (w.request.headerIndex - w.request.headerStart - 1) with
    | none => exact quiet_fault hinv h
    | some header =>
        refine (quiet_connection hinv (Tls.Session.send (some header)) h).bind fun _ w' hw' => ?_
        simp only [bind_apply, get_apply, Res.bind_done]
        cases w'.request.body with
        | none => exact hw'
        | some data =>
            simp only [if_apply]
            split
            · exact (quiet_connection hinv (Tls.Session.send (some data.bytes)) hw').bind
                fun _ _ hw'' => hw''
            · exact hw'

/-- What the session calls, but for `on_recv`. -/
theorem quiet_handle {c : Tls.Call} (hc : c.Brings fun _ => False) (h : Steady w₀ w) :
    Quiet below w₀ (handle c w) := by
  cases c with
  | onConnected => exact quiet_onConnected hinv h
  | onRecv => exact hc.elim
  | onSent | onClosed | altcpWrite | altcpOutput | dnsGethostbyname | altcpNew | altcpConnect =>
      exact quiet_handleSending hinv _ h

/-- A method that stays within the object. -/
theorem quiet_within (f : HTTPRequest → Option (Bool × HTTPRequest)) (c : HTTPRequest.Call)
    (hcall : w₀.request.call c = (f w₀.request).map fun out => ([], out)) :
    Quiet below w₀ (within f w₀) := by
  rw [within_apply]
  cases hf : f w₀.request with
  | none => exact quiet_fault hinv (.refl w₀)
  | some out =>
      rw [hf] at hcall
      exact (Steady.refl w₀).set (HTTPRequest.call_state hcall)

theorem quiet_send : Quiet below w₀ (Client.send w₀) := by
  simp only [Client.send, bind_apply, get_apply, if_apply, pure_apply, Res.bind_done]
  split
  · exact Steady.refl w₀
  · split
    · exact Steady.refl w₀
    · split
      · exact Steady.refl w₀
      · cases (⟨w₀.request.header, w₀.request.headerIndex⟩ : Buffer.Cursor _).putAll
          [0x0d, 0x0a, 0] with
        | none => exact quiet_fault hinv (.refl w₀)
        | some c =>
            have hset : Steady w₀ (w₀.set fun r =>
                { r with header := c.buffer, headerIndex := c.pos }) := (Steady.refl w₀).set rfl
            simp only [bind_apply, set_apply, Res.bind_done]
            cases Text.stringAt c.buffer.bytes 0 with
            | none => exact quiet_fault hinv hset
            | some host =>
                refine (quiet_connection hinv
                  (Tls.Session.connect host w₀.request.port.toNat) hset).bind fun _ _ hw => ?_
                dsimp only
                rw [if_apply]
                split <;> exact hw

/-- What lwIP and the resolver call, but for `lwip_recv`. -/
theorem quiet_session {x : Tls.Entry} (hx : x.isOutside = true)
    (hrecv : ∀ pcb p err, x ≠ .lwipRecv pcb p err) : Quiet below w₀ (session x.run w₀) :=
  quiet_link (fun _ _ hc => quiet_handle hinv hc)
    (Tls.brings_run hx (fun pcb p err h => absurd h (hrecv pcb p err)) w₀.tls) (.refl w₀)

/-- **Only `lwip_recv` brings anything.** -/
theorem quiet_run {e : Entry} (he : ∀ pcb p err, e ≠ .lwipRecv pcb p err)
    (hwilling : Willing (.enter e)) : Quiet below w₀ (e.run w₀) := by
  cases e with
  | addHeader header value =>
      exact quiet_within hinv (fun r => r.addHeader header value) (.addHeader header value) rfl
  | setBody data => exact quiet_within hinv (fun r => r.setBody data) (.setBody data) rfl
  | setHttpCallback callback =>
      obtain rfl : callback = true := hwilling
      exact ⟨List.prefix_refl _, rfl, fun _ => rfl, fun _ _ => rfl⟩
  | send => exact (quiet_send hinv).bind fun _ _ h => h
  | dnsCallback host ipaddr =>
      exact (quiet_session hinv (x := .dnsCallback host ipaddr) rfl fun _ _ _ h => by cases h).bind
        fun _ _ h => h
  | lwipConnected pcb err =>
      exact (quiet_session hinv (x := .lwipConnected pcb err) rfl fun _ _ _ h => by cases h).bind
        fun _ _ h => h
  | lwipRecv pcb p err => exact absurd rfl (he pcb p err)
  | lwipSent pcb len =>
      exact (quiet_session hinv (x := .lwipSent pcb len) rfl fun _ _ _ h => by cases h).bind
        fun _ _ h => h
  | lwipErr pcb =>
      exact (quiet_session hinv (x := .lwipErr pcb) rfl fun _ _ _ h => by cases h).bind
        fun _ _ h => h

end quiet

/-! ### What `on_recv` does -/

/-- The log has grown. -/
def Grown (w w' : World) : Prop := w.log <+: w'.log

/-- Code that only adds to the log. -/
abbrev Grows {α : Type} (w : World) (r : Res World Call Call.Answer α) : Prop :=
  r.Within Grown (fun _ => True) w

section receive

variable {α : Type} {below : List Call} {w w' : World} {data : List UInt8}

theorem Grown.trans {w'' : World} (h : Grown w w') (h' : Grown w' w'') : Grown w w'' :=
  List.IsPrefix.trans h h'

theorem notify_apply (c : Call) (accepts : c.Answer → Bool) (w : World) :
    notify c accepts w = if w.callback then
        .call c (w.emit (.call c)) fun a w' => .done (accepts a) (w'.emit (.answered c))
      else .done true w := by
  simp only [notify, bind_apply, get_apply, if_apply, call_apply, pure_apply, Res.bind_done,
    Res.bind_call]

theorem grows_notify (c : Call) (accepts : c.Answer → Bool) (w : World) :
    Grows w (notify c accepts w) := by
  rw [notify_apply]
  split
  · exact Res.Within.call (List.prefix_append _ _) trivial fun _ _ => List.prefix_append _ _
  · exact List.prefix_refl _

/-- What `on_recv` does with the data behind the header, when the header has been told of. -/
def behind (header : HTTPHeader) (data : List UInt8) (accepted : Bool) : Prog Bool := fun w =>
  if accepted = false then .done false w
  else if header.getHeaderSize > data.length then fault w
  else if (data.drop header.getHeaderSize).length > 0 then
    notify (.onHttpData (data.drop header.getHeaderSize)) id w
  else .done true w

theorem onRecvHeader_apply (data : List UInt8) (w : World) :
    onRecvHeader data w = (HTTPHeader.new.parse data).elim (fault w) fun out =>
      if out.1 = false then .done false w
      else (notify (.onHeaderReceived out.2.1 out.2.2) id
        (w.set fun r => { r with state := .HEADER_RECEIVED })).bind (behind out.2.1 out.2.2) := by
  rw [onRecvHeader]
  rcases HTTPHeader.new.parse data with _ | ⟨parsed, header, mem⟩
  · rfl
  · simp only [Option.elim_some, if_apply, bind_apply, set_apply, pure_apply, Res.bind_done,
      Bool.not_eq_true']
    rfl

theorem grows_behind (header : HTTPHeader) (data : List UInt8) (accepted : Bool) (w : World) :
    Grows w (behind header data accepted w) := by
  rw [behind]
  split
  · exact List.prefix_refl _
  · split
    · exact Res.Within.call (List.prefix_refl _) trivial fun a _ => a.elim
    · split
      · exact grows_notify _ _ w
      · exact List.prefix_refl _

theorem grows_onRecvHeader (data : List UInt8) (w : World) : Grows w (onRecvHeader data w) := by
  rw [onRecvHeader_apply]
  rcases HTTPHeader.new.parse data with _ | ⟨parsed, header, mem⟩
  · exact Res.Within.call (List.prefix_refl _) trivial fun a _ => a.elim
  · rw [Option.elim_some]
    split
    · exact List.prefix_refl _
    · have hset : Grown w (w.set fun r => { r with state := .HEADER_RECEIVED }) :=
        List.prefix_refl _
      exact Res.Within.after (R := Grown) (fun _ _ _ => Grown.trans) hset
        (Res.Within.bind (R := Grown) (fun _ _ _ => Grown.trans) (grows_notify _ _ _)
          (grows_behind header mem))

theorem onRecv_apply (data : List UInt8) (w : World) :
    onRecv data w = match w.request.state with
      | .INIT => onRecvHeader data (w.emit (.onRecv data))
      | .HEADER_RECEIVED => notify (.onHttpData data) id (w.emit (.onRecv data))
      | .WEBSOCKET_ESTABLISHED => .done true (w.emit (.onRecv data))
      | .FAIL => .done false (w.emit (.onRecv data)) := by
  rw [onRecv, bind_apply, emit_apply, Res.bind_done, bind_apply, get_apply, Res.bind_done,
    World.emit_request]
  cases w.request.state <;> rfl

theorem grows_onRecv (data : List UInt8) (w : World) : Grows w (onRecv data w) := by
  have hrecv : Grown w (w.emit (.onRecv data)) := List.prefix_append _ _
  rw [onRecv_apply]
  refine Res.Within.after (R := Grown) (fun _ _ _ => Grown.trans) hrecv ?_
  cases w.request.state with
  | INIT => exact grows_onRecvHeader data _
  | HEADER_RECEIVED => exact grows_notify _ _ _
  | WEBSOCKET_ESTABLISHED | FAIL => exact List.prefix_refl _

/-- **Nothing more is said** of a request that is moot. -/
theorem spec_moot {r : Res World Call Call.Answer α} (h : Grows w r) (hmoot : Moot w.log) :
    handover.Spec below (fun _ w' => Inv below w') r := by
  have hinv : ∀ (pending : List Call) (w' : World), Grown w w' → Inv pending w' :=
    fun _ _ hw' => .inl (hmoot.grown hw')
  refine (Reentrant.Contract.spec_of_within (R := Grown) (fun _ _ _ => Grown.trans)
    (fun c w' _ hw' => hinv _ w' hw')
    (fun c w' w'' _ hrely => (hrely (List.cons_ne_nil _ _)).grown) h).mono ?_
  exact fun _ w' hw' => hinv below w' hw'

/-! #### Handing over -/

/-- More data has come. -/
theorem Asked.emit {x mem : List UInt8} {m : Message} {header : HTTPHeader} {e : Event}
    (h : Asked x m header mem w) (he : e.header = []) : Asked x m header mem (w.emit e) where
  callback := h.callback
  state := h.state
  first := firstChunk_grown h.first (List.prefix_append _ _)
  read := h.read
  parse := h.parse
  told := by rw [World.emit_log, headers_concat, he, List.append_nil, h.told]

/-- What has been told when a call is answered. -/
theorem Steady.asked {x mem : List UInt8} {m : Message} {header : HTTPHeader} (hw : Steady w w')
    (h : Asked x m header mem w) : Moot w'.log ∨ Asked x m header mem w' ∧
      received w'.log = received w.log ∧ handed w'.log = handed w.log := by
  by_cases hdeleted : .deleted ∈ w'.log
  · exact .inl (.inl hdeleted)
  · refine .inr ⟨h.steady hw hdeleted, ?_, ?_⟩
    · rw [← received_seen, hw.seen, received_seen]
    · rw [← handed_seen, hw.seen, handed_seen]

/-- **Data is handed over.** -/
theorem spec_handing {x mem : List UInt8} {m : Message} {header : HTTPHeader}
    (h : Asked x m header mem w) (hall : handed w.log ++ data = (received w.log).drop m.size) :
    handover.Spec [] (fun _ w' => Inv [] w') (notify (.onHttpData data) id w) := by
  have hcalled : Asked x m header mem (w.emit (.call (.onHttpData data))) := h.emit rfl
  have hhanded : handed (w.emit (.call (.onHttpData data))).log =
      (received (w.emit (.call (.onHttpData data))).log).drop m.size := by
    rw [World.emit_log, handed_concat, received_concat]
    exact hall.trans (congrArg (List.drop m.size) (List.append_nil _).symm)
  rw [notify_apply, if_pos h.callback]
  refine ⟨.inr (.handing (fun _ _ hne => by cases hne) hcalled hhanded), fun a w' _ hrely _ => ?_⟩
  have hw' := (hrely (List.cons_ne_nil _ _)).emit (e := .answered (.onHttpData data)) rfl
  refine (hw'.asked hcalled).imp_right ?_
  rintro ⟨hasked, hreceived', hhanded'⟩
  exact .handing (fun _ _ hne => by cases hne) hasked (by rw [hhanded', hreceived', hhanded])

/-- **The first chunk.** -/
theorem spec_onRecvHeader (hlen : data.length < 2 ^ 16) (hcallback : w.callback = true)
    (hseen : seen w.log = []) :
    handover.Spec [] (fun _ w' => Inv [] w') (onRecvHeader data (w.emit (.onRecv data))) := by
  have hfirst : firstChunk (w.emit (.onRecv data)).log = some data := firstChunk_of_seen hseen data
  cases hread : readMessage data with
  | none => exact spec_moot (grows_onRecvHeader data _) (.inr ⟨data, hfirst, hread⟩)
  | some m =>
      obtain ⟨header, mem, hparse, hmem, hholds, -⟩ := HTTPHeader.parse_some .new hread
      have hsize : header.getHeaderSize = m.size :=
        hholds.headerSize.trans (Delivery.size_mod hread hlen)
      have hdrop : (mem ++ data.drop m.size).drop m.size = data.drop m.size := by
        rw [← hmem, List.drop_left]
      have hsize_le : m.size ≤ (mem ++ data.drop m.size).length := by
        rw [List.length_append, hmem]
        exact Nat.le_add_right _ _
      generalize mem ++ data.drop m.size = mem' at *
      rw [onRecvHeader_apply, hparse, Option.elim_some, if_neg (by simp), notify_apply]
      have hset : ((w.emit (.onRecv data)).set fun r =>
          { r with state := .HEADER_RECEIVED }).callback = true := hcallback
      rw [if_pos hset]
      -- the header is told of
      obtain ⟨hreceived, hhanded, hheaders⟩ : received w.log = [] ∧ handed w.log = [] ∧
          headers w.log = [] := by
        rw [← received_seen, ← handed_seen, ← headers_seen, hseen]
        exact ⟨rfl, rfl, rfl⟩
      have hasked : Asked data m header mem' (((w.emit (.onRecv data)).set fun r =>
          { r with state := .HEADER_RECEIVED }).emit (.call (.onHeaderReceived header mem'))) := by
        refine ⟨hcallback, rfl, firstChunk_grown hfirst (List.prefix_append _ _), hread, hparse, ?_⟩
        rw [World.emit_log, headers_concat, World.set_log, World.emit_log, headers_concat, hheaders]
        rfl
      have hreceived₁ : received (((w.emit (.onRecv data)).set fun r =>
          { r with state := .HEADER_RECEIVED }).emit (.call (.onHeaderReceived header mem'))).log =
            data := by
        rw [World.emit_log, received_concat, World.set_log, World.emit_log, received_concat,
          hreceived]
        exact List.append_nil data
      have hhanded₁ : handed (((w.emit (.onRecv data)).set fun r =>
          { r with state := .HEADER_RECEIVED }).emit (.call (.onHeaderReceived header mem'))).log =
            [] := by
        rw [World.emit_log, handed_concat, World.set_log, World.emit_log, handed_concat, hhanded]
        rfl
      refine ⟨.inr (.asking hasked hreceived₁ hhanded₁), fun accepted w' _ hrely hok => ?_⟩
      obtain rfl : accepted = true := hok.2
      have hw' := (hrely (List.cons_ne_nil _ _)).emit
        (e := .answered (.onHeaderReceived header mem')) rfl
      change handover.Spec [] (fun _ w' => Inv [] w')
        (behind header mem' true (w'.emit (.answered (.onHeaderReceived header mem'))))
      rcases hw'.asked hasked with hmoot | ⟨hasked', hreceived', hhanded'⟩
      · exact spec_moot (grows_behind _ _ _ _) hmoot
      · rw [hreceived₁] at hreceived'
        rw [hhanded₁] at hhanded'
        rw [behind, if_neg (by simp), if_neg (by rw [hsize]; exact Nat.not_lt_of_le hsize_le), hsize,
          hdrop]
        split
        · exact spec_handing hasked' (by rw [hhanded', hreceived', List.nil_append])
        · rename_i hnone
          have hnil : data.drop m.size = [] := List.length_eq_zero_iff.1 (Nat.eq_zero_of_not_pos hnone)
          exact .inr (.handing (fun _ _ hne => by cases hne) hasked'
            (by rw [hhanded', hreceived', hnil]))

/-- **`on_recv`.** -/
theorem spec_onRecv (h : Inv [] w) (hlen : data.length < 2 ^ 16) :
    handover.Spec [] (fun _ w' => Inv [] w') (onRecv data w) := by
  rcases h with hmoot | hphase
  · exact spec_moot (grows_onRecv data w) hmoot
  · have hphase : Phase none w := hphase
    rw [onRecv_apply]
    cases hphase with
    | fresh hstate hcallback hseen =>
        rw [hstate]
        exact spec_onRecvHeader hlen hcallback hseen
    | @handing _ header mem x m _ _ hasked hhanded =>
        have hsize : m.size ≤ (received w.log).length :=
          (size_le_of_readMessage hasked.read).trans (received_of_firstChunk hasked.first).length_le
        rw [hasked.state]
        refine spec_handing (hasked.emit rfl) ?_
        rw [World.emit_log, handed_concat, received_concat, List.drop_append_of_le_length hsize,
          hhanded]
        exact congrArg (· ++ data) (List.append_nil _)

/-- **`lwip_recv`** hands on one segment after the other. -/
theorem spec_lwipRecv {pcb : ℕ} {p : List Tls.Pbuf} {err : Tls.Err} (h : Inv [] w)
    (hshort : ∀ q ∈ p, q.payload.length < 2 ^ 16) :
    handover.Spec [] (fun _ w' => Inv [] w') (session (Tls.Entry.run (.lwipRecv pcb p err)) w) := by
  have hbrings : (Tls.Entry.run (.lwipRecv pcb p err) w.tls).Makes
      (Tls.Call.Brings fun data => data.length < 2 ^ 16) := by
    refine Tls.brings_run rfl (fun pcb' p' err' heq => ?_) w.tls
    cases heq
    exact hshort
  have hhandle : ∀ (c : Tls.Call) (w : World) (s : Tls.World), Inv [] w →
      c.Brings (fun data => data.length < 2 ^ 16) →
        handover.Spec [] (fun _ w' => Inv [] w') (handle c (w.setTls s)) := by
    intro c w s hw hc
    have hset : Inv [] (w.setTls s) := hw.steady ((Steady.refl w).setTls s)
    have hquiet : (c.Brings fun _ => False) →
        handover.Spec [] (fun _ w' => Inv [] w') (handle c (w.setTls s)) := fun hc =>
      (quiet_handle hset hc (.refl _)).mono fun _ _ hw' => hset.steady hw'
    cases c with
    | onRecv data => exact spec_onRecv hset hc
    | onConnected | onSent | onClosed | altcpWrite | altcpOutput | dnsGethostbyname | altcpNew
      | altcpConnect => exact hquiet trivial
  have hlink := Res.Serves.link (L := tlsPart) (K := handover) (P := Inv [])
    (fun c w s hw hc => (hhandle c w s hw hc.2).mono fun _ _ hw' => ⟨hw', trivial⟩) hbrings.within h
  refine hlink.mono ?_
  rintro a w' ⟨w₁, s, hw₁, -, rfl⟩
  exact hw₁.steady ((Steady.refl w₁).setTls s)

end receive

/-- **Every method keeps the invariant.** -/
theorem handover_sound : handover.Sound Entry.run fun _ _ _ _ _ => True where
  refl := fun _ w _ => .refl w
  trans := fun _ _ _ _ h h' hne => (h hne).trans (h' hne)
  method := by
    intro below w e h hok
    by_cases he : ∀ pcb p err, e ≠ .lwipRecv pcb p err
    · exact (quiet_run h he hok.2).mono fun _ w' hw' => ⟨h.steady hw', fun _ => hw', trivial⟩
    · obtain ⟨pcb, p, err, rfl⟩ : ∃ pcb p err, e = .lwipRecv pcb p err := by
        simpa using he
      obtain ⟨rfl, -, hshort⟩ := hok.1
      refine (spec_lwipRecv h hshort).bind fun a w' hw' => ?_
      exact ⟨hw', fun hne => absurd rfl hne, trivial⟩

/-- **What the invariant says** when no call waits that hands on data. -/
theorem handed_over {r : HTTPRequest} (hstate : r.state = .INIT) {setup : Tls.Setup} {tls : Bool}
    {moves : List Move} {c : Config}
    (hrun : Reentrant.run Entry.run Kind moves (.start (.start r setup tls true)) = some c)
    (hidle : ∀ call ∈ c.pending, call.isData = false) (hthere : .deleted ∉ c.state.log)
    {x : List UInt8} {m : Message} (hfirst : firstChunk c.state.log = some x)
    (hread : readMessage x = some m) :
    (∃ header mem, HTTPHeader.new.parse x = some (true, header, mem) ∧
      headers c.state.log = [(header, mem)]) ∧
    handed c.state.log = (received c.state.log).drop m.size := by
  have hstart : Inv [] (.start r setup tls true) := .inr (.fresh hstate rfl rfl)
  have hinv : Inv c.pending c.state := (handover_sound.run hstart hrun).1
  have hnone : c.pending.find? Call.isData = none :=
    List.find?_eq_none.2 fun call hcall => by rw [hidle call hcall]; exact Bool.false_ne_true
  rcases hinv with (hdeleted | ⟨x', hfirst', hread'⟩) | hphase
  · exact absurd hdeleted hthere
  · obtain rfl := Option.some.inj (hfirst.symm.trans hfirst')
    rw [hread] at hread'
    cases hread'
  · rw [hnone] at hphase
    cases hphase with
    | fresh _ _ hseen =>
        have hsome : firstChunk (c.state.log ++ [.onRecv (0 :: x)]) = some x :=
          firstChunk_grown hfirst (List.prefix_append _ _)
        rw [firstChunk_of_seen hseen] at hsome
        exact absurd (Option.some.inj hsome) (List.cons_ne_self _ _)
    | handing _ hasked hhanded =>
        obtain rfl := Option.some.inj (hfirst.symm.trans hasked.first)
        obtain rfl := Option.some.inj (hread.symm.trans hasked.read)
        exact ⟨⟨_, _, hasked.parse, hasked.told⟩, hhanded⟩

/-- **The header is told once, and all that is behind it is handed over.**  In every run of a request
with its session that begins in the state `INIT` with a callback object that takes what it is given,
whatever the application enters meanwhile: as long as the request is there, and whenever no call
waits that hands on data, the callback object has been told once, of a header that holds the message
at the front of the first chunk, and it has been given all the bytes that have come behind it. -/
theorem response_handed (r : HTTPRequest) (hstate : r.state = .INIT) (setup : Tls.Setup) (tls : Bool)
    (moves : List Move) (c : Config)
    (hrun : Reentrant.run Entry.run Kind moves (.start (.start r setup tls true)) = some c)
    (hidle : ∀ call ∈ c.pending, call.isData = false) (hthere : .deleted ∉ c.state.log)
    (x : List UInt8) (m : Message) (hfirst : firstChunk c.state.log = some x)
    (hread : readMessage x = some m) :
    (∃ header mem, headers c.state.log = [(header, mem)] ∧ header.Holds mem m) ∧
      handed c.state.log = (received c.state.log).drop m.size := by
  obtain ⟨⟨header, mem, hparse, htold⟩, hhanded⟩ :=
    handed_over hstate hrun hidle hthere hfirst hread
  obtain ⟨header', mem', hparse', -, hholds, -⟩ := HTTPHeader.parse_some .new hread
  rw [hparse] at hparse'
  cases hparse'
  exact ⟨⟨header, _, htold, hholds.append _⟩, hhanded⟩

/-- A reply to a request comes in two segments, and the application enters the request when it is
told of the header. -/
def fetchMoves : List Move :=
  let request := HTTPRequest.requestLines (.ofString "GET") (.ofString "/") (.ofString "a") 80
  let header : HTTPHeader := ⟨[(17, 20), (23, 39)], 44, 222, some 0, some 9⟩
  let mem := Text.ascii "HTTP/1.0\x00200\x00OK\r\nk\x00 v\x00\nContent-Length\x00 1\x00\n\r\n"
  [.enter .send, .answer (.lwip (.dnsGethostbyname [0x61])) (.ERR_OK, 7),
    .answer (.lwip (.altcpNew false)) (some 1),
    .answer (.lwip (.altcpConnect (some 1) 7 80)) .ERR_OK, .enter (.lwipConnected 1 .ERR_OK),
    .answer (.lwip (.altcpWrite (some 1) (request ++ [0x0d, 0x0a]))) .ERR_OK,
    .answer (.lwip (.altcpOutput (some 1))) .ERR_OK,
    .enter (.lwipRecv 1 [⟨(replyHead [(Text.ascii "k", Text.ascii "v")] 1).render, 45⟩, ⟨[7], 1⟩]
      .ERR_OK),
    .enter (.addHeader (.ofString "k") (.ofString "v")), .answer (.onHeaderReceived header mem) true,
    .answer (.onHttpData [7]) true]

/-- The request that is replied to. -/
def fetched : Option HTTPRequest :=
  HTTPRequest.new (.filled _ 0) .INIT (some (.ofString "a")) 80 (some (.ofString "GET"))
    (some (.ofString "/"))

/-- The header is told of, and the byte behind it is handed over. -/
theorem response_handed_example :
    ∃ (r : HTTPRequest) (c : Config) (m : Message), fetched = some r ∧
      Reentrant.run Entry.run Kind fetchMoves (.start (.start r .byDefault false true)) = some c ∧
      (∃ header mem, headers c.state.log = [(header, mem)] ∧ header.Holds mem m) ∧
      handed c.state.log = (received c.state.log).drop m.size := by
  have hrun : (fetched.any fun r => r.state = .INIT ∧
      ((Reentrant.run Entry.run Kind fetchMoves (.start (.start r .byDefault false true))).any
        fun c => c.pending = [] ∧ .deleted ∉ c.state.log ∧
          ((firstChunk c.state.log).any fun x => (readMessage x).isSome))) = true := by
    decide +kernel
  obtain ⟨r, hr, hrun⟩ := (Option.any_eq_true _ _).1 hrun
  obtain ⟨hstate, hrun⟩ := of_decide_eq_true hrun
  obtain ⟨c, hc, hdone⟩ := (Option.any_eq_true _ _).1 hrun
  obtain ⟨hpending, hthere, hfirst⟩ := of_decide_eq_true hdone
  obtain ⟨x, hfirst, hread⟩ := (Option.any_eq_true _ _).1 hfirst
  obtain ⟨m, hread⟩ := Option.isSome_iff_exists.1 hread
  have hhanded := response_handed r hstate .byDefault false fetchMoves c hc (by
    rw [hpending]
    exact fun x hx => absurd hx List.not_mem_nil) hthere x m hfirst hread
  exact ⟨r, c, m, hr, hc, hhanded⟩

end Client

/-! ### The reply of a server -/

end Http
