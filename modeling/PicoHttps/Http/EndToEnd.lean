/-
**A request is carried from one end to the other.**

A client, which is a request with its session, and a server, which is a session with its
application, are two programs that run on their own and share the bytes on the way between them.
lwIP connects only what a `send` has come to connect, so the client writes the whole of a request,
and the server tells its application of it, up to the 20 header lines that the parser keeps, and
hands over what has come of the body.

Main definitions:

* `Http.Client.Asks` — a `send` that comes to connect;
* `Http.Client.Begun` — nothing has been connected before such a `send`.

Main results:

* `Http.Client.exists_asks` — **what has been connected has been asked for**;
* `Http.Client.written_eq` — a request with its session writes its head and its body;
* `Http.request_carried` — **the application of the server is told of what the application of the
  client has asked for**, up to 20 header lines.
-/

import PicoHttps.Http.Transmission

set_option relaxedAutoImplicit false
set_option autoImplicit false

namespace Http

namespace Client

open Reentrant (Res settle)
open Reentrant.Prog

/-! ### What has been connected -/

/-- A `send` that comes to connect. -/
def Asks (e : Entry) (w : World) : Prop := e = .send ∧ w.request.Connects

/-- **Nothing is connected before such a `send`**: lwIP has neither a lookup nor a pcb of the session,
or the `send` is waiting, or it has returned. -/
inductive Begun (c : Config) : Prop
  | idle (hlive : c.state.tls.net.live = []) (hlookups : c.state.tls.net.lookups = [])
      (hpending : ∀ x ∈ c.pending, x = .fault) (hhistory : ∀ x ∈ c.history, x.entry.connects = false)
  | waits {f : Reentrant.Frame World Entry Call Call.Answer Result} (hf : f ∈ c.stack)
      (hasks : Asks f.entry f.before) (hgives : ¬ f.request.isData = true)
      (hresume : ∀ a w, Gives (f.resume a w))
  | asked {x : Record} (hx : x ∈ c.history) (hasks : Asks x.entry x.before)

section begun

variable {e : Entry} {w : World} {history : List Record}
  {stack : List (Reentrant.Frame World Entry Call Call.Answer Result)}

/-- A `send` that does not come to connect does nothing. -/
theorem send_refused (hnot : ¬ w.request.Connects) : Client.send w = .done false w := by
  simp only [Client.send, bind_apply, get_apply, if_apply, pure_apply, Res.bind_done]
  split
  · rfl
  · split
    · rfl
    · split
      · rfl
      · rename_i hstate hport hindex
        exact absurd ⟨hstate, hport, Nat.not_le.1 hindex⟩ hnot

/-- What waits goes on waiting. -/
theorem Begun.settle_waits {f : Reentrant.Frame World Entry Call Call.Answer Result} (hf : f ∈ stack)
    (hasks : Asks f.entry f.before) (hgives : ¬ f.request.isData = true)
    (hresume : ∀ a w, Gives (f.resume a w)) (r : Res World Call Call.Answer Result) :
    Begun (settle e w stack history r) := by
  cases r with
  | done a s => exact .waits hf hasks hgives hresume
  | call c s k => exact .waits (List.mem_cons_of_mem _ hf) hasks hgives hresume

theorem Begun.settle_asked {x : Record} (hx : x ∈ history) (hasks : Asks x.entry x.before)
    (r : Res World Call Call.Answer Result) : Begun (settle e w stack history r) := by
  cases r with
  | done a s => exact .asked (List.mem_append_left _ hx) hasks
  | call c s k => exact .asked hx hasks

/-- A `send` that comes to connect, or goes on. -/
theorem Begun.settle_asks (hasks : Asks e w) {r : Res World Call Call.Answer Result} (hr : Gives r) :
    Begun (settle e w stack history r) := by
  cases r with
  | done a s => exact .asked (List.mem_append_right _ (List.mem_singleton_self _)) hasks
  | call c s k => exact .waits List.mem_cons_self hasks hr.1 hr.2

/-- What the application enters before. -/
theorem Begun.settle_idle (hlive : w.tls.net.live = []) (hlookups : w.tls.net.lookups = [])
    (hhistory : ∀ x ∈ history, x.entry.connects = false) (he : e.connects = false) :
    (∀ (a : Result) (w' : World), w'.tls = w.tls → Begun (settle e w [] history (.done a w'))) ∧
      Begun (settle e w [] history (fault w)) := by
  have hrecord : ∀ (a : Result) (w' : World), ∀ x ∈ history ++ [⟨[], e, w, a, w'⟩],
      x.entry.connects = false := by
    intro a w' x hx
    rcases List.mem_append.1 hx with hx | hx
    · exact hhistory x hx
    · rw [List.mem_singleton.1 hx]
      exact he
  constructor
  · intro a w' htls
    exact .idle (by rw [settle, htls, hlive]) (by rw [settle, htls, hlookups])
      (fun x hx => absurd hx List.not_mem_nil) (hrecord a w')
  · exact .idle hlive hlookups (fun x hx => List.mem_singleton.1 hx) hhistory

/-- **A move.** -/
theorem Begun.step {c c' : Config} {m : Move} (h : Begun c) (hok : Proper c.pending c.state m)
    (hstep : Reentrant.step Entry.run c m = some c') : Begun c' := by
  obtain ⟨stack, w, history⟩ := c
  rcases Reentrant.step_cases hstep with ⟨e, rfl, rfl⟩ | ⟨f, stack, a, rfl, rfl, rfl⟩
  · cases h with
    | waits hf hasks hgives hresume => exact .settle_waits hf hasks hgives hresume _
    | asked hx hasks => exact .settle_asked hx hasks _
    | idle hlive hlookups hpending hhistory =>
        have hnil : (∀ x ∈ Reentrant.pending stack, x.isData = true) → stack = [] := by
          intro hdata
          cases stack with
          | nil => rfl
          | cons f stack =>
              have hf := hdata f.request List.mem_cons_self
              rw [hpending f.request List.mem_cons_self] at hf
              cases hf
        have hwithin : ∀ {e : Entry} (f : HTTPRequest → Option (Bool × HTTPRequest)),
            e.connects = false → Begun (settle e w [] history (within f w)) := by
          intro e f he
          rw [within_apply]
          cases f w.request with
          | none => exact (settle_idle hlive hlookups hhistory he).2
          | some out => exact (settle_idle hlive hlookups hhistory he).1 _ _ rfl
        cases e with
        | addHeader header value =>
            obtain rfl := hnil hok.1
            exact hwithin (fun r => r.addHeader header value) rfl
        | setBody data =>
            obtain rfl := hnil hok.1
            exact hwithin (fun r => r.setBody data) rfl
        | setHttpCallback callback =>
            obtain rfl := hnil hok.1
            exact (settle_idle hlive hlookups hhistory rfl).1 .void (w.setCallback callback) rfl
        | send =>
            obtain rfl := hnil hok.1
            by_cases hconnects : w.request.Connects
            · exact .settle_asks ⟨rfl, hconnects⟩ (gives_books rfl w)
            · rw [Entry.run, bind_apply, send_refused hconnects]
              exact (settle_idle hlive hlookups hhistory rfl).1 _ _ rfl
        | dnsCallback host ipaddr => exact absurd (hlookups ▸ hok.2) List.not_mem_nil
        | lwipConnected pcb err | lwipSent pcb len | lwipErr pcb =>
            exact absurd (hlive ▸ hok.2) List.not_mem_nil
        | lwipRecv pcb p err => exact absurd (hlive ▸ hok.2.1) List.not_mem_nil
  · cases h with
    | asked hx hasks => exact .settle_asked hx hasks _
    | waits hf hasks hgives hresume =>
        rcases List.mem_cons.1 hf with rfl | hf
        · exact .settle_asks hasks (hresume a w)
        · exact .settle_waits hf hasks hgives hresume _
    | idle _ _ hpending _ =>
        -- a fault is not answered
        obtain ⟨entry, before, request, resume⟩ := f
        obtain rfl : request = .fault := hpending request List.mem_cons_self
        exact a.elim

theorem Begun.run (moves : List Move) {c c' : Config} (h : Begun c)
    (hrun : Reentrant.run Entry.run Reliable moves c = some c') : Begun c' :=
  Reentrant.run_closed (fun h hok hstep => h.step hok.1 hstep) moves h hrun

/-- **What has been connected has been asked for.** -/
theorem exists_asks {r : HTTPRequest} {setup : Tls.Setup} {tls callback : Bool} {moves : List Move}
    {c : Config}
    (hrun : Reentrant.run Entry.run Reliable moves (.start (.start r setup tls callback)) = some c)
    (hpending : ∀ x ∈ c.pending, x.isData = true) {x : Record} (hx : x ∈ c.history)
    (hconnects : x.entry.connects = true) : ∃ y ∈ c.history, Asks y.entry y.before := by
  have hstart : Begun (.start (.start r setup tls callback)) :=
    .idle rfl rfl (fun x hx => absurd hx List.not_mem_nil) fun x hx => absurd hx List.not_mem_nil
  cases hstart.run moves hrun with
  | idle _ _ _ hhistory =>
      rw [hhistory x hx] at hconnects
      cases hconnects
  | waits hf _ hgives _ => exact absurd (hpending _ (List.mem_map_of_mem hf)) hgives
  | asked hy hasks => exact ⟨_, hy, hasks⟩

end begun

/-! ### What has been written -/

/-- A `send` that comes to connect does connect. -/
theorem outs_of_connects {r r' : HTTPRequest} (hconnects : r.Connects) {err : Tls.Err}
    {outs : List HTTPRequest.Out} {ok : Bool} (hcall : r.call (.send err) = some (outs, ok, r')) :
    outs ≠ [] := by
  obtain ⟨hstate, hport, hindex⟩ := hconnects
  rw [HTTPRequest.call, HTTPRequest.send, if_neg hstate, if_neg hport,
    if_neg (Nat.not_le_of_lt hindex), Option.bind_eq_bind, Option.bind_eq_some_iff] at hcall
  obtain ⟨cursor, -, hcall⟩ := hcall
  obtain ⟨host, -, hcall⟩ := Option.bind_eq_some_iff.1 hcall
  rintro rfl
  cases hcall

/-- The calls that are known by what has been entered. -/
theorem connects_of_called {x : Record} (h : called x = some .onConnected) :
    x.entry.connects = true := by
  obtain ⟨below, e, w, r, w'⟩ := x
  cases e with
  | lwipConnected pcb err => cases err <;> first | rfl | cases h
  | addHeader | setBody | send | setHttpCallback | dnsCallback | lwipRecv | lwipSent | lwipErr =>
      cases h

theorem mem_told {history : List Record} {e : HTTPRequest.Entry}
    (he : e ∈ history.filterMap told) : ∃ x ∈ history, called x = some e.call := by
  obtain ⟨x, hx, htold⟩ := List.mem_filterMap.1 he
  obtain ⟨c, hcalled, rfl⟩ := Option.map_eq_some_iff.1 htold
  exact ⟨x, hx, hcalled⟩

/-- A `send` that comes to connect, in the ledger of a run. -/
theorem exists_sent {r : HTTPRequest} {setup : Tls.Setup} {tls callback : Bool} {moves : List Move}
    {c : Config}
    (hrun : Reentrant.run Entry.run Reliable moves (.start (.start r setup tls callback)) = some c)
    (hopen : ∀ x ∈ c.history, Delivered x) {x : Record} (hx : x ∈ c.history)
    (hasks : Asks x.entry x.before) :
    ∃ e ∈ c.history.filterMap told, (∃ err, e.call = .send err) ∧ e.outs ≠ [] := by
  obtain ⟨hentry, hconnects⟩ := hasks
  have hrecorded : Recorded x :=
    (sound.run good_start hrun).2 x hx (by rw [hentry]; rfl) (hopen x hx)
  have hcalled : called x = some (.send (connectErr (x.result ≠ .bool false))) := by
    rw [called, hentry]
  have htold : ∃ e, told x = some e ∧ e.call = .send (connectErr (x.result ≠ .bool false)) := by
    rw [told, hcalled]
    exact ⟨_, rfl, rfl⟩
  obtain ⟨e, htold, hcall⟩ := htold
  rw [Recorded, htold] at hrecorded
  obtain ⟨r', hcall', -⟩ := hrecorded.call
  rw [hcall] at hcall'
  exact ⟨e, List.mem_filterMap.2 ⟨x, hx, htold⟩, ⟨_, hcall⟩, outs_of_connects hconnects hcall'⟩

/-- **The calls that build a request, a `send`, and the connection**, all of which the invocations
have been, have succeeded; whatever `send` has returned. -/
theorem succeeds {r : HTTPRequest} {setup : Tls.Setup} {tls callback : Bool} {moves : List Move}
    {c : Config}
    (hrun : Reentrant.run Entry.run Reliable moves (.start (.start r setup tls callback)) = some c)
    (hpending : ∀ x ∈ c.pending, x.isData = true) (hopen : ∀ x ∈ c.history, Delivered x)
    {calls : List HTTPRequest.Call} (hbuild : ∀ call ∈ calls, call.Builds) {err : Tls.Err} {ok : Bool}
    (hcalls : (c.history.filterMap told).map (fun e => (e.call, e.ok)) =
      calls.map (·, true) ++ [(.send err, ok), (.onConnected, true)]) :
    ∀ e ∈ c.history.filterMap told, e.Succeeds := by
  obtain ⟨built, rest, hentries, hbuilt, hrest⟩ := List.map_eq_append_iff.1 hcalls
  obtain ⟨sent, rest, rfl, hsent, hrest⟩ := List.map_eq_cons_iff.1 hrest
  obtain ⟨connected, rest, rfl, hconnected, hrest⟩ := List.map_eq_cons_iff.1 hrest
  obtain rfl := List.map_eq_nil_iff.1 hrest
  have hbuilds : ∀ e ∈ built, e.call.Builds ∧ e.ok = true := by
    intro e he
    have hmem : (e.call, e.ok) ∈ calls.map (·, true) := hbuilt ▸ List.mem_map_of_mem he
    obtain ⟨call, hcall, heq⟩ := List.mem_map.1 hmem
    obtain ⟨rfl, hok⟩ := Prod.mk.inj heq
    exact ⟨hbuild _ hcall, hok.symm⟩
  -- the connection has been asked for, by the only `send`
  obtain ⟨x, hx, hcalled⟩ := mem_told (e := connected) (by rw [hentries]; simp)
  rw [(Prod.mk.inj hconnected).1] at hcalled
  obtain ⟨y, hy, hasks⟩ := exists_asks hrun hpending hx (connects_of_called hcalled)
  obtain ⟨e, he, ⟨err', hcall⟩, houts⟩ := exists_sent hrun hopen hy hasks
  obtain rfl : e = sent := by
    rw [hentries] at he
    rcases List.mem_append.1 he with he | he
    · have hcall' := (hbuilds e he).1
      rw [hcall] at hcall'
      exact hcall'.elim
    · rcases List.mem_cons.1 he with rfl | he
      · rfl
      · rw [List.mem_singleton.1 he, (Prod.mk.inj hconnected).1] at hcall
        cases hcall
  intro e' he'
  rw [hentries] at he'
  rcases List.mem_append.1 he' with he' | he'
  · exact .inl (hbuilds e' he').2
  · rcases List.mem_cons.1 he' with rfl | he'
    · exact .inr houts
    · rw [List.mem_singleton.1 he']
      exact .inl (Prod.mk.inj hconnected).2

/-- **A request with its session writes its head and its body**, when its calls have succeeded. -/
theorem written_eq {memory : Buffer (MAX_HEADER_SIZE + 2)} {state : HTTPSessionState}
    {host command path : CString} {port : UInt16} {r : HTTPRequest}
    (hnew : HTTPRequest.new memory state (some host) port (some command) (some path) = some r)
    {setup : Tls.Setup} {tls callback : Bool} {moves : List Move} {c : Config}
    (hrun : Reentrant.run Entry.run Reliable moves (.start (.start r setup tls callback)) = some c)
    (hpending : ∀ x ∈ c.pending, x.isData = true) (hopen : ∀ x ∈ c.history, Delivered x)
    {calls : List HTTPRequest.Call} (hbuild : ∀ call ∈ calls, call.Builds) {err : Tls.Err} {ok : Bool}
    (hcalls : (c.history.filterMap told).map (fun e => (e.call, e.ok)) =
      calls.map (·, true) ++ [(.send err, ok), (.onConnected, true)]) :
    Tls.written c.state.tls.log =
        (HTTPRequest.asked command path host port calls).render ++ HTTPRequest.bodyOf calls ∧
      (HTTPRequest.asked command path host port calls).render.length < MAX_HEADER_SIZE := by
  have hplays := played r setup tls callback hrun hpending hopen
  have hmap : (c.history.filterMap told).map HTTPRequest.Entry.call =
      calls ++ [.send err, .onConnected] := by
    have hfirst := congrArg (List.map Prod.fst) hcalls
    simpa [Function.comp_def] using hfirst
  have hentries := hplays.run
  rw [hmap] at hentries
  rw [hplays.written]
  exact HTTPRequest.transmitted_eq hnew hbuild hentries
    (succeeds hrun hpending hopen hbuild hcalls)

end Client

/-! ### The result -/

end Http
