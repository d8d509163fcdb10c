/-
**A request arrives as it has been asked for.**

An `HTTPRequest` prints its lines into a buffer and transmits it; an `HTTPSession` cuts the bytes
that it receives into a header and data.  Both ends together: when every call on the request has
succeeded, the session tells its application the command, the path and the first 20 of the header
lines that were asked for, once, and hands over the body, in whatever chunks the bytes come and
whatever the application calls in between.  The parser keeps no more than 20 header lines, and those
behind them are lost.  It takes a first chunk with the whole head in it: a shorter one is refused.

Main definitions:

* `Http.HTTPRequest.asked`, `Http.HTTPRequest.bodyOf` — the head and the body that are asked for;
* `Http.HTTPRequest.transmitted` — the bytes of a run of the request;
* `Http.Exchange.Told` — the application has been told of the request at most once, and the header
  that it was given holds the message.

Main results:

* `Http.HTTPRequest.transmitted_eq` — a request transmits its head and its body;
* `Http.Exchange.receives` — every step of a session keeps the invariant;
* `Http.request_exchanged` — **what the session tells and hands over is what was asked for**, up to
  20 header lines.
-/

import PicoHttps.Http.Canonical
import PicoHttps.Http.Request
import PicoHttps.Http.Routing

set_option relaxedAutoImplicit false
set_option autoImplicit false

namespace Http

namespace HTTPRequest

/-! ### What is asked for -/

/-- The header that a call asks for. -/
def Call.line : Call → List (List UInt8 × List UInt8)
  | .addHeader header value => [(header.chars, value.chars)]
  | .setBody data => [(Text.ascii "Content-Length", Text.decimal data.bytes.length)]
  | _ => []

/-- The body that a call asks for. -/
def Call.body : Call → List UInt8
  | .setBody data => data.bytes
  | _ => []

/-- The head that is asked for. -/
def asked (command path host : CString) (port : UInt16) (calls : List Call) : Head where
  first := command.chars
  second := path.chars
  third := Text.ascii "HTTP/1.1"
  headers := (Text.ascii "Host", host.chars ++ Text.ascii ":" ++ Text.decimal port.toNat) ::
    calls.flatMap Call.line

/-- The body that is asked for. -/
def bodyOf (calls : List Call) : List UInt8 := calls.flatMap Call.body

/-- The calls that build a request. -/
def Call.Builds : Call → Prop
  | .addHeader _ _ | .setBody _ => True
  | _ => False

instance : ∀ c : Call, Decidable c.Builds
  | .addHeader _ _ | .setBody _ => .isTrue trivial
  | .send _ | .onConnected => .isFalse id

/-- A call whose header, if it asks for one, ends neither its line nor its name. -/
def Call.Plain : Call → Prop
  | .addHeader header value => Avoids header.chars [COLON, CR, LF] ∧ Avoids value.chars [CR, LF]
  | _ => True

instance : ∀ c : Call, Decidable c.Plain
  | .addHeader _ _ => inferInstanceAs (Decidable (_ ∧ _))
  | .setBody _ | .send _ | .onConnected => .isTrue trivial

/-- **Strings that do not contain what separates them**, and a path that starts with a slash. -/
structure Plain (command path host : CString) (calls : List Call) : Prop where
  slash : path.chars.head? = some SLASH
  path : Avoids path.chars [SPACE, CR, LF]
  command : Avoids command.chars [SPACE, CR, LF]
  host : Avoids host.chars [CR, LF]
  calls : ∀ c ∈ calls, c.Plain

/-- The bytes that are transmitted in a run. -/
def transmitted (entries : List Entry) : List UInt8 :=
  entries.flatMap fun e => e.outs.flatMap Out.data

/-! ### The head is canonical -/

/-- A string has no zero byte either. -/
theorem avoids_zero {s : CString} {bs : List UInt8} (h : Avoids s.chars bs) :
    Avoids s.chars (bs ++ [0]) := by
  intro b hb
  rcases List.mem_append.1 hb with hb | hb
  · exact h b hb
  · rw [List.mem_singleton.1 hb]
    exact s.zero_notMem

theorem avoids_append {xs ys bs : List UInt8} (hxs : Avoids xs bs) (hys : Avoids ys bs) :
    Avoids (xs ++ ys) bs := fun b hb hmem =>
  (List.mem_append.1 hmem).elim (hxs b hb) (hys b hb)

theorem avoids_decimal (n : ℤ) : Avoids (Text.decimal n) [CR, LF, 0] := by
  intro b hb hmem
  have hlow : ∀ b ∈ [CR, LF, 0], b ≠ 0x2d ∧ b.toNat < 48 := by decide +kernel
  rcases Text.eq_or_digit_of_mem_decimal hmem with hsign | ⟨hdigit, -⟩
  · exact (hlow b hb).1 hsign
  · exact absurd (hlow b hb).2 (Nat.not_lt_of_le hdigit)

theorem Call.Plain.canonical {c : Call} (h : c.Plain) :
    ∀ header ∈ c.line, CanonicalHeader header := by
  intro header hheader
  cases c with
  | addHeader name value =>
      obtain rfl := List.mem_singleton.1 hheader
      exact ⟨avoids_zero h.1, avoids_zero h.2⟩
  | setBody data =>
      have hname : Avoids (Text.ascii "Content-Length") [COLON, CR, LF, 0] := by decide +kernel
      obtain rfl := List.mem_singleton.1 hheader
      exact ⟨hname, avoids_decimal _⟩
  | send err => cases hheader
  | onConnected => cases hheader

/-- **The head that is asked for is canonical.** -/
theorem Plain.canonical {command path host : CString} {calls : List Call}
    (h : Plain command path host calls) (port : UInt16) :
    CanonicalRequest (asked command path host port calls) where
  first := avoids_zero h.command
  second := avoids_zero h.path
  third := (by decide +kernel : Avoids (Text.ascii "HTTP/1.1") [CR, LF])
  headers := by
    intro header hheader
    rcases List.mem_cons.1 hheader with rfl | hheader
    · have hname : Avoids (Text.ascii "Host") [COLON, CR, LF, 0] := by decide +kernel
      refine ⟨hname, ?_⟩
      exact avoids_append (avoids_append (avoids_zero h.host) (by decide +kernel))
        (avoids_decimal _)
    · obtain ⟨c, hc, hline⟩ := List.mem_flatMap.1 hheader
      exact (h.calls c hc).canonical header hline
  slash := h.slash

/-! ### What is transmitted -/

variable {p : Phase} {b : Built} {r : HTTPRequest}

/-- **A request that has room is open.** -/
theorem Inv.exists_open (h : Inv .building b r) (hroom : r.HasRoom) :
    ∃ host, Open .building b host b.text r := by
  cases h with
  | failed hstate _ _ => exact absurd hstate hroom.1
  | full hindex _ _ _ => exact absurd hroom.2 (Nat.not_lt_of_ge hindex.ge)
  | @opened host content hopen =>
      obtain rfl : content = b.text := hopen.shows
      exact ⟨host, hopen⟩

/-- A body is set when there is none. -/
theorem Open.body_of_setBody {host content : List UInt8} (h : Open p b host content r)
    {data : Block} {r' : HTTPRequest} (hcall : r.setBody data = some (true, r')) :
    b.body = none := by
  rw [← h.body]
  cases hbody : r.body with
  | none => rfl
  | some data' =>
      rw [HTTPRequest.setBody, if_neg h.state, if_neg (Nat.not_le_of_lt h.room), hbody,
        if_pos Option.isSome_some] at hcall
      simp at hcall

/-- The line that a call that builds adds to the text. -/
theorem Built.text_next {c : Call} (hc : c.Builds) :
    (b.next c true).text = b.text ++ c.line.flatMap Http.headerLine := by
  cases c with
  | addHeader header value =>
      simp [Built.next, Call.line, HTTPRequest.headerLine, Http.headerLine, Text.ascii, COLON,
        SPACE, CR, LF]
  | setBody data =>
      simp [Built.next, Call.line, contentLength, Http.headerLine, Text.ascii, COLON, SPACE, CR,
        LF]
  | send err => exact hc.elim
  | onConnected => exact hc.elim

theorem outs_of_builds {c : Call} (hc : c.Builds) {outs : List Out} {ok : Bool}
    {r' : HTTPRequest} (hcall : r.call c = some (outs, ok, r')) : outs = [] := by
  cases c with
  | addHeader | setBody =>
      obtain ⟨out, -, hout⟩ := Option.map_eq_some_iff.1 hcall
      cases hout
      rfl
  | send | onConnected => exact hc.elim

/-- A call that builds has room when it succeeds. -/
theorem hasRoom_of_built {c : Call} (hc : c.Builds) {outs : List Out} {r' : HTTPRequest}
    (hcall : r.call c = some (outs, true, r')) : r.HasRoom := by
  by_contra hnot
  cases c with
  | addHeader header value =>
      rw [HTTPRequest.call, addHeader_refused _ _ hnot] at hcall
      simp at hcall
  | setBody data =>
      rw [HTTPRequest.call, setBody_refused _ hnot] at hcall
      simp at hcall
  | send | onConnected => exact hc.elim

/-- **A call that builds**, when it succeeds. -/
theorem Inv.built (h : Inv .building b r) {c : Call} (hc : c.Builds) {outs : List Out}
    {r' : HTTPRequest} (hcall : r.call c = some (outs, true, r')) :
    outs = [] ∧ Inv .building (b.next c true) r' ∧
      (b.next c true).body.elim [] Block.bytes = b.body.elim [] Block.bytes ++ c.body := by
  obtain ⟨host, hopen⟩ := h.exists_open (hasRoom_of_built hc hcall)
  cases c with
  | addHeader header value =>
      obtain ⟨ok, r₁, hadd, hinv⟩ := hopen.addHeader header value
      rw [HTTPRequest.call, hadd] at hcall
      cases hcall
      refine ⟨rfl, ?_, (List.append_nil _).symm⟩
      rw [Phase.next, Phase.printed, ite_self] at hinv
      exact hinv
  | setBody data =>
      obtain ⟨ok, r₁, hset, hinv⟩ := hopen.setBody data
      rw [HTTPRequest.call, hset] at hcall
      cases hcall
      refine ⟨rfl, ?_, ?_⟩
      · rw [Phase.next, Phase.printed, ite_self] at hinv
        exact hinv
      · rw [hopen.body_of_setBody hset]
        rfl
  | send err => exact hc.elim
  | onConnected => exact hc.elim

/-- What remains of a run behind its first call. -/
theorem run_cons {c : Call} {calls : List Call} {entries : List Entry}
    (hrun : r.run (c :: calls) = some entries) : ∃ outs ok r' rest,
      r.call c = some (outs, ok, r') ∧ run r' calls = some rest ∧
        entries = ⟨c, outs, ok⟩ :: rest := by
  rw [run, Option.bind_eq_bind, Option.bind_eq_some_iff] at hrun
  obtain ⟨⟨outs, ok, r'⟩, hcall, hrun⟩ := hrun
  obtain ⟨rest, hrest, hentries⟩ := Option.bind_eq_some_iff.1 hrun
  exact ⟨outs, ok, r', rest, hcall, hrest, (Option.some.inj hentries).symm⟩

/-- A call that has succeeded; a `send` has when it has come to connect. -/
def Entry.Succeeds (e : Entry) : Prop := e.ok = true ∨ e.outs ≠ []

/-- A `send` that succeeds connects. -/
theorem connects_of_succeeds {err : Tls.Err} {outs : List Out} {ok : Bool} {r' : HTTPRequest}
    (hsend : r.call (.send err) = some (outs, ok, r')) (h : Entry.Succeeds ⟨.send err, outs, ok⟩) :
    r.Connects := by
  by_contra hnot
  rw [HTTPRequest.call, send_refused _ hnot] at hsend
  cases hsend
  exact h.elim Bool.false_ne_true fun hne => hne rfl

/-- **The end of the header, and the connection.** -/
theorem Inv.sent (h : Inv .building b r) {err : Tls.Err} {entries : List Entry}
    (hrun : r.run [.send err, .onConnected] = some entries) (hok : ∀ e ∈ entries, e.Succeeds) :
    transmitted entries = b.bytes ∧ (b.text ++ [0x0d, 0x0a]).length < MAX_HEADER_SIZE := by
  obtain ⟨outs, ok, r₁, entries₁, hsend, hrun₁, rfl⟩ := run_cons hrun
  obtain ⟨outs₁, ok₁, r₂, entries₂, hconnected, hrun₂, rfl⟩ := run_cons hrun₁
  have hconnects : r.Connects := connects_of_succeeds hsend (hok _ List.mem_cons_self)
  obtain ⟨host, hopen⟩ := h.exists_open hconnects.hasRoom
  obtain ⟨r', hsend', hopen'⟩ := hopen.send_connects err hconnects
  rw [HTTPRequest.call, hsend'] at hsend
  cases hsend
  obtain ⟨outs', hconnected', hdata⟩ := hopen'.onConnected (by simp)
  rw [HTTPRequest.call, hconnected'] at hconnected
  cases hconnected
  cases hrun₂
  constructor
  · rw [List.dropLast_append_of_ne_nil (by simp)] at hdata
    simp only [transmitted, List.flatMap_cons, List.flatMap_nil, List.append_nil, Out.data,
      List.nil_append, hdata]
    rfl
  · have hindex := hopen'.index
    have hroom := hopen'.room
    simp only [List.length_append, List.length_cons, List.length_nil] at hindex ⊢
    omega

/-- **A request that is built, sent and connected**, from any point on. -/
theorem Inv.transmits {err : Tls.Err} (calls : List Call) :
    ∀ {b : Built} {r : HTTPRequest} {entries : List Entry},
    Inv .building b r → (∀ c ∈ calls, c.Builds) →
      r.run (calls ++ [.send err, .onConnected]) = some entries →
        (∀ e ∈ entries, e.Succeeds) →
          transmitted entries = b.text ++ (calls.flatMap Call.line).flatMap Http.headerLine ++
            [0x0d, 0x0a] ++ (b.body.elim [] Block.bytes ++ bodyOf calls) ∧
          (b.text ++ (calls.flatMap Call.line).flatMap Http.headerLine ++
            [0x0d, 0x0a]).length < MAX_HEADER_SIZE := by
  induction calls with
  | nil =>
      intro b r entries h _ hrun hok
      simpa [bodyOf, Built.bytes] using h.sent hrun hok
  | cons c calls ih =>
      intro b r entries h hbuild hrun hok
      obtain ⟨outs, ok, r', rest, hcall, hrun', rfl⟩ := run_cons hrun
      have hc := hbuild c List.mem_cons_self
      obtain rfl : ok = true :=
        (hok _ List.mem_cons_self).resolve_right fun hne => hne (outs_of_builds hc hcall)
      obtain ⟨rfl, hinv, hbody⟩ := h.built hc hcall
      obtain ⟨hdata, hlen⟩ := ih hinv (fun c' hmem => hbuild c' (List.mem_cons_of_mem c hmem)) hrun'
        fun e hmem => hok e (List.mem_cons_of_mem _ hmem)
      rw [Built.text_next hc] at hdata hlen
      rw [hbody] at hdata
      constructor
      · simpa [transmitted, bodyOf] using hdata
      · simpa using hlen

/-- The lines of the constructor and of the calls are the head that is asked for. -/
theorem render_asked (command path host : CString) (port : UInt16) (calls : List Call) :
    (asked command path host port calls).render = requestLines command path host port ++
      (calls.flatMap Call.line).flatMap Http.headerLine ++ [0x0d, 0x0a] := by
  simp [asked, Head.render, headerLines, Http.headerLine, requestLines, Text.ascii, COLON, SPACE,
    CR, LF]

/-- **A request transmits its head and its body**, when every call has succeeded. -/
theorem transmitted_eq {memory : Buffer (MAX_HEADER_SIZE + 2)} {state : HTTPSessionState}
    {host command path : CString} {port : UInt16} {calls : List Call} {err : Tls.Err}
    {entries : List Entry}
    (hnew : new memory state (some host) port (some command) (some path) = some r)
    (hbuild : ∀ c ∈ calls, c.Builds)
    (hrun : r.run (calls ++ [.send err, .onConnected]) = some entries)
    (hok : ∀ e ∈ entries, e.Succeeds) :
    transmitted entries = (asked command path host port calls).render ++ bodyOf calls ∧
      (asked command path host port calls).render.length < MAX_HEADER_SIZE := by
  obtain ⟨r', hnew', hinv⟩ := exists_new memory state (some host) port (some command) (some path)
  obtain rfl : r' = r := Option.some.inj (hnew'.symm.trans hnew)
  rw [render_asked]
  exact hinv.transmits calls hbuild hrun hok

end HTTPRequest

/-! ### What the session tells -/

namespace Exchange

open Delivery (View)
open Routing (Blank Idle Ok Phase Unread)

/-- **The application has been told of the request at most once**, and the header that it was given
holds the message at the front of the first chunk. -/
def Told (log : List Event) : Prop :=
  log.filter Event.requests = [] ∨
    ∃ (header : HTTPHeader) (mem x : List UInt8) (m : Message), firstChunk log = some x ∧
      readMessage x = some m ∧ header.Holds mem m ∧
        log.filter Event.requests = [.call (.onRequestReceived header mem)]

/-- **The invariant**: what becomes of the bytes, and what the application has been told. -/
structure Inv (pending : List Call) (v : View) : Prop where
  routing : Routing.Inv pending v
  told : Unread v.log ∨ Told v.log

variable {v v' : View} {log : List Event} {e : Event}

theorem firstChunk_append {x : List UInt8} (h : firstChunk log = some x) (more : List Event) :
    firstChunk (log ++ more) = some x :=
  (List.prefix_append log more).findSome?_eq_some h

theorem Told.append (h : Told log) (he : e.requests = false) : Told (log ++ [e]) := by
  have hfilter : (log ++ [e]).filter Event.requests = log.filter Event.requests := by
    rw [List.filter_append, List.filter_cons_of_neg (by rw [he]; exact Bool.false_ne_true),
      List.filter_nil, List.append_nil]
  rw [Told, hfilter]
  refine h.imp id ?_
  rintro ⟨header, mem, x, m, hfirst, hread, hholds, htold⟩
  exact ⟨header, mem, x, m, firstChunk_append hfirst [e], hread, hholds, htold⟩

/-- An event that tells nothing. -/
theorem told_emit (h : Unread v.log ∨ Told v.log) (he : e.requests = false) :
    Unread (v.emit e).log ∨ Told (v.emit e).log :=
  h.imp (fun hunread => hunread.append [e]) fun htold => htold.append he

theorem requests_of_neutral (he : Delivery.neutral e = true) : e.requests = false :=
  (Routing.blank_of_neutral he).requests

theorem steady : Delivery.Steady Ok Inv where
  proper := Routing.steady.proper
  closing := fun h => ⟨Routing.steady.closing h.routing, h.told⟩
  pass := by
    intro c below v hc
    exact ⟨fun h => ⟨(Routing.steady.pass hc).1 h.routing, h.told⟩,
      fun h => ⟨(Routing.steady.pass hc).2 h.routing, h.told⟩⟩
  emit := fun he h =>
    ⟨Routing.steady.emit he h.routing, told_emit h.told (requests_of_neutral he)⟩
  accepted := fun h => ⟨Routing.steady.accepted h.routing, told_emit h.told rfl⟩
  close := fun h hclosing => ⟨Routing.steady.close h.routing hclosing, told_emit h.told rfl⟩

theorem requests_of_frame {c : Call} (hc : Delivery.isFrame c = true) :
    (Event.call c).requests = false ∧ (Event.answered c).requests = false :=
  (Routing.blank_frame hc).imp (fun h => h.requests) fun h => h.requests

/-- **The request is told**, of a chunk that comes first. -/
theorem Inv.request (h : Inv [] v) (hopen : v.closing = false) (hinit : v.state = .INIT)
    {data mem : List UInt8} {m : Message} {header : HTTPHeader} (hread : readMessage data = some m)
    (hholds : header.Holds mem m) :
    Unread (v.log ++ [.onRecv data, .call (.onRequestReceived header mem)]) ∨
      Told (v.log ++ [.onRecv data, .call (.onRequestReceived header mem)]) := by
  refine h.routing.imp (fun hunread => hunread.append _) fun hidle => ?_
  have hblank := Idle.init hidle hopen hinit
  have hnone : v.log.filter Event.requests = [] := List.filter_eq_nil_iff.2 fun e he => by
    rw [(hblank e he).requests]
    exact Bool.false_ne_true
  refine .inr ⟨header, mem, data, m, Routing.firstChunk_of_blank hblank data _, hread, hholds, ?_⟩
  rw [List.filter_append, hnone]
  rfl

/-- **Every step of a session keeps the invariant.** -/
theorem receives : Delivery.Receives Ok Inv fun _ => True where
  frame := fun hc h hmay => ⟨Routing.receives.frame hc h.routing hmay,
    told_emit h.told (requests_of_frame hc).1⟩
  framed := fun hc h => ⟨Routing.receives.framed hc h.routing,
    told_emit h.told (requests_of_frame hc).2⟩
  onWebSocketData := fun _ _ => .inl trivial
  onFinishedPacket := fun _ _ => .inl trivial
  refused := fun h hopen hstate => ⟨Routing.receives.refused h.routing hopen hstate,
    told_emit h.told rfl⟩
  request := by
    intro data v m header mem h hopen hinit hread hsize hdrop hholds
    refine ⟨Routing.receives.request h.routing hopen hinit hread hsize hdrop hholds, ?_⟩
    have htold := h.request hopen hinit hread hholds
    rw [View.emit, View.emit, List.append_assoc]
    exact htold
  requested := fun h hok hrest => ⟨Routing.receives.requested h.routing hok hrest,
    told_emit (v := Delivery.view _) h.told rfl⟩
  rest := fun h hok hrest => ⟨Routing.receives.rest h.routing hok hrest,
    told_emit (told_emit (v := Delivery.view _) h.told rfl) rfl⟩
  received := fun h hopen hstate => ⟨Routing.receives.received h.routing hopen hstate,
    told_emit (told_emit h.told rfl) rfl⟩
  answered := fun h => ⟨Routing.receives.answered h.routing, told_emit h.told rfl⟩
  decode := fun h hopen hstate => ⟨⟨(Routing.receives.decode h.routing hopen hstate).1,
    told_emit (told_emit h.told rfl) rfl⟩, trivial⟩

/-- **What the application has been told and given**, once the first chunk has come, if it begins
with a message and no WebSocket has been accepted. -/
theorem Inv.delivered (h : Inv [] v) {x : List UInt8} {m : Message}
    (hfirst : firstChunk v.log = some x) (hread : readMessage x = some m)
    (hnot : .acceptWebSocket true ∉ v.log) :
    (∃ header mem, v.log.filter Event.requests = [.call (.onRequestReceived header mem)] ∧
      header.Holds mem m) ∧ httpData v.log = (received v.log).drop m.size := by
  have hread' : ¬ Unread v.log := by
    rintro ⟨x', hfirst', hunread⟩
    obtain rfl := Option.some.inj (hfirst.symm.trans hfirst')
    rw [hread] at hunread
    cases hunread
  cases h.routing.resolve_left hread' with
  | blank hlog _ =>
      -- nothing has come yet
      rw [Routing.firstChunk_eq_none hlog] at hfirst
      cases hfirst
  | early _ haccepted _ => exact absurd haccepted hnot
  | @routed header mem x' m' before post hasked hlog hpost _ =>
      obtain ⟨hrecv, hhttp, -⟩ := hasked.bytes
      obtain ⟨pre, mid, hbefore, hpre, -⟩ := hasked.split
      -- the chunk with the request is the first one
      obtain ⟨rfl, rfl⟩ : x = x' ∧ m = m' := by
        rw [hlog, hbefore, List.append_assoc, List.cons_append,
          Routing.firstChunk_of_blank hpre] at hfirst
        obtain rfl := Option.some.inj hfirst
        exact ⟨rfl, Option.some.inj (hread.symm.trans hasked.read)⟩
      constructor
      · have hmem : .call (.onRequestReceived header mem) ∈ v.log.filter Event.requests :=
          List.mem_filter.2 ⟨by rw [hlog, hbefore]; simp, rfl⟩
        rcases h.told.resolve_left hread' with hnone | ⟨header', mem', x', m', hfirst', hread', htold⟩
        · rw [hnone] at hmem
          cases hmem
        · obtain rfl := Option.some.inj (hfirst.symm.trans hfirst')
          obtain rfl := Option.some.inj (hread.symm.trans hread')
          exact ⟨header', mem', htold.2, htold.1⟩
      · have hdata := (hpost.data fun haccepted => hnot ?_).1
        · rw [hlog, httpData_append, received_append, hrecv, hhttp]
          exact hdata
        · rw [hlog]
          simpa [Routing.Accepted] using haccepted

end Exchange

/-- The first chunk comes first. -/
theorem received_of_firstChunk {log : List Event} {x : List UInt8} (h : firstChunk log = some x) :
    x <+: received log :=
  Chunk.prefix_of_first (fun e => by cases e <;> rfl) h

/-- **A head that arrives in the first chunk** is told of, and what is behind it is handed over. -/
theorem Exchange.arrives (crypto : Crypto) (setup : Tls.Setup) (arg : Option ℕ) (tls : Bool)
    (op : WebSocket.WebSocketOperation) (key : Fin 4 → UInt8)
    (buffer : Buffer WebSocket.MAX_WEBSOCKET_HEADER) {head : Head}
    (hcanonical : CanonicalRequest head) (hlen : head.render.length < MAX_HEADER_SIZE)
    {moves : List Move} {c : Config} {body x : List UInt8}
    (hrun : Reentrant.run Entry.run (fun pending w m => Proper pending w m ∧ Willing m) moves
      (.start (.start crypto setup arg tls op key buffer)) = some c)
    (hidle : ∀ call ∈ c.pending, call.isData = false)
    (hnot : .acceptWebSocket true ∉ c.state.log)
    (hbytes : received c.state.log <+: head.render ++ body)
    (hfirst : firstChunk c.state.log = some x) (hhead : head.render.length ≤ x.length) :
    (∃ header mem, c.state.log.filter Event.requests = [.call (.onRequestReceived header mem)] ∧
      Found header mem head) ∧
    received c.state.log = head.render ++ httpData c.state.log := by
  have hprefix : head.render <+: x := List.prefix_of_prefix_length_le (List.prefix_append _ body)
    ((received_of_firstChunk hfirst).trans hbytes) hhead
  obtain ⟨rest, rfl⟩ := hprefix
  have hread := Head.readMessage_render hcanonical.toCanonical hcanonical.code rest
  have hstart : Exchange.Inv [] ⟨.INIT, false, []⟩ :=
    ⟨.inr (.blank (fun e he => absurd he List.not_mem_nil) fun _ => rfl), .inr (.inl rfl)⟩
  have hgood := Exchange.steady.run Exchange.receives (.start hstart) hrun
  have hnone : c.pending.find? Call.isData = none :=
    List.find?_eq_none.2 fun call hcall => by rw [hidle call hcall]; exact Bool.false_ne_true
  have hinv : Exchange.Inv [] (Delivery.view c.state) :=
    ⟨hgood.inv.routing.imp id fun hphase => by rwa [hnone] at hphase, hgood.inv.told⟩
  obtain ⟨⟨header, mem, htold, hholds⟩, hdata⟩ := hinv.delivered hfirst hread hnot
  refine ⟨⟨header, mem, htold, found_of_holds hcanonical ?_ hholds⟩, ?_⟩
  · rw [MAX_HEADER_SIZE] at hlen
    omega
  · obtain ⟨more, hmore⟩ := received_of_firstChunk hfirst
    have hdata' : httpData c.state.log = (received c.state.log).drop head.render.length := hdata
    rw [hdata', ← hmore, List.append_assoc, List.drop_left]

/-- **A request arrives as it has been asked for.**  The calls on an `HTTPRequest` have succeeded,
and a session receives the bytes that it has transmitted, the whole head in the first chunk; its
application returns `true` and accepts no WebSocket.  Whenever no callback that is given data waits,
the application has been told once of exactly the command and the path that were asked for, and of
the first 20 header lines: the line `Host` and those of the calls after it, of which a 20th and any
later one are lost.  What it has been given is what has come of the body. -/
theorem request_exchanged (memory : Buffer (MAX_HEADER_SIZE + 2)) (state : HTTPSessionState)
    (host : CString) (port : UInt16) (command path : CString) (calls : List HTTPRequest.Call)
    (r : HTTPRequest) (entries : List HTTPRequest.Entry)
    (hnew : HTTPRequest.new memory state (some host) port (some command) (some path) = some r)
    (hbuild : ∀ c ∈ calls, c.Builds) (hplain : HTTPRequest.Plain command path host calls)
    (hrequest : r.run (calls ++ [.send .ERR_OK, .onConnected]) = some entries)
    (hok : ∀ e ∈ entries, e.ok = true)
    (crypto : Crypto) (setup : Tls.Setup) (arg : Option ℕ) (tls : Bool)
    (op : WebSocket.WebSocketOperation) (key : Fin 4 → UInt8)
    (buffer : Buffer WebSocket.MAX_WEBSOCKET_HEADER) (moves : List Move) (c : Config)
    (x : List UInt8)
    (hrun : Reentrant.run Entry.run (fun pending w m => Proper pending w m ∧ Willing m) moves
      (.start (.start crypto setup arg tls op key buffer)) = some c)
    (hidle : ∀ call ∈ c.pending, call.isData = false)
    (hnot : .acceptWebSocket true ∉ c.state.log)
    (hbytes : received c.state.log <+: HTTPRequest.transmitted entries)
    (hfirst : firstChunk c.state.log = some x)
    (hhead : (HTTPRequest.asked command path host port calls).render.length ≤ x.length) :
    (∃ header mem, c.state.log.filter Event.requests = [.call (.onRequestReceived header mem)] ∧
      Found header mem (HTTPRequest.asked command path host port calls)) ∧
    received c.state.log = (HTTPRequest.asked command path host port calls).render ++
      httpData c.state.log ∧
    HTTPRequest.transmitted entries = (HTTPRequest.asked command path host port calls).render ++
      HTTPRequest.bodyOf calls := by
  obtain ⟨hsent, hlen⟩ :=
    HTTPRequest.transmitted_eq hnew hbuild hrequest fun e he => .inl (hok e he)
  rw [hsent] at hbytes
  obtain ⟨htold, hdata⟩ := Exchange.arrives crypto setup arg tls op key buffer
    (hplain.canonical port) hlen hrun hidle hnot hbytes hfirst hhead
  exact ⟨htold, hdata, hsent⟩

/-- A header and a body of two bytes. -/
def postCalls : List HTTPRequest.Call :=
  [.addHeader (.ofString "k") (.ofString "v"), .setBody ⟨[1, 2], by decide⟩]

/-- The head of a request with them. -/
def postHead : Head :=
  HTTPRequest.asked (.ofString "POST") (.ofString "/") (.ofString "a") 80 postCalls

/-- The head comes with the first byte of the body, and the other byte comes later. -/
def postMoves : List Move :=
  let header : HTTPHeader := ⟨[(17, 23), (29, 32), (35, 51)], 56, 0, some 0, some 5⟩
  let mem := Text.ascii
    "POST\x00/\x00HTTP/1.1\r\nHost\x00 a:80\x00\nk\x00 v\x00\nContent-Length\x00 2\x00\n\r\n" ++ [1]
  [.enter (.lwipRecv 1 [⟨postHead.render ++ [1], 57⟩] .ERR_OK),
    .answer (.onRequestReceived header mem) true, .answer (.onHttpData [1]) true,
    .enter (.lwipRecv 1 [⟨[2], 1⟩] .ERR_OK), .answer (.onHttpData [2]) true]

/-- A request with a body, in two chunks. -/
theorem request_exchanged_example :
    ∃ c : Config, Reentrant.run Entry.run (fun pending w m => Proper pending w m ∧ Willing m)
        postMoves (.start listening) = some c ∧
      (∃ header mem, c.state.log.filter Event.requests =
          [.call (.onRequestReceived header mem)] ∧
        Found header mem postHead) ∧
      received c.state.log = postHead.render ++ httpData c.state.log := by
  have hsends : ((HTTPRequest.new (.filled _ 0) .INIT (some (.ofString "a")) 80
      (some (.ofString "POST")) (some (.ofString "/"))).any fun r =>
        (r.run (postCalls ++ [.send .ERR_OK, .onConnected])).any fun entries =>
          (∀ e ∈ entries, e.ok = true) ∧
            HTTPRequest.transmitted entries = postHead.render ++ [1, 2]) = true := by
    decide +kernel
  obtain ⟨r, hnew, hsends⟩ := (Option.any_eq_true _ _).1 hsends
  obtain ⟨entries, hrequest, hsends⟩ := (Option.any_eq_true _ _).1 hsends
  obtain ⟨hok, hsent⟩ := of_decide_eq_true hsends
  have hrun : ((Reentrant.run Entry.run (fun pending w m => Proper pending w m ∧ Willing m)
      postMoves (.start listening)).any fun c => c.pending = [] ∧
        .acceptWebSocket true ∉ c.state.log ∧
        received c.state.log = postHead.render ++ [1, 2] ∧
        firstChunk c.state.log = some (postHead.render ++ [1])) = true := by
    decide +kernel
  obtain ⟨c, hc, hlog⟩ := (Option.any_eq_true _ _).1 hrun
  obtain ⟨hpending, hnot, hreceived, hfirst⟩ := of_decide_eq_true hlog
  have hbytes : received c.state.log <+: HTTPRequest.transmitted entries :=
    ⟨[], by rw [List.append_nil, hreceived, hsent]⟩
  have hexchanged := request_exchanged _ _ _ _ _ _ postCalls r entries hnew (by decide)
    ⟨by decide +kernel, by decide +kernel, by decide +kernel, by decide +kernel,
      by decide +kernel⟩ hrequest hok _ _ _ _ _ _ _ _ c _ hc (by
        rw [hpending]
        exact fun call hcall => absurd hcall List.not_mem_nil) hnot
    hbytes hfirst (List.prefix_append _ _).length_le
  exact ⟨c, hc, hexchanged.1, hexchanged.2.1⟩

end Http
