/-
**The response to a request.**

The first data that an `HTTPRequest` receives is its header, and what follows is passed on.  Whether
the request is still at its start is what `m_state` tells, and the constructor leaves `m_state` as
it has found it, unless it fails.  The request is new only if the memory of the object held the
word of `INIT` there: with any other word no header is ever passed on.

Main definitions:

* `Http.HTTPRequest.stateOf` — the state that a word of memory stands for;
* `Http.IHttpCallback`, `Http.HTTPRequest.onRecv`, `Http.HTTPRequest.receive` — the callback object,
  `on_recv`, and one chunk after the other;
* `Http.HTTPRequest.StartsClean` — what can be expected of a new request.

Main results:

* `Http.HTTPRequest.Ready.accepts`, `Http.HTTPRequest.Ready.delivers` — a request that is at its
  start;
* `Http.HTTPRequest.starts_clean_iff` — **a request starts clean if and only if its memory held
  `INIT`**.
-/

import PicoHttps.Http.Request
import PicoHttps.Http.Response

set_option relaxedAutoImplicit false
set_option autoImplicit false

namespace Http

variable {κ : Type}

/-! ### The callback object -/

/-- A callback object that keeps a `κ`.  The header points into the data behind it. -/
structure IHttpCallback (κ : Type) where
  onHeaderReceived : κ → HTTPHeader → List UInt8 → Bool × κ
  onHttpData : κ → List UInt8 → Bool × κ

/-- A call of it. -/
inductive Notice
  | onHeaderReceived (header : HTTPHeader) (data : List UInt8)
  | onHttpData (data : List UInt8)
  deriving DecidableEq, Repr

/-- The header that is passed on. -/
def Notice.header : Notice → List (HTTPHeader × List UInt8)
  | .onHeaderReceived header data => [(header, data)]
  | .onHttpData _ => []

/-- The bytes that are passed on. -/
def Notice.data : Notice → List UInt8
  | .onHeaderReceived _ _ => []
  | .onHttpData data => data

namespace IHttpCallback

/-- What a call returns. -/
def answer (callback : IHttpCallback κ) (k : κ) : Notice → Bool × κ
  | .onHeaderReceived header data => callback.onHeaderReceived k header data
  | .onHttpData data => callback.onHttpData k data

/-- It always returns true. -/
def Agrees (callback : IHttpCallback κ) : Prop := ∀ k n, (callback.answer k n).1 = true

/-- A call, if there is a callback object; without one everything is fine. -/
def notify (callback : Option (IHttpCallback κ)) (k : κ) (n : Notice) : List Notice × Bool × κ :=
  match callback with
  | none => ([], true, k)
  | some callback => ([n], callback.answer k n)

theorem Agrees.notify {callback : IHttpCallback κ} (h : callback.Agrees) (k : κ) (n : Notice) :
    ∃ k', IHttpCallback.notify (some callback) k n = ([n], true, k') :=
  ⟨(callback.answer k n).2, congrArg (fun ok => ([n], ok, (callback.answer k n).2)) (h k n)⟩

end IHttpCallback

namespace HTTPRequest

/-! ### Receiving -/

/-- The state that a word in the place of `m_state` stands for.  In every `switch` and comparison
a word that is no enumerator does what `WEBSOCKET_ESTABLISHED` does. -/
def stateOf : ℕ → HTTPSessionState
  | 0 => .INIT
  | 1 => .HEADER_RECEIVED
  | 3 => .FAIL
  | _ => .WEBSOCKET_ESTABLISHED

/-- `HTTPRequest::on_recv`: the calls it makes, what it returns, and what it leaves. -/
def onRecv (callback : Option (IHttpCallback κ)) (k : κ) (r : HTTPRequest) (data : List UInt8) :
    Option (List Notice × Bool × HTTPRequest × κ) :=
  match r.state with
  | .INIT => do
    let (parsed, header, data) ← HTTPHeader.new.parse data
    if !parsed then
      return ([], false, r, k)
    let r := { r with state := .HEADER_RECEIVED }
    let (notices, ok, k) := IHttpCallback.notify callback k (.onHeaderReceived header data)
    if !ok then
      return (notices, false, r, k)
    -- `len` must not wrap
    guard (header.getHeaderSize ≤ data.length)
    let data := data.drop header.getHeaderSize
    if data.length > 0 then
      let (more, ok, k) := IHttpCallback.notify callback k (.onHttpData data)
      return (notices ++ more, ok, r, k)
    return (notices, true, r, k)
  | .HEADER_RECEIVED =>
    let (notices, ok, k) := IHttpCallback.notify callback k (.onHttpData data)
    some (notices, ok, r, k)
  | .WEBSOCKET_ESTABLISHED => some ([], true, r, k)
  | .FAIL => some ([], false, r, k)

/-- An `on_recv` that has returned. -/
structure Reply where
  notices : List Notice
  ok : Bool
  deriving DecidableEq, Repr

/-- One chunk after the other, until `on_recv` returns false and the session closes. -/
def receive (callback : Option (IHttpCallback κ)) :
    κ → HTTPRequest → List (List UInt8) → Option (List Reply)
  | _, _, [] => some []
  | k, r, data :: chunks => do
    let (notices, ok, r, k) ← r.onRecv callback k data
    if ok then
      return ⟨notices, true⟩ :: (← receive callback k r chunks)
    return [⟨notices, false⟩]

/-- The request after some calls. -/
def after : HTTPRequest → List Call → Option HTTPRequest
  | r, [] => some r
  | r, c :: calls => do
    let (_, _, r) ← r.call c
    after r calls

/-! ### The property -/

/-- There is room for what a call prints; only `on_connected` is not for the application. -/
def Fits (r : HTTPRequest) : Call → Prop
  | .addHeader header value => r.headerIndex + (headerLine header value).length < MAX_HEADER_SIZE
  | .setBody data =>
    r.body = none ∧ r.headerIndex + (contentLength data).length < MAX_HEADER_SIZE
  | .send _ => r.headerIndex < MAX_HEADER_SIZE - 3
  | .onConnected => False

/-- What a call does and returns that is not refused: `send` connects, and returns whether that
has worked. -/
def Call.Accepted : Call → List Out → Bool → Prop
  | .send err, outs, ok => (∃ host port, outs = [.connect host port]) ∧ ok = decide (err = .ERR_OK)
  | _, _, ok => ok = true

/-- A call is not refused. -/
def Accepts (r : HTTPRequest) (c : Call) : Prop :=
  ∃ outs ok r', r.call c = some (outs, ok, r') ∧ c.Accepted outs ok

/-- A response is passed on in full: every chunk is accepted, the header is passed on once, with
the first of them, and the data are the bytes behind the header. -/
structure Delivered (header : HTTPHeader × List UInt8) (body : List UInt8)
    (chunks : List (List UInt8)) (replies : List Reply) : Prop where
  ok : replies.map Reply.ok = List.replicate (chunks.length + 1) true
  header : replies.map (fun e => e.notices.flatMap Notice.header) =
    [header] :: List.replicate chunks.length []
  data : replies.flatMap (fun e => e.notices.flatMap Notice.data) = body ++ chunks.flatten

/-- The response with the head `head`, the beginning `body` of its body in the same chunk, and the
rest in `chunks`. -/
def Delivers (r : HTTPRequest) (callback : IHttpCallback κ) (k : κ) (head : Head)
    (body : List UInt8) (chunks : List (List UInt8)) : Prop :=
  ∃ h data replies, HTTPHeader.new.parse (head.render ++ body) = some (true, h, data) ∧
    receive (some callback) k r ((head.render ++ body) :: chunks) = some replies ∧
    Delivered (h, data) body chunks replies

/-- **A request starts clean**: after any calls, those for which there is room are not refused,
and every response is passed on in full.  A head is in one chunk, whose length is a `u16_t`. -/
structure StartsClean (r : HTTPRequest) : Prop where
  accepts : ∀ calls r₁, r.after calls = some r₁ → ∀ c, r₁.Fits c → r₁.Accepts c
  delivers : ∀ calls r₁, r.after calls = some r₁ →
    ∀ (κ : Type) (callback : IHttpCallback κ), callback.Agrees →
      ∀ (k : κ) (head : Head), CanonicalResponse head → head.render.length ≤ 65535 →
        ∀ (body : List UInt8) (chunks : List (List UInt8)), r₁.Delivers callback k head body chunks

/-! ### The calls -/

variable {p : Phase} {b : Built} {r r' : HTTPRequest} {c : Call} {outs : List Out} {ok : Bool}

theorem stateOf_eq_INIT {word : ℕ} : stateOf word = .INIT ↔ word = 0 := by
  unfold stateOf
  split <;> simp_all

/-- A line for which there is room is printed. -/
theorem exists_print {xs line : List UInt8} (hholds : r.header.Holds xs)
    (hindex : r.headerIndex = xs.length) (hfit : r.headerIndex + line.length < MAX_HEADER_SIZE) :
    ∃ r', r.print line MAX_HEADER_SIZE = some (true, r') := by
  obtain ⟨header, hprint, -⟩ := print_fits hholds hindex (Nat.le_refl _) (hindex ▸ hfit)
  exact ⟨_, hprint⟩

theorem print_state {text : List UInt8} {limit : ℕ} (h : r.print text limit = some (ok, r')) :
    r'.state = r.state := by
  rw [print, Option.bind_eq_bind, Option.bind_eq_some_iff] at h
  obtain ⟨⟨header, written⟩, -, h⟩ := h
  dsimp only at h
  split at h
  · cases h
    rfl
  · cases h
    rfl

theorem send_state {err : Tls.Err} (h : r.send err = some (outs, ok, r')) :
    r'.state = r.state := by
  rw [send] at h
  split_ifs at h
  · cases h
    rfl
  · cases h
    rfl
  · cases h
    rfl
  · obtain ⟨cursor, -, h⟩ := Option.bind_eq_some_iff.1 h
    obtain ⟨host, -, h⟩ := Option.bind_eq_some_iff.1 h
    cases h
    rfl

/-- **A call leaves `m_state` as it is.** -/
theorem call_state (h : r.call c = some (outs, ok, r')) : r'.state = r.state := by
  cases c with
  | addHeader header value =>
      obtain ⟨out, hout, h⟩ := Option.map_eq_some_iff.1 h
      cases h
      rw [addHeader] at hout
      split_ifs at hout
      · cases hout
        rfl
      · cases hout
        rfl
      · exact print_state hout
  | setBody data =>
      obtain ⟨out, hout, h⟩ := Option.map_eq_some_iff.1 h
      cases h
      rw [setBody] at hout
      split_ifs at hout
      · cases hout
        rfl
      · cases hout
        rfl
      · cases hout
        rfl
      · exact print_state (r := { r with body := some data }) hout
  | send err => exact send_state h
  | onConnected =>
      obtain ⟨out, -, h⟩ := Option.map_eq_some_iff.1 h
      cases h
      rfl

/-- The invariant of a request is kept by every call that returns. -/
theorem Inv.next (h : Inv p b r) (hcall : r.call c = some (outs, ok, r')) :
    ∃ p' b', Inv p' b' r' := by
  by_cases hc : c = .onConnected
  · subst hc
    obtain ⟨out, -, hout⟩ := Option.map_eq_some_iff.1 hcall
    cases hout
    exact ⟨p, b, h⟩
  · obtain ⟨outs₁, ok₁, r₁, hcall₁, hinv, -⟩ := h.call c fun heq => absurd heq hc
    rw [hcall] at hcall₁
    cases hcall₁
    exact ⟨_, _, hinv⟩

/-- A request that has not received anything. -/
structure Ready (r : HTTPRequest) : Prop where
  state : r.state = .INIT
  inv : ∃ p b, Inv p b r

namespace Ready

/-- **It stays one**, whatever is called. -/
theorem after {calls : List Call} : ∀ {r : HTTPRequest}, Ready r →
    r.after calls = some r' → Ready r' := by
  induction calls with
  | nil =>
      intro r h hafter
      cases hafter
      exact h
  | cons c calls ih =>
      intro r h hafter
      rw [HTTPRequest.after, Option.bind_eq_bind, Option.bind_eq_some_iff] at hafter
      obtain ⟨⟨outs, ok, r₁⟩, hcall, hafter⟩ := hafter
      obtain ⟨p, b, hinv⟩ := h.inv
      exact ih ⟨(call_state hcall).trans h.state, hinv.next hcall⟩ hafter

/-- When there is still room, the request is open. -/
theorem exists_open (h : Ready r) (hroom : r.headerIndex < MAX_HEADER_SIZE) :
    ∃ p b host content, Open p b host content r := by
  obtain ⟨p, b, hinv⟩ := h.inv
  cases hinv with
  | failed hstate =>
      rw [h.state] at hstate
      cases hstate
  | full hindex => exact absurd hindex (Nat.ne_of_lt hroom)
  | @opened host content hopen => exact ⟨p, b, host, content, hopen⟩

/-- Up to its index the header is known. -/
theorem exists_holds (h : Ready r) (hroom : r.headerIndex < MAX_HEADER_SIZE) :
    ∃ xs, r.header.Holds xs ∧ r.headerIndex = xs.length := by
  obtain ⟨p, b, host, content, hopen⟩ := h.exists_open hroom
  refine ⟨_, hopen.holds, hopen.index.trans ?_⟩
  exact List.length_append.symm

/-- **A call for which there is room is not refused.** -/
theorem accepts (h : Ready r) (hfits : r.Fits c) : r.Accepts c := by
  have hstate : r.state ≠ .FAIL := by simp [h.state]
  cases c with
  | addHeader header value =>
      have hfit : r.headerIndex + (headerLine header value).length < MAX_HEADER_SIZE := hfits
      obtain ⟨xs, hholds, hindex⟩ := h.exists_holds (by omega)
      obtain ⟨r', hprint⟩ := exists_print hholds hindex hfit
      refine ⟨[], true, r', ?_, rfl⟩
      rw [call, addHeader, if_neg hstate, if_neg (by omega), hprint]
      rfl
  | setBody data =>
      obtain ⟨hbody, hfit⟩ := hfits
      obtain ⟨xs, hholds, hindex⟩ := h.exists_holds (by omega)
      obtain ⟨r', hprint⟩ := exists_print (r := { r with body := some data }) hholds hindex hfit
      refine ⟨[], true, r', ?_, rfl⟩
      rw [call, setBody, if_neg hstate, if_neg (by omega), hbody, if_neg (by simp), hprint]
      rfl
  | send err =>
      have hindex : r.headerIndex < MAX_HEADER_SIZE - 3 := hfits
      obtain ⟨p, b, host, content, hopen⟩ := h.exists_open (by omega)
      obtain ⟨r', hsend, -⟩ := hopen.send_connects err ⟨hstate, hopen.port, hindex⟩
      exact ⟨_, _, r', hsend, ⟨host, r.port, rfl⟩, rfl⟩
  | onConnected => exact absurd hfits id

end Ready

/-! ### A response -/

section response

variable {callback : IHttpCallback κ} {k : κ}

/-- What the parser finds in a chunk with the head of a response. -/
theorem parse_head {head : Head} (hhead : CanonicalResponse head)
    (hsize : head.render.length ≤ 65535) (body : List UInt8) :
    ∃ h mem, HTTPHeader.new.parse (head.render ++ body) = some (true, h, mem ++ body) ∧
      mem.length = h.getHeaderSize := by
  obtain ⟨b, s, hsecond⟩ := List.exists_cons_of_ne_nil hhead.second_ne_nil
  have hcode := codeOf_digits (hsecond ▸ hhead.digits)
  rw [← hsecond] at hcode
  obtain ⟨h, mem, hparse, hlen, hholds, -⟩ :=
    HTTPHeader.parse_some .new (hhead.read_render body hcode)
  rw [List.drop_left] at hparse
  refine ⟨h, mem, hparse, ?_⟩
  rw [hlen, HTTPHeader.getHeaderSize, hholds.headerSize]
  exact (Nat.mod_eq_of_lt (Nat.lt_succ_of_le hsize)).symm

/-- **The chunk with the head**, with a callback that agrees. -/
theorem onRecv_head (hagrees : callback.Agrees) (hstate : r.state = .INIT) {head : Head}
    (hhead : CanonicalResponse head) (hsize : head.render.length ≤ 65535) (body : List UInt8) :
    ∃ h data more k', HTTPHeader.new.parse (head.render ++ body) = some (true, h, data) ∧
      r.onRecv (some callback) k (head.render ++ body) =
        some (.onHeaderReceived h data :: more, true, { r with state := .HEADER_RECEIVED }, k') ∧
      more.flatMap Notice.header = [] ∧ more.flatMap Notice.data = body := by
  obtain ⟨h, mem, hparse, hlen⟩ := parse_head hhead hsize body
  have hfits : h.getHeaderSize ≤ (mem ++ body).length := by
    rw [← hlen, List.length_append]
    exact Nat.le_add_right _ _
  have hdrop : (mem ++ body).drop h.getHeaderSize = body := by
    rw [← hlen, List.drop_left]
  obtain ⟨k₁, hheader⟩ := hagrees.notify k (.onHeaderReceived h (mem ++ body))
  obtain ⟨k₂, hdata⟩ := hagrees.notify k₁ (.onHttpData body)
  have hrecv : r.onRecv (some callback) k (head.render ++ body) =
      if 0 < body.length then
        some ([.onHeaderReceived h (mem ++ body), .onHttpData body], true,
          { r with state := .HEADER_RECEIVED }, k₂)
      else some ([.onHeaderReceived h (mem ++ body)], true,
        { r with state := .HEADER_RECEIVED }, k₁) := by
    rw [onRecv, hstate]
    dsimp only
    rw [hparse, Option.bind_eq_bind, Option.bind_some]
    dsimp only
    rw [if_neg (by decide), hheader]
    dsimp only
    rw [if_neg (by decide), guard, if_pos hfits, hdrop, hdata]
    rfl
  by_cases hbody : 0 < body.length
  · rw [if_pos hbody] at hrecv
    exact ⟨h, _, [.onHttpData body], k₂, hparse, hrecv, rfl, by simp [Notice.data]⟩
  · rw [if_neg hbody] at hrecv
    obtain rfl : body = [] := List.length_eq_zero_iff.1 (Nat.eq_zero_of_not_pos hbody)
    exact ⟨h, _, [], k₁, hparse, hrecv, rfl, rfl⟩

/-- **The chunks behind it** are passed on. -/
theorem receive_rest (hagrees : callback.Agrees) {chunks : List (List UInt8)} :
    ∀ {k : κ} {r : HTTPRequest}, r.state = .HEADER_RECEIVED →
      receive (some callback) k r chunks =
        some (chunks.map fun data => ⟨[.onHttpData data], true⟩) := by
  induction chunks with
  | nil =>
      intro k r _
      rfl
  | cons data chunks ih =>
      intro k r hstate
      obtain ⟨k₁, hdata⟩ := hagrees.notify k (.onHttpData data)
      have hrecv : r.onRecv (some callback) k data = some ([.onHttpData data], true, r, k₁) := by
        rw [onRecv, hstate]
        dsimp only
        rw [hdata]
      rw [receive, hrecv, Option.bind_eq_bind, Option.bind_some]
      dsimp only
      rw [if_pos rfl, ih hstate]
      rfl

/-- A request that is not at its start passes no header on. -/
theorem onRecv_no_header {callback : Option (IHttpCallback κ)} {data : List UInt8}
    {notices : List Notice} {k' : κ} (hstate : r.state ≠ .INIT)
    (h : r.onRecv callback k data = some (notices, ok, r', k')) :
    notices.flatMap Notice.header = [] := by
  rw [onRecv] at h
  split at h
  · rename_i hinit
    exact absurd hinit hstate
  · cases callback with
    | none =>
        cases h
        rfl
    | some callback =>
        cases h
        rfl
  · cases h
    rfl
  · cases h
    rfl

/-- When it has not passed a header on with the first chunk, the response has not been delivered. -/
theorem receive_no_header {callback : Option (IHttpCallback κ)} {data : List UInt8}
    {chunks : List (List UInt8)} {replies : List Reply} (hstate : r.state ≠ .INIT)
    (h : receive callback k r (data :: chunks) = some replies) :
    ∃ e rest, replies = e :: rest ∧ e.notices.flatMap Notice.header = [] := by
  rw [receive, Option.bind_eq_bind, Option.bind_eq_some_iff] at h
  obtain ⟨⟨notices, ok, r', k'⟩, hrecv, h⟩ := h
  have hnone := onRecv_no_header hstate hrecv
  dsimp only at h
  split at h
  · obtain ⟨rest, -, h⟩ := Option.bind_eq_some_iff.1 h
    cases h
    exact ⟨_, rest, rfl, hnone⟩
  · cases h
    exact ⟨_, [], rfl, hnone⟩

/-- **A response is delivered** to a request that is at its start. -/
theorem Ready.delivers (h : Ready r) (hagrees : callback.Agrees) {head : Head}
    (hhead : CanonicalResponse head) (hsize : head.render.length ≤ 65535) (body : List UInt8)
    (chunks : List (List UInt8)) : r.Delivers callback k head body chunks := by
  obtain ⟨header, data, more, k', hparse, hrecv, hheader, hdata⟩ :=
    onRecv_head hagrees h.state hhead hsize body
  have hrest : receive (some callback) k' { r with state := .HEADER_RECEIVED } chunks =
      some (chunks.map fun data => ⟨[.onHttpData data], true⟩) :=
    receive_rest hagrees rfl
  refine ⟨header, data, ⟨.onHeaderReceived header data :: more, true⟩ ::
    chunks.map fun data => ⟨[.onHttpData data], true⟩, hparse, ?_, ?_⟩
  · rw [receive, hrecv, Option.bind_eq_bind, Option.bind_some]
    dsimp only
    rw [if_pos rfl, hrest]
    rfl
  · constructor
    · simp [List.replicate_succ, Function.comp_def]
    · simp [Notice.header, hheader, Function.comp_def]
    · simp [Notice.data, hdata, List.flatMap_map]

end response

/-! ### A new request -/

/-- A request that is at its start starts clean. -/
theorem Ready.startsClean (h : Ready r) : r.StartsClean where
  accepts _ _ hafter _ hfits := (h.after hafter).accepts hfits
  delivers _ _ hafter _ _ hagrees _ _ hhead hsize body chunks :=
    (h.after hafter).delivers hagrees hhead hsize body chunks

/-- A request that is not at its start delivers no response. -/
theorem not_startsClean (hstate : r.state ≠ .INIT) : ¬ r.StartsClean := by
  intro hclean
  obtain ⟨header, data, replies, -, hreceive, hdelivered⟩ := hclean.delivers [] r rfl Unit
    ⟨fun _ _ _ => (true, ()), fun _ _ => (true, ())⟩ (fun _ n => by cases n <;> rfl) () _
    canonical_plain (by decide) [] []
  obtain ⟨e, rest, rfl, hnone⟩ := receive_no_header hstate hreceive
  have hheader := hdelivered.header
  rw [List.map_cons, hnone] at hheader
  cases hheader

/-- **A request starts clean if and only if the memory in the place of `m_state` held `INIT`**
before it was constructed, whatever else it held. -/
theorem starts_clean_iff (memory : Buffer (MAX_HEADER_SIZE + 2)) (word : ℕ) (host : CString)
    (port : UInt16) (hport : port ≠ 0) (command path : CString)
    (hfit : (host.chars ++ [0]).length + (requestLines command path host port).length <
      MAX_HEADER_SIZE - 2) :
    ∃ r, new memory (stateOf word) (some host) port (some command) (some path) = some r ∧
      (r.StartsClean ↔ word = 0) := by
  obtain ⟨r, hnew, hinv⟩ := exists_new_some memory (stateOf word) hport command path
  have hstate := new_state memory (stateOf word) hport command path hnew hfit
  refine ⟨r, hnew, ?_, ?_⟩
  · intro hclean
    by_contra hword
    refine not_startsClean ?_ hclean
    rw [hstate]
    exact mt stateOf_eq_INIT.1 hword
  · intro hword
    exact Ready.startsClean ⟨hstate.trans (stateOf_eq_INIT.2 hword), _, _, hinv⟩

/-- A request in memory that held zeros. -/
theorem starts_clean_iff_example :
    ∃ r, new (.filled _ 0) (stateOf 0) (some (.ofString "a")) 80 (some (.ofString "GET"))
        (some (.ofString "/")) = some r ∧ r.StartsClean := by
  obtain ⟨r, hnew, hclean⟩ := starts_clean_iff (.filled _ 0) 0 (.ofString "a") 80 (by decide)
    (.ofString "GET") (.ofString "/") (by decide +kernel)
  exact ⟨r, hnew, hclean.2 rfl⟩

/-- **A request has failed from the start** in memory that held the word of `FAIL`. -/
theorem starts_failed :
    ¬ ∀ (memory : Buffer (MAX_HEADER_SIZE + 2)) (word : ℕ) (host : CString) (port : UInt16)
      (command path : CString), port ≠ 0 →
        (host.chars ++ [0]).length + (requestLines command path host port).length <
          MAX_HEADER_SIZE - 2 →
          ∃ r, new memory (stateOf word) (some host) port (some command) (some path) = some r ∧
            r.StartsClean := by
  intro hall
  have hport : (80 : UInt16) ≠ 0 := by decide
  have hfit : ((CString.ofString "a").chars ++ [0]).length +
      (requestLines (.ofString "GET") (.ofString "/") (.ofString "a") 80).length <
        MAX_HEADER_SIZE - 2 := by
    decide +kernel
  obtain ⟨r, hnew, hclean⟩ := hall (.filled _ 0) 3 _ _ _ _ hport hfit
  have hstate := new_state _ _ hport _ _ hnew hfit
  refine not_startsClean ?_ hclean
  rw [hstate]
  decide

end HTTPRequest

end Http
