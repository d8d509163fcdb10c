/-
**The HTTP request.**

The model of `pico_http/http_request.cpp`: an `HTTPRequest` prints the lines of its header one
behind the other into `m_header`, behind the name of the host, and transmits them when its session
calls `on_connected`.  `send` ends the header in place before it connects.  What it transmits is
therefore the request that has been built if the connection comes after the first `send` that gets
as far as `connect`, and before anything else is printed; after another `send`, or with a line
behind the end of the header, it is not.

The memory of a new object holds arbitrary bytes, and the constructor sets `m_state` only when it
fails.  Strings are given by their characters.  `on_closed` deletes the object; it is not called
afterwards.

Main definitions:

* `Http.HTTPRequest` and its methods — the constructor `HTTPRequest.new`, `addHeader`, `setBody`,
  `send` and `onConnected`;
* `Http.HTTPRequest.Call`, `Http.HTTPRequest.run` — calls of them, and what they do;
* `Http.HTTPRequest.Built`, `Http.HTTPRequest.Transmits` — the request that has been built, and
  that it is what is transmitted;
* `Http.HTTPRequest.Phase`, `Http.HTTPRequest.connectedPhases` — how often the header has been
  ended, at each `on_connected`.

Main results:

* `Http.HTTPRequest.print_spec` — what is printed, and what happens when there is no room;
* `Http.HTTPRequest.Inv.call` — a call;
* `Http.HTTPRequest.transmits_iff` — **the request is transmitted if and only if the connection
  always comes right after the first `send`**.
-/

import PicoHttps.Http.Session

set_option relaxedAutoImplicit false
set_option autoImplicit false

namespace Http

def MAX_HEADER_SIZE : ℕ := 1000

/-- A string: characters, none of which is the zero byte that ends it. -/
structure CString where
  chars : List UInt8
  zero_notMem : 0 ∉ chars
  deriving DecidableEq

/-- The string of a literal. -/
def CString.ofString (s : String) : CString := ⟨(Text.ascii s).filter (· ≠ 0), by simp⟩

/-- A block of memory; no object has more bytes than an `int` can count. -/
structure Block where
  bytes : List UInt8
  length_lt : bytes.length < 2 ^ 31
  deriving DecidableEq

/-- The fields of `class HTTPRequest`, but for its session and the callback; `m_body` with
`m_bodyLen`. -/
structure HTTPRequest where
  state : HTTPSessionState
  port : UInt16
  headerStart : ℕ
  headerIndex : ℕ
  header : Buffer (MAX_HEADER_SIZE + 2)
  body : Option Block
  deriving DecidableEq

namespace HTTPRequest

/-! ### The lines of a header -/

/-- What the constructor prints. -/
def requestLines (command path host : CString) (port : UInt16) : List UInt8 :=
  command.chars ++ Text.ascii " " ++ path.chars ++ Text.ascii " HTTP/1.1\r\nHost: " ++ host.chars ++
    Text.ascii ":" ++ Text.decimal port.toNat ++ Text.ascii "\r\n"

/-- What `addHeader` prints. -/
def headerLine (header value : CString) : List UInt8 :=
  header.chars ++ Text.ascii ": " ++ value.chars ++ Text.ascii "\r\n"

/-- What `setBody` prints. -/
def contentLength (data : Block) : List UInt8 :=
  Text.ascii "Content-Length: " ++ Text.decimal data.bytes.length ++ Text.ascii "\r\n"

/-! ### The methods -/

/-- `snprintf` to the end of the header, which must stay below `limit`.  Without room the header
counts as full. -/
def print (r : HTTPRequest) (text : List UInt8) (limit : ℕ) : Option (Bool × HTTPRequest) := do
  let (header, written) ← r.header.snprintf r.headerIndex (MAX_HEADER_SIZE - r.headerIndex) text
  if r.headerIndex + written ≥ limit ∨ written < 0 then
    return (false, { r with header := header, headerIndex := MAX_HEADER_SIZE })
  else
    return (true, { r with header := header, headerIndex := (r.headerIndex + written).toNat })

/-- `HTTPRequest::HTTPRequest`, in memory that holds `memory`, with `state` in the place of
`m_state`. -/
def new (memory : Buffer (MAX_HEADER_SIZE + 2)) (state : HTTPSessionState) (host : Option CString)
    (port : UInt16) (command path : Option CString) : Option HTTPRequest :=
  let r : HTTPRequest := ⟨state, 443, 0, 0, memory, none⟩
  match host, command, path with
  | some host, some command, some path =>
    if port = 0 then some { r with state := .FAIL }
    else do
      -- first part of the buffer is the host
      let (header, written) ← r.header.snprintf 0 MAX_HEADER_SIZE host.chars
      let headerIndex := (written % 2 ^ 16).toNat
      if headerIndex ≥ MAX_HEADER_SIZE - 2 then
        return { r with header := header, headerIndex := headerIndex, state := .FAIL }
      else
        let r := { r with
          header := header, headerIndex := headerIndex + 1, headerStart := headerIndex + 1,
          port := port }
        let (ok, r) ← r.print (requestLines command path host port) (MAX_HEADER_SIZE - 2)
        return if ok then r else { r with state := .FAIL }
  | _, _, _ => some { r with state := .FAIL }

/-- `HTTPRequest::addHeader`. -/
def addHeader (r : HTTPRequest) (header value : CString) : Option (Bool × HTTPRequest) :=
  if r.state = .FAIL then some (false, r)
  else if r.headerIndex ≥ MAX_HEADER_SIZE then some (false, r)
  else r.print (headerLine header value) MAX_HEADER_SIZE

/-- `HTTPRequest::setBody`; `malloc` returns memory or does not return. -/
def setBody (r : HTTPRequest) (data : Block) : Option (Bool × HTTPRequest) :=
  if r.state = .FAIL then some (false, r)
  else if r.headerIndex ≥ MAX_HEADER_SIZE then some (false, r)
  else if r.body.isSome then some (false, r)
  else { r with body := some data }.print (contentLength data) MAX_HEADER_SIZE

/-- What is done with the session. -/
inductive Out
  | connect (host : List UInt8) (port : UInt16)
  | send (data : List UInt8)
  deriving DecidableEq, Repr

/-- The bytes that are transmitted. -/
def Out.data : Out → List UInt8
  | .connect _ _ => []
  | .send data => data

/-- `HTTPRequest::send`, when `m_connection.connect` returns `err`. -/
def send (r : HTTPRequest) (err : Tls.Err) : Option (List Out × Bool × HTTPRequest) :=
  if r.state = .FAIL then some ([], false, r)
  else if r.port = 0 then some ([], false, r)
  else if r.headerIndex ≥ MAX_HEADER_SIZE - 3 then some ([], false, r)
  else do
    let c ← (⟨r.header, r.headerIndex⟩ : Buffer.Cursor _).putAll [0x0d, 0x0a, 0]
    let r := { r with header := c.buffer, headerIndex := c.pos }
    let host ← Text.stringAt r.header.bytes 0
    return ([.connect host r.port], err = .ERR_OK, r)

/-- `HTTPRequest::on_connected`. -/
def onConnected (r : HTTPRequest) : Option (List Out) :=
  if r.headerIndex < r.headerStart + 1 then none
  else do
    let header ← r.header.slice r.headerStart (r.headerIndex - r.headerStart - 1)
    let body := match r.body with
      | some data => if 0 < data.bytes.length then [Out.send data.bytes] else []
      | none => []
    return .send header :: body

/-! ### Runs -/

/-- A call; with `send` goes what `m_connection.connect` returns, if it is called. -/
inductive Call
  | addHeader (header value : CString)
  | setBody (data : Block)
  | send (err : Tls.Err)
  | onConnected

/-- What a call does and returns, and what it leaves. -/
def call (r : HTTPRequest) : Call → Option (List Out × Bool × HTTPRequest)
  | .addHeader header value => (r.addHeader header value).map fun out => ([], out)
  | .setBody data => (r.setBody data).map fun out => ([], out)
  | .send err => r.send err
  | .onConnected => r.onConnected.map fun outs => (outs, true, r)

/-- A call that has returned. -/
structure Entry where
  call : Call
  outs : List Out
  ok : Bool

/-- Calls one after the other. -/
def run : HTTPRequest → List Call → Option (List Entry)
  | _, [] => some []
  | r, c :: calls => do
    let (outs, ok, r') ← r.call c
    let entries ← run r' calls
    return ⟨c, outs, ok⟩ :: entries

/-! ### The property -/

/-- The request that has been built: the text of its lines, its body, and whether there has not
been room for a line. -/
structure Built where
  text : List UInt8
  body : Option Block
  full : Bool

/-- What the constructor has built. -/
def Built.start (host : Option CString) (port : UInt16) (command path : Option CString)
    (state : HTTPSessionState) : Built where
  text := match host, command, path with
    | some host, some command, some path => requestLines command path host port
    | _, _, _ => []
  body := none
  full := state = .FAIL

/-- What a call adds to it. -/
def Built.next (b : Built) : Call → Bool → Built
  | .addHeader header value, true => { b with text := b.text ++ headerLine header value }
  | .setBody data, true => { b with text := b.text ++ contentLength data, body := some data }
  | .addHeader _ _, false => { b with full := true }
  -- a second body is not accepted, with room or without
  | .setBody _, false => { b with full := b.full || b.body.isNone }
  | .send _, _ => b
  | .onConnected, _ => b

/-- The bytes of the request. -/
def Built.bytes (b : Built) : List UInt8 :=
  b.text ++ [0x0d, 0x0a] ++ b.body.elim [] Block.bytes

/-- What a call should do: `on_connected` transmits exactly the request that has been built.  Once
there has not been room for a line, it transmits nothing, and every `send` fails. -/
def Built.Meets (b : Built) (e : Entry) : Prop :=
  match e.call with
  | .send _ => b.full = true → e.ok = false ∧ e.outs = []
  | .onConnected => e.outs.flatMap Out.data = if b.full then [] else b.bytes
  | _ => True

/-- **Exactly the request that has been built is transmitted.** -/
def Transmits : Built → List Entry → Prop
  | _, [] => True
  | b, e :: entries => b.Meets e ∧ Transmits (b.next e.call e.ok) entries

instance (b : Built) : ∀ e : Entry, Decidable (b.Meets e)
  | ⟨.send _, _, _⟩ => inferInstanceAs (Decidable (_ → _ ∧ _))
  | ⟨.onConnected, _, _⟩ => inferInstanceAs (Decidable (_ = _))
  | ⟨.addHeader _ _, _, _⟩ => .isTrue trivial
  | ⟨.setBody _, _, _⟩ => .isTrue trivial

instance decidableTransmits : ∀ (b : Built) (entries : List Entry), Decidable (Transmits b entries)
  | _, [] => .isTrue trivial
  | b, e :: entries =>
    have := decidableTransmits (b.next e.call e.ok) entries
    inferInstanceAs (Decidable (_ ∧ _))

/-! ### The condition -/

/-- How often the header has been ended: not yet; once, and nothing has been printed since; or
otherwise. -/
inductive Phase
  | building
  | ended
  | spoiled
  deriving DecidableEq, Repr

/-- After a line. -/
def Phase.printed : Phase → Phase
  | .building => .building
  | _ => .spoiled

/-- After the end of the header. -/
def Phase.finished : Phase → Phase
  | .building => .ended
  | _ => .spoiled

/-- `send` comes to `m_connection.connect`. -/
def Connects (r : HTTPRequest) : Prop :=
  r.state ≠ .FAIL ∧ r.port ≠ 0 ∧ r.headerIndex < MAX_HEADER_SIZE - 3

/-- There is room for a line. -/
def HasRoom (r : HTTPRequest) : Prop := r.state ≠ .FAIL ∧ r.headerIndex < MAX_HEADER_SIZE

instance (r : HTTPRequest) : Decidable r.Connects := inferInstanceAs (Decidable (_ ∧ _ ∧ _))

instance (r : HTTPRequest) : Decidable r.HasRoom := inferInstanceAs (Decidable (_ ∧ _))

/-- The phase after a call. -/
def Phase.next (p : Phase) (r : HTTPRequest) : Call → Phase
  | .addHeader _ _ => if r.HasRoom then p.printed else p
  | .setBody _ => if r.HasRoom ∧ r.body = none then p.printed else p
  | .send _ => if r.Connects then p.finished else p
  | .onConnected => p

/-- The phase, if a call is `on_connected`. -/
def Phase.connected (p : Phase) : Call → List Phase
  | .onConnected => [p]
  | _ => []

/-- The phases in which `on_connected` is called. -/
def connectedPhases : Phase → HTTPRequest → List Call → List Phase
  | _, _, [] => []
  | p, r, c :: calls =>
    p.connected c ++ (r.call c).elim [] fun out => connectedPhases (p.next r c) out.2.2 calls

theorem Phase.forall_mem_connected {p : Phase} {c : Call} {P : Phase → Prop} :
    (∀ q ∈ p.connected c, P q) ↔ (c = .onConnected → P p) := by
  cases c <;> simp [Phase.connected]

/-! ### What is printed -/

variable {p : Phase} {b : Built} {r : HTTPRequest}

theorem zero_notMem_requestLines (command path host : CString) (port : UInt16) :
    0 ∉ requestLines command path host port := by
  have hdec := Text.zero_notMem_decimal port.toNat
  simp [requestLines, Text.ascii, command.zero_notMem, path.zero_notMem, host.zero_notMem, hdec]

theorem zero_notMem_headerLine (header value : CString) : 0 ∉ headerLine header value := by
  simp [headerLine, Text.ascii, header.zero_notMem, value.zero_notMem]

theorem zero_notMem_contentLength (data : Block) : 0 ∉ contentLength data := by
  have hdec := Text.zero_notMem_decimal data.bytes.length
  simp [contentLength, Text.ascii, hdec]

/-- Printing a line for which there is room. -/
theorem print_fits {xs text : List UInt8} {limit : ℕ} (hholds : r.header.Holds xs)
    (hindex : r.headerIndex = xs.length) (hlimit : limit ≤ MAX_HEADER_SIZE)
    (hfit : xs.length + text.length < limit) :
    ∃ header, r.print text limit = some (true,
        { r with header := header, headerIndex := xs.length + text.length }) ∧
      header.Holds (xs ++ text) := by
  rw [MAX_HEADER_SIZE] at hlimit
  have hroom : text.length < MAX_HEADER_SIZE - xs.length := by
    rw [MAX_HEADER_SIZE]
    omega
  obtain ⟨header, hprint, hheader⟩ := hholds.snprintf text hroom (by omega)
  have hprinted : Buffer.printed text = text.length := if_pos (by omega)
  have hsum : ((xs.length : ℤ) + text.length).toNat = xs.length + text.length := by omega
  refine ⟨header, ?_, ?_⟩
  · rw [print, hindex, hprint, hprinted, Option.bind_eq_bind, Option.bind_some]
    dsimp only
    rw [if_neg (by omega), hsum]
    rfl
  · rw [← List.append_assoc] at hheader
    exact (List.prefix_append (xs ++ text) [0]).trans hheader

/-- Printing a line for which there is no room. -/
theorem print_overflows {text : List UInt8} {limit : ℕ} (hindex : r.headerIndex ≤ MAX_HEADER_SIZE)
    (hlimit : limit ≤ r.headerIndex + text.length) :
    ∃ header, r.print text limit = some (false,
      { r with header := header, headerIndex := MAX_HEADER_SIZE }) := by
  have hroom : r.headerIndex + (MAX_HEADER_SIZE - r.headerIndex) ≤ MAX_HEADER_SIZE + 2 := by omega
  obtain ⟨header, hprint⟩ := r.header.exists_snprintf text hroom
  refine ⟨header, ?_⟩
  rw [print, hprint, Option.bind_eq_bind, Option.bind_some]
  dsimp only
  rw [if_pos]
  · rfl
  · -- a text that is longer than an `int` can tell is an error
    rw [Buffer.printed]
    split <;> omega

/-! ### The invariant -/

/-- What stands behind the host in the header, for the text of the lines that have been built. -/
def Phase.Shows : Phase → List UInt8 → List UInt8 → Prop
  | .building, text, content => content = text
  | .ended, text, content => content = text ++ [0x0d, 0x0a, 0]
  | .spoiled, _, content => 0 ∈ content.dropLast

/-- A request to which more can be added: behind the host and its zero byte stands `content`. -/
structure Open (p : Phase) (b : Built) (host content : List UInt8) (r : HTTPRequest) : Prop where
  state : r.state ≠ .FAIL
  port : r.port ≠ 0
  start : r.headerStart = (host ++ [0]).length
  start_lt : r.headerStart + 1 < MAX_HEADER_SIZE
  index : r.headerIndex = (host ++ [0]).length + content.length
  room : r.headerIndex < MAX_HEADER_SIZE
  holds : r.header.Holds (host ++ [0] ++ content)
  body : r.body = b.body
  host : 0 ∉ host
  text : 0 ∉ b.text
  full : b.full = false
  shows : p.Shows b.text content

/-- What is known of a request between two calls. -/
inductive Inv (p : Phase) (b : Built) (r : HTTPRequest) : Prop
  | failed : r.state = .FAIL → b.full = true → p = .building → Inv p b r
  | full : r.headerIndex = MAX_HEADER_SIZE → r.headerStart + 1 < MAX_HEADER_SIZE →
      b.full = true → p ≠ .ended → Inv p b r
  | opened {host content : List UInt8} : Open p b host content r → Inv p b r

/-- What stands in front of more is not the last. -/
theorem mem_dropLast_append {x : UInt8} {xs ys : List UInt8} (hx : x ∈ xs) (hys : ys ≠ []) :
    x ∈ (xs ++ ys).dropLast := by
  rw [List.dropLast_append_of_ne_nil hys]
  exact List.mem_append_left _ hx

theorem Phase.Shows.printed {text content line : List UInt8} (h : p.Shows text content)
    (hline : line ≠ []) : p.printed.Shows (text ++ line) (content ++ line) := by
  cases p with
  | building => exact congrArg (· ++ line) h
  | ended =>
      obtain rfl : content = text ++ [0x0d, 0x0a, 0] := h
      exact mem_dropLast_append (by simp) hline
  | spoiled => exact mem_dropLast_append (List.dropLast_subset _ h) hline

theorem Phase.Shows.finished {text content : List UInt8} (h : p.Shows text content) :
    p.finished.Shows text (content ++ [0x0d, 0x0a, 0]) := by
  cases p with
  | building => exact congrArg (· ++ [0x0d, 0x0a, 0]) h
  | ended =>
      obtain rfl : content = text ++ [0x0d, 0x0a, 0] := h
      exact mem_dropLast_append (by simp) (by simp)
  | spoiled => exact mem_dropLast_append (List.dropLast_subset _ h) (by simp)

theorem Phase.Shows.ne_nil {text content : List UInt8} (h : p.Shows text content)
    (hp : p ≠ .building) : content ≠ [] := by
  rintro rfl
  cases p with
  | building => exact hp rfl
  | ended => simp [Phase.Shows] at h
  | spoiled => cases h

/-- **The end of the header is where it should be** exactly if it has been written once. -/
theorem Phase.Shows.dropLast_iff {text content : List UInt8} (h : p.Shows text content)
    (hp : p ≠ .building) (htext : 0 ∉ text) :
    content.dropLast = text ++ [0x0d, 0x0a] ↔ p = .ended := by
  cases p with
  | building => exact absurd rfl hp
  | ended =>
      obtain rfl : content = text ++ [0x0d, 0x0a, 0] := h
      rw [List.dropLast_append_of_ne_nil (by simp)]
      exact ⟨fun _ => rfl, fun _ => rfl⟩
  | spoiled =>
      have hmem : 0 ∈ content.dropLast := h
      refine ⟨fun heq => ?_, nofun⟩
      rw [heq] at hmem
      simp [htext] at hmem

theorem Phase.printed_ne_ended : p.printed ≠ .ended := by cases p <;> nofun

/-! ### The calls -/

theorem addHeader_refused (header value : CString) (h : ¬ r.HasRoom) :
    r.addHeader header value = some (false, r) := by
  rw [addHeader]
  split_ifs with hstate hindex
  · rfl
  · rfl
  · exact absurd ⟨hstate, Nat.lt_of_not_le hindex⟩ h

theorem setBody_refused (data : Block) (h : ¬ r.HasRoom) : r.setBody data = some (false, r) := by
  rw [setBody]
  split_ifs with hstate hindex
  · rfl
  · rfl
  · rfl
  · exact absurd ⟨hstate, Nat.lt_of_not_le hindex⟩ h

theorem send_refused (err : Tls.Err) (h : ¬ r.Connects) : r.send err = some ([], false, r) := by
  rw [send]
  split_ifs with hstate hport hindex
  · rfl
  · rfl
  · rfl
  · exact absurd ⟨hstate, hport, Nat.lt_of_not_le hindex⟩ h

namespace Open

variable {host content : List UInt8}

theorem hasRoom (h : Open p b host content r) : r.HasRoom := ⟨h.state, h.room⟩

/-- **Printing a line**, with room or without. -/
theorem print (h : Open p b host content r) {line : List UInt8} (hzero : 0 ∉ line)
    (hline : line ≠ []) :
    (∃ r', r.print line MAX_HEADER_SIZE = some (true, r') ∧
      Open p.printed { b with text := b.text ++ line } host (content ++ line) r') ∨
    ∃ r', r.print line MAX_HEADER_SIZE = some (false, r') ∧
      r'.headerIndex = MAX_HEADER_SIZE ∧ r'.headerStart + 1 < MAX_HEADER_SIZE := by
  have hlen : (host ++ [0] ++ content).length = (host ++ [0]).length + content.length :=
    List.length_append
  have hindex := h.index
  have hroom := h.room
  rcases Nat.lt_or_ge (r.headerIndex + line.length) MAX_HEADER_SIZE with hfit | hover
  · have hfits : (host ++ [0] ++ content).length + line.length < MAX_HEADER_SIZE := by omega
    obtain ⟨header, hprint, hheader⟩ :=
      print_fits h.holds (h.index.trans hlen.symm) (Nat.le_refl _) hfits
    refine .inl ⟨_, hprint, h.state, h.port, h.start, h.start_lt, ?_, hfits, ?_, h.body, h.host, ?_,
      h.full, h.shows.printed hline⟩
    · have hmore : (content ++ line).length = content.length + line.length := List.length_append
      change (host ++ [0] ++ content).length + line.length = _
      rw [hlen, hmore, Nat.add_assoc]
    · rwa [← List.append_assoc]
    · exact fun hmem => (List.mem_append.1 hmem).elim h.text hzero
  · obtain ⟨header, hprint⟩ := print_overflows (r := r) (Nat.le_of_lt hroom) hover
    exact .inr ⟨_, hprint, rfl, h.start_lt⟩

theorem addHeader (h : Open p b host content r) (header value : CString) :
    ∃ ok r', r.addHeader header value = some (ok, r') ∧
      Inv (p.next r (.addHeader header value)) (b.next (.addHeader header value) ok) r' := by
  have hline : headerLine header value ≠ [] := by simp [headerLine, Text.ascii]
  rw [HTTPRequest.addHeader, if_neg h.state, if_neg (Nat.not_le_of_lt h.room), Phase.next,
    if_pos h.hasRoom]
  rcases h.print (zero_notMem_headerLine header value) hline with
    ⟨r', hprint, hopen⟩ | ⟨r', hprint, hindex, hstart⟩
  · exact ⟨true, r', hprint, .opened hopen⟩
  · exact ⟨false, r', hprint, .full hindex hstart rfl Phase.printed_ne_ended⟩

theorem setBody (h : Open p b host content r) (data : Block) :
    ∃ ok r', r.setBody data = some (ok, r') ∧
      Inv (p.next r (.setBody data)) (b.next (.setBody data) ok) r' := by
  rw [HTTPRequest.setBody, if_neg h.state, if_neg (Nat.not_le_of_lt h.room), Phase.next]
  cases hbody : r.body with
  | some data' =>
      -- the body has been set before
      have hfull : (b.full || b.body.isNone) = b.full := by
        rw [← h.body, hbody, Option.isNone_some, Bool.or_false]
      have hnext : b.next (.setBody data) false = b := by
        rw [Built.next, hfull]
      rw [if_pos Option.isSome_some, if_neg (show ¬ (r.HasRoom ∧ some data' = none) by simp)]
      exact ⟨false, r, rfl, hnext.symm ▸ .opened h⟩
  | none =>
      have hline : contentLength data ≠ [] := by simp [contentLength, Text.ascii]
      have hopen : Open p { b with body := some data } host content
          { r with body := some data } :=
        ⟨h.state, h.port, h.start, h.start_lt, h.index, h.room, h.holds, rfl, h.host, h.text,
          h.full, h.shows⟩
      rw [if_neg (by simp), if_pos ⟨h.hasRoom, rfl⟩]
      rcases hopen.print (zero_notMem_contentLength data) hline with
        ⟨r', hprint, hopen'⟩ | ⟨r', hprint, hindex, hstart⟩
      · exact ⟨true, r', hprint, .opened hopen'⟩
      · refine ⟨false, r', hprint, .full hindex hstart ?_ Phase.printed_ne_ended⟩
        rw [Built.next, ← h.body, hbody]
        exact Bool.or_true _

/-- **Ending the header**, when there is room for its end. -/
theorem send_connects (h : Open p b host content r) (err : Tls.Err) (hconnects : r.Connects) :
    ∃ r', r.send err = some ([Out.connect host r.port], decide (err = .ERR_OK), r') ∧
      Open p.finished b host (content ++ [0x0d, 0x0a, 0]) r' := by
  have hlen : (host ++ [0] ++ content).length = (host ++ [0]).length + content.length :=
    List.length_append
  have hindex := h.index
  have hlt := hconnects.2.2
  rw [MAX_HEADER_SIZE] at hlt
  have hfilled : (⟨r.header, r.headerIndex⟩ : Buffer.Cursor _).Filled (host ++ [0] ++ content) :=
    ⟨h.holds, h.index.trans hlen.symm⟩
  have hend : ([0x0d, 0x0a, 0] : List UInt8).length = 3 := rfl
  obtain ⟨c, hput, hc⟩ := hfilled.putAll [0x0d, 0x0a, 0] (by rw [MAX_HEADER_SIZE]; omega)
  -- the host is still there, with the zero byte behind it
  have hhost : Text.stringAt c.buffer.bytes 0 = some host := by
    obtain ⟨rest, hrest⟩ := hc.holds
    have hpoints := Text.pointsTo_append [] host (content ++ [0x0d, 0x0a, 0] ++ rest)
    refine Text.stringAt_of_pointsTo ?_ h.host
    rw [← hrest]
    simpa using hpoints
  have hpos := hc.pos_eq
  rw [List.length_append, hlen, ← hindex, hend] at hpos
  have hopen : Open p.finished b host (content ++ [0x0d, 0x0a, 0])
      { r with header := c.buffer, headerIndex := c.pos } := by
    refine ⟨h.state, h.port, h.start, h.start_lt, ?_, ?_, ?_, h.body, h.host, h.text, h.full,
      h.shows.finished⟩
    · have hmore : (content ++ [0x0d, 0x0a, 0]).length = content.length + _ := List.length_append
      change c.pos = _
      rw [hpos, hindex, hmore, hend, Nat.add_assoc]
    · change c.pos < MAX_HEADER_SIZE
      rw [hpos, MAX_HEADER_SIZE]
      omega
    · rw [← List.append_assoc]
      exact hc.holds
  refine ⟨_, ?_, hopen⟩
  rw [HTTPRequest.send, if_neg hconnects.1, if_neg hconnects.2.1,
    if_neg (Nat.not_le_of_lt hconnects.2.2), hput]
  dsimp only [Option.bind_eq_bind, Option.bind_some]
  rw [hhost]
  rfl

/-- **`send`**, with room for the end of the header or without. -/
theorem send (h : Open p b host content r) (err : Tls.Err) :
    ∃ outs ok r', r.send err = some (outs, ok, r') ∧ Inv (p.next r (.send err)) b r' := by
  rw [Phase.next]
  by_cases hconnects : r.Connects
  · obtain ⟨r', hsend, hopen⟩ := h.send_connects err hconnects
    rw [if_pos hconnects]
    exact ⟨_, _, r', hsend, .opened hopen⟩
  · rw [if_neg hconnects]
    exact ⟨[], false, r, send_refused err hconnects, .opened h⟩

/-- **What is transmitted** is the header but for its last byte, and the body. -/
theorem onConnected (h : Open p b host content r) (hcontent : content ≠ []) :
    ∃ outs, r.onConnected = some outs ∧
      outs.flatMap Out.data = content.dropLast ++ b.body.elim [] Block.bytes := by
  have hpos := List.length_pos_iff.2 hcontent
  have hsplit : content = content.dropLast ++ [content.getLast hcontent] :=
    (List.dropLast_append_getLast hcontent).symm
  have hslice : r.header.slice r.headerStart (r.headerIndex - r.headerStart - 1) =
      some content.dropLast := by
    have hholds := h.holds
    rw [hsplit] at hholds
    rw [h.index, h.start, Nat.add_sub_cancel_left, ← List.length_dropLast]
    exact hholds.slice
  refine ⟨_, by rw [HTTPRequest.onConnected, if_neg (by rw [h.index, h.start]; omega), hslice]; rfl,
    ?_⟩
  rw [List.flatMap_cons, h.body, Out.data]
  congr 1
  cases b.body with
  | none => rfl
  | some data =>
      dsimp only
      split_ifs with hdata
      · simp [Out.data]
      · simp at hdata
        simp [hdata]

end Open

theorem Connects.hasRoom (h : r.Connects) : r.HasRoom := by
  refine ⟨h.1, ?_⟩
  have hlt := h.2.2
  rw [MAX_HEADER_SIZE] at hlt ⊢
  omega

/-- Once there has not been room for a line, every call is refused. -/
theorem call_refused (hfull : b.full = true) (hroom : ¬ r.HasRoom) {c : Call}
    (hc : c ≠ .onConnected) : r.call c = some ([], false, r) ∧ p.next r c = p ∧
      (b.next c false).full = true ∧ b.Meets ⟨c, [], false⟩ := by
  cases c with
  | addHeader header value =>
      refine ⟨?_, if_neg hroom, rfl, trivial⟩
      rw [call, addHeader_refused header value hroom]
      rfl
  | setBody data =>
      refine ⟨?_, if_neg fun h => hroom h.1, ?_, trivial⟩
      · rw [call, setBody_refused data hroom]
        rfl
      · change (b.full || b.body.isNone) = true
        rw [hfull, Bool.true_or]
  | send err =>
      have hconnects : ¬ r.Connects := fun h => hroom h.hasRoom
      exact ⟨send_refused err hconnects, if_neg hconnects, hfull, fun _ => ⟨rfl, rfl⟩⟩
  | onConnected => exact absurd rfl hc

/-- When there is no room for another line, what is transmitted is not the request. -/
theorem onConnected_full (hindex : r.headerIndex = MAX_HEADER_SIZE)
    (hstart : r.headerStart + 1 < MAX_HEADER_SIZE) :
    ∃ outs, r.onConnected = some outs ∧ outs.flatMap Out.data ≠ [] := by
  have hread : r.headerStart + (MAX_HEADER_SIZE - r.headerStart - 1) ≤ MAX_HEADER_SIZE + 2 := by
    omega
  have hslice : r.header.slice r.headerStart (MAX_HEADER_SIZE - r.headerStart - 1) = some
      ((r.header.bytes.drop r.headerStart).take (MAX_HEADER_SIZE - r.headerStart - 1)) :=
    if_pos hread
  refine ⟨_, by rw [onConnected, hindex, if_neg (by omega), hslice]; rfl, ?_⟩
  rw [List.flatMap_cons, Out.data]
  refine List.append_ne_nil_of_left_ne_nil ?_ _
  rw [← List.length_pos_iff, List.length_take, List.length_drop, r.header.length_bytes]
  omega

/-- **A call** returns, and does what it should exactly if it is no `on_connected` in another phase
than after the first end of the header. -/
theorem Inv.call (h : Inv p b r) (c : Call) (hc : c = .onConnected → p ≠ .building) :
    ∃ outs ok r', r.call c = some (outs, ok, r') ∧ Inv (p.next r c) (b.next c ok) r' ∧
      (b.Meets ⟨c, outs, ok⟩ ↔ (c = .onConnected → p = .ended)) := by
  cases h with
  | failed hstate hfull hp =>
      have hne : c ≠ .onConnected := fun h => hc h hp
      obtain ⟨hcall, hnext, hfull', hmeets⟩ :=
        call_refused (p := p) hfull (fun h => h.1 hstate) hne
      exact ⟨[], false, r, hcall, .failed hstate hfull' (hnext.trans hp),
        fun _ h => absurd h hne, fun _ => hmeets⟩
  | full hindex hstart hfull hp =>
      -- only `on_connected` still does something, and it should not
      by_cases hconnected : c = .onConnected
      · subst hconnected
        obtain ⟨outs, hcall, hdata⟩ := onConnected_full hindex hstart
        refine ⟨outs, true, r, by rw [HTTPRequest.call, hcall]; rfl, .full hindex hstart hfull hp,
          fun hmeets => absurd ?_ hdata, fun h => absurd (h rfl) hp⟩
        exact hmeets.trans (if_pos hfull)
      · have hroom : ¬ r.HasRoom := fun h => Nat.lt_irrefl _ (hindex ▸ h.2)
        obtain ⟨hcall, hnext, hfull', hmeets⟩ := call_refused (p := p) hfull hroom hconnected
        exact ⟨[], false, r, hcall, .full hindex hstart hfull' (by rwa [hnext]),
          fun _ h => absurd h hconnected, fun _ => hmeets⟩
  | @opened host content h =>
      cases c with
      | addHeader header value =>
          obtain ⟨ok, r', hcall, hinv⟩ := h.addHeader header value
          exact ⟨[], ok, r', by rw [HTTPRequest.call, hcall]; rfl, hinv, fun _ => nofun,
            fun _ => trivial⟩
      | setBody data =>
          obtain ⟨ok, r', hcall, hinv⟩ := h.setBody data
          exact ⟨[], ok, r', by rw [HTTPRequest.call, hcall]; rfl, hinv, fun _ => nofun,
            fun _ => trivial⟩
      | send err =>
          obtain ⟨outs, ok, r', hcall, hinv⟩ := h.send err
          refine ⟨outs, ok, r', hcall, hinv, fun _ => nofun, fun _ hfull => ?_⟩
          cases h.full.symm.trans hfull
      | onConnected =>
          have hp := hc rfl
          obtain ⟨outs, hcall, hdata⟩ := h.onConnected (h.shows.ne_nil hp)
          refine ⟨outs, true, r, by rw [HTTPRequest.call, hcall]; rfl, .opened h, ?_⟩
          have hmeets : b.Meets ⟨.onConnected, outs, true⟩ ↔
              outs.flatMap Out.data = if b.full then [] else b.bytes := Iff.rfl
          rw [hmeets, hdata, h.full, if_neg Bool.false_ne_true, Built.bytes,
            List.append_left_inj, h.shows.dropLast_iff hp h.text]
          exact ⟨fun h _ => h, fun h => h rfl⟩

/-! ### The constructor -/

theorem length_le_requestLines (command path host : CString) (port : UInt16) :
    host.chars.length ≤ (requestLines command path host port).length := by
  simp only [requestLines, List.length_append]
  omega

/-- A request in which the host has been printed, and nothing else. -/
structure Begun (host : CString) (port : UInt16) (r : HTTPRequest) : Prop where
  port : r.port = port
  start : r.headerStart = (host.chars ++ [0]).length
  index : r.headerIndex = (host.chars ++ [0]).length
  start_lt : r.headerStart + 1 < MAX_HEADER_SIZE
  holds : r.header.Holds (host.chars ++ [0])
  body : r.body = none

section new

variable (memory : Buffer (MAX_HEADER_SIZE + 2)) (state : HTTPSessionState) {host : CString}
  {port : UInt16} (hport : port ≠ 0) (command path : CString)

include hport

/-- The constructor goes on when the host fits. -/
theorem new_begun (hfit : host.chars.length < MAX_HEADER_SIZE - 2) :
    ∃ r, r.state = state ∧ Begun host port r ∧
      new memory state (some host) port (some command) (some path) =
        (r.print (requestLines command path host port) (MAX_HEADER_SIZE - 2)).map fun out =>
          if out.1 then out.2 else { out.2 with state := .FAIL } := by
  have hlt : host.chars.length < MAX_HEADER_SIZE := by omega
  have hlen : (host.chars ++ [0]).length = host.chars.length + 1 := by
    rw [List.length_append, List.length_singleton]
  have hindex : (Buffer.printed host.chars % 2 ^ 16).toNat = host.chars.length := by
    rw [MAX_HEADER_SIZE] at hlt
    rw [Buffer.printed, if_pos (by omega)]
    omega
  obtain ⟨header, hprint, hholds⟩ :=
    (Buffer.holds_nil memory).snprintf host.chars hlt (by rw [MAX_HEADER_SIZE]; decide)
  rw [List.length_nil] at hprint
  refine ⟨⟨state, port, host.chars.length + 1, host.chars.length + 1, header, none⟩, rfl,
    ⟨rfl, hlen.symm, hlen.symm, ?_, hholds, rfl⟩, ?_⟩
  · change host.chars.length + 1 + 1 < MAX_HEADER_SIZE
    omega
  · rw [new]
    dsimp only
    rw [if_neg hport, hprint, Option.bind_eq_bind, Option.bind_some]
    dsimp only
    rw [hindex, if_neg (Nat.not_le_of_lt hfit), Option.bind_eq_bind, Option.map_eq_bind]
    rfl

/-- A host that is too long for the index is too long for the lines behind it, too. -/
theorem new_long (hover : MAX_HEADER_SIZE - 2 ≤ host.chars.length) :
    ∃ r, new memory state (some host) port (some command) (some path) = some r ∧
      r.state = .FAIL := by
  have hlines := length_le_requestLines command path host port
  have hroom : 0 + MAX_HEADER_SIZE ≤ MAX_HEADER_SIZE + 2 := by omega
  obtain ⟨header, hprint⟩ := memory.exists_snprintf host.chars hroom
  rw [new]
  dsimp only
  rw [if_neg hport, hprint, Option.bind_eq_bind, Option.bind_some]
  dsimp only
  split
  · exact ⟨_, rfl, rfl⟩
  · rename_i hindex
    generalize hr : (⟨state, port, (Buffer.printed host.chars % 2 ^ 16).toNat + 1,
      (Buffer.printed host.chars % 2 ^ 16).toNat + 1, header, none⟩ : HTTPRequest) = r
    have hr' : r.headerIndex = (Buffer.printed host.chars % 2 ^ 16).toNat + 1 := by rw [← hr]
    have hover' : MAX_HEADER_SIZE - 2 ≤
        r.headerIndex + (requestLines command path host port).length := by omega
    obtain ⟨header', hprint'⟩ := print_overflows (r := r) (by omega) hover'
    refine ⟨_, by rw [hprint']; rfl, ?_⟩
    rfl

/-- The constructor does not set `m_state` when everything fits. -/
theorem new_state {r : HTTPRequest}
    (hnew : new memory state (some host) port (some command) (some path) = some r)
    (hfit : (host.chars ++ [0]).length + (requestLines command path host port).length <
      MAX_HEADER_SIZE - 2) : r.state = state := by
  have hlen : (host.chars ++ [0]).length = host.chars.length + 1 := List.length_append
  have hhost : host.chars.length < MAX_HEADER_SIZE - 2 := by omega
  obtain ⟨r₀, hstate, hr, hprinted⟩ := new_begun memory state hport command path hhost
  obtain ⟨header, hprint, -⟩ := print_fits hr.holds hr.index (Nat.sub_le _ _) hfit
  rw [hprinted, hprint] at hnew
  cases hnew
  exact hstate

/-- The constructor, when its parameters are good. -/
theorem exists_new_some :
    ∃ r, new memory state (some host) port (some command) (some path) = some r ∧
      Inv .building (Built.start (some host) port (some command) (some path) r.state) r := by
  have hfailed {r : HTTPRequest} (h : r.state = .FAIL) :
      Inv .building (Built.start (some host) port (some command) (some path) r.state) r :=
    .failed h (decide_eq_true h) rfl
  rcases Nat.lt_or_ge host.chars.length (MAX_HEADER_SIZE - 2) with hfit | hover
  · obtain ⟨r, -, hr, hnew⟩ := new_begun memory state hport command path hfit
    have hstart_lt := hr.start_lt
    have hindex := hr.index
    rw [hr.start, ← hindex] at hstart_lt
    rcases Nat.lt_or_ge ((host.chars ++ [0]).length + (requestLines command path host port).length)
      (MAX_HEADER_SIZE - 2) with hfit' | hover'
    · obtain ⟨header, hprint, hholds⟩ := print_fits hr.holds hindex (Nat.sub_le _ _) hfit'
      refine ⟨_, by rw [hnew, hprint]; rfl, ?_⟩
      by_cases hstate : r.state = .FAIL
      · exact hfailed hstate
      · have hzero := zero_notMem_requestLines command path host port
        refine .opened ⟨hstate, ?_, hr.start, hr.start_lt, rfl, ?_, hholds, hr.body,
          host.zero_notMem, hzero, decide_eq_false hstate, rfl⟩
        · exact hr.port.symm ▸ hport
        · change (host.chars ++ [0]).length + _ < _
          omega
    · rw [← hindex] at hover'
      obtain ⟨header, hprint⟩ := print_overflows (r := r) (by omega) hover'
      refine ⟨_, by rw [hnew, hprint]; rfl, ?_⟩
      exact hfailed rfl
  · obtain ⟨r, hnew, hstate⟩ := new_long memory state hport command path hover
    exact ⟨r, hnew, hfailed hstate⟩

end new

/-- **The constructor** returns, with a request that is open or has failed. -/
theorem exists_new (memory : Buffer (MAX_HEADER_SIZE + 2)) (state : HTTPSessionState)
    (host : Option CString) (port : UInt16) (command path : Option CString) :
    ∃ r, new memory state host port command path = some r ∧
      Inv .building (Built.start host port command path r.state) r := by
  cases host with
  | none => exact ⟨_, rfl, .failed rfl rfl rfl⟩
  | some host =>
      cases command with
      | none => exact ⟨_, rfl, .failed rfl rfl rfl⟩
      | some command =>
          cases path with
          | none => exact ⟨_, rfl, .failed rfl rfl rfl⟩
          | some path =>
              by_cases hport : port = 0
              · exact ⟨_, if_pos hport, .failed rfl rfl rfl⟩
              · exact exists_new_some memory state hport command path

/-! ### Every run -/

/-- **A run** returns, and transmits the request exactly if it is always transmitted after the
first end of the header. -/
theorem Inv.run (calls : List Call) : ∀ {p : Phase} {b : Built} {r : HTTPRequest}, Inv p b r →
    (∀ q ∈ connectedPhases p r calls, q ≠ .building) →
      ∃ entries, r.run calls = some entries ∧
        (Transmits b entries ↔ ∀ q ∈ connectedPhases p r calls, q = .ended) := by
  induction calls with
  | nil =>
      intro p b r _ _
      exact ⟨[], rfl, fun _ => nofun, fun _ => trivial⟩
  | cons c calls ih =>
      intro p b r h hlegal
      rw [connectedPhases, List.forall_mem_append, Phase.forall_mem_connected] at hlegal
      obtain ⟨outs, ok, r', hcall, hinv, hmeets⟩ := h.call c hlegal.1
      rw [hcall] at hlegal
      obtain ⟨entries, hrun, hiff⟩ := ih hinv hlegal.2
      refine ⟨⟨c, outs, ok⟩ :: entries, ?_, ?_⟩
      · rw [HTTPRequest.run, hcall]
        dsimp only [Option.bind_eq_bind, Option.bind_some]
        rw [hrun]
        rfl
      · rw [connectedPhases, List.forall_mem_append, Phase.forall_mem_connected, hcall]
        exact and_congr hmeets hiff

/-- **The request is transmitted exactly as it has been built**, in every run in which the session
calls `on_connected` only after it has been told to connect, if and only if each time the header
has been ended once and nothing has been printed since. -/
theorem transmits_iff (memory : Buffer (MAX_HEADER_SIZE + 2)) (state : HTTPSessionState)
    (host : Option CString) (port : UInt16) (command path : Option CString) (calls : List Call) :
    ∃ r, new memory state host port command path = some r ∧
      ((∀ p ∈ connectedPhases .building r calls, p ≠ .building) →
        ∃ entries, r.run calls = some entries ∧
          (Transmits (Built.start host port command path r.state) entries ↔
            ∀ p ∈ connectedPhases .building r calls, p = .ended)) := by
  obtain ⟨r, hnew, hinv⟩ := exists_new memory state host port command path
  exact ⟨r, hnew, hinv.run calls⟩

/-- A request of one header line, sent once. -/
theorem transmits_example :
    ∃ r, new (.filled _ 0) .INIT (some (.ofString "a")) 80 (some (.ofString "GET"))
        (some (.ofString "/")) = some r ∧
      ∃ entries, r.run [.addHeader (.ofString "k") (.ofString "v"), .send .ERR_OK, .onConnected] =
          some entries ∧
        Transmits (Built.start (some (.ofString "a")) 80 (some (.ofString "GET"))
          (some (.ofString "/")) r.state) entries := by
  obtain ⟨r, hnew, h⟩ := transmits_iff (.filled _ 0) .INIT (some (.ofString "a")) 80
    (some (.ofString "GET")) (some (.ofString "/"))
    [.addHeader (.ofString "k") (.ofString "v"), .send .ERR_OK, .onConnected]
  have hphases : (new (.filled _ 0) .INIT (some (.ofString "a")) 80 (some (.ofString "GET"))
      (some (.ofString "/"))).map (fun r => connectedPhases .building r
        [.addHeader (.ofString "k") (.ofString "v"), .send .ERR_OK, .onConnected]) =
      some [.ended] := by
    decide +kernel
  rw [hnew, Option.map_some] at hphases
  have hended := Option.some.inj hphases
  rw [hended] at h
  obtain ⟨entries, hrun, hiff⟩ := h (List.forall_mem_singleton.2 nofun)
  exact ⟨r, hnew, entries, hrun, hiff.2 (List.forall_mem_singleton.2 rfl)⟩

/-- **A request that is sent again, after `connect` has failed, ends its header twice.** -/
theorem retried_garbled :
    ¬ ∀ (memory : Buffer (MAX_HEADER_SIZE + 2)) (state : HTTPSessionState) (host : Option CString)
      (port : UInt16) (command path : Option CString) (calls : List Call) (r : HTTPRequest),
      new memory state host port command path = some r → r.state = .INIT →
        (∀ p ∈ connectedPhases .building r calls, p ≠ .building) →
          ∃ entries, r.run calls = some entries ∧
            Transmits (Built.start host port command path r.state) entries := by
  intro hall
  have hrun : (new (.filled _ 0) .INIT (some (.ofString "a")) 80 (some (.ofString "GET"))
      (some (.ofString "/"))).map (fun r => (r.state,
        connectedPhases .building r [.send .ERR_MEM, .send .ERR_OK, .onConnected],
        (r.run [.send .ERR_MEM, .send .ERR_OK, .onConnected]).map fun entries =>
          decide (Transmits (Built.start (some (.ofString "a")) 80 (some (.ofString "GET"))
            (some (.ofString "/")) r.state) entries))) =
      some (.INIT, [.spoiled], some false) := by
    decide +kernel
  obtain ⟨r, hnew, hout⟩ := Option.map_eq_some_iff.1 hrun
  obtain ⟨hstate, hout⟩ := Prod.mk.inj hout
  obtain ⟨hphases, hfails⟩ := Prod.mk.inj hout
  obtain ⟨entries, hentries, htransmits⟩ := hall _ _ _ _ _ _ _ r hnew hstate (by
    rw [hphases]
    exact List.forall_mem_singleton.2 nofun)
  rw [hentries, Option.map_some, decide_eq_true htransmits] at hfails
  cases hfails

end HTTPRequest

end Http
