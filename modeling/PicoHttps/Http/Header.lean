/-
**The HTTP header, parsed in place.**

The model of `pico_http/http_header.cpp`.  `HTTPHeader::parse` works inside the data it is given:
it writes a zero after each piece that it finds, and keeps the positions of the pieces.  A pointer
into the data is the position it points to, and `none` is a null pointer; every access to the data
is checked, and an access outside of it is `none`.

Main definitions:

* `Http.HTTPHeader` — the fields of the class;
* `Http.HTTPHeader.parse` — the parser, with `tokenLoop`, `headerLoop` and `endLoop`;
* `Http.HTTPHeader.getCommand`, `Http.HTTPHeader.getPath`, `Http.HTTPHeader.getHeaderValue` — what
  it has found.
-/

import PicoHttps.Basics.Text
import Mathlib.Algebra.Group.Nat.Defs

set_option relaxedAutoImplicit false
set_option autoImplicit false

namespace Http

abbrev SPACE : UInt8 := 0x20
abbrev SLASH : UInt8 := 0x2f
abbrev COLON : UInt8 := 0x3a
abbrev CR : UInt8 := 0x0d
abbrev LF : UInt8 := 0x0a

abbrev MAX_HEADERS : ℕ := 20

/-- The fields of `class HTTPHeader`.  The arrays of names and values are a list of pairs, with the
`m_numHeaders` entries that are in use. -/
structure HTTPHeader where
  headers : List (ℕ × ℕ)
  headerSize : ℕ
  responseCode : ℕ
  first : Option ℕ
  second : Option ℕ
  deriving DecidableEq, Repr

namespace HTTPHeader

/-- A new object. -/
def new : HTTPHeader := ⟨[], 0, 0, none, none⟩

/-- What `parse` leaves: its answer, the header, and the data it has written to. -/
abbrev Parsed := Bool × HTTPHeader × List UInt8

/-- The loop over the second token, from the position `i` on, whose first character is `second0`:
whether to go on, where it has ended, and `m_responseCode`. -/
def tokenLoop (second0 : UInt8) : List UInt8 → ℕ → ℕ → Bool × ℕ × ℕ
  | [], i, code => (true, i, code)
  | b :: ahead, i, code =>
    if b = SPACE then (true, i, code)
    else if second0 ≠ SLASH then
      if b < 0x30 ∨ b > 0x39 then (false, i, code)
      else tokenLoop second0 ahead (i + 1) ((code * 10 + (second0.toNat - 0x30)) % 2 ^ 16)
    else tokenLoop second0 ahead (i + 1) code

/-- `data[i] == '\r' && data[i+1] == '\n'`. -/
def atBlankLine (data : List UInt8) (i : ℕ) : Option Bool := do
  if (← data[i]?) = CR then return (← data[i + 1]?) = LF else return false

/-- The loop that looks for an empty line after the last header there is room for. -/
def endLoop : List UInt8 → ℕ → Option ℕ
  | b0 :: b1 :: b2 :: b3 :: ahead, i =>
    if b0 = CR ∧ b1 = LF ∧ b2 = CR ∧ b3 = LF then some i
    else endLoop (b1 :: b2 :: b3 :: ahead) (i + 1)
  | _, _ => none

/-- The loop over the headers, with room for `turns` more of them, and what follows it. -/
def headerLoop : ℕ → HTTPHeader → List UInt8 → ℕ → Option Parsed
  | 0, h, data, i =>
    match endLoop (data.drop i) i with
    | some i => some (true, { h with headerSize := (i + 4) % 2 ^ 16 }, data)
    | none => some (false, h, data)
  | turns + 1, h, data, i =>
    let name := i
    let i := Text.skipTo COLON (data.drop i) i
    if i ≥ data.length then some (false, h, data)
    else do
      let data ← Text.poke data i 0
      let i := i + 1
      -- skip space too
      let i := i + 1
      let value := i
      let i := Text.skipTo CR (data.drop i) i
      if i ≥ data.length then return (false, h, data)
      let data ← Text.poke data i 0
      let i := i + 1
      if i ≥ data.length then return (false, h, data)
      if (← data[i]?) ≠ LF then return (false, h, data)
      let i := i + 1
      if i + 1 ≥ data.length then return (false, h, data)
      let h := { h with headers := h.headers ++ [(name, value)] }
      if ← atBlankLine data i then
        return (true, { h with headerSize := (i + 2) % 2 ^ 16 }, data)
      headerLoop turns h data i

/-- `HTTPHeader::parse`, whose argument `len` is the length of `data`. -/
def parse (h : HTTPHeader) (data : List UInt8) : Option Parsed := do
  let h := { h with headers := [], responseCode := 0, headerSize := 0, first := some 0 }
  -- GET/POST or HTTP/1.1 for responses
  let i := Text.skipTo SPACE data 0
  if i ≥ data.length then return (false, h, data)
  let data ← Text.poke data i 0
  let i := i + 1
  -- path or response code; without a byte the loop is not entered
  let h := { h with second := some i }
  let (ok, i, code) := tokenLoop (data.getD i 0) (data.drop i) i 0
  let h := { h with responseCode := code }
  if !ok then return (false, h, data)
  if i ≥ data.length then return (false, h, data)
  let data ← Text.poke data i 0
  let i := i + 1
  -- HTTP/1.[01] or response text
  let i := Text.skipTo LF (data.drop i) i
  let i := i + 1
  if i + 1 ≥ data.length then return (false, h, data)
  if ← atBlankLine data i then
    return (true, { h with headerSize := (i + 2) % 2 ^ 16 }, data)
  headerLoop MAX_HEADERS h data i

/-! ### What has been found -/

/-- `isRequest`. -/
def isRequest (h : HTTPHeader) (data : List UInt8) : Option Bool :=
  match h.second with
  | none => some false
  | some second => do return (← data[second]?) = SLASH

/-- `isResponse`. -/
def isResponse (h : HTTPHeader) (data : List UInt8) : Option Bool :=
  match h.second with
  | none => some false
  | some second => do return (← data[second]?) ≠ SLASH

/-- The string that a pointer points to; `none` inside for a null pointer. -/
def string (data : List UInt8) : Option ℕ → Option (Option (List UInt8))
  | none => some none
  | some p => (Text.stringAt data p).map some

/-- `getCommand`. -/
def getCommand (h : HTTPHeader) (data : List UInt8) : Option (Option (List UInt8)) := do
  string data (if ← h.isRequest data then h.first else none)

/-- `getPath`. -/
def getPath (h : HTTPHeader) (data : List UInt8) : Option (Option (List UInt8)) := do
  string data (if ← h.isRequest data then h.second else none)

/-- `getResponseCode`. -/
def getResponseCode (h : HTTPHeader) (data : List UInt8) : Option ℕ := do
  return if ← h.isResponse data then h.responseCode else 0

/-- `getNumHeaders`. -/
def getNumHeaders (h : HTTPHeader) : ℕ := h.headers.length

/-- `getHeaderSize`. -/
def getHeaderSize (h : HTTPHeader) : ℕ := h.headerSize

/-- The loop of `getHeaderValue`. -/
def valueLoop (data headerName : List UInt8) : List (ℕ × ℕ) → Option (Option ℕ)
  | [] => some none
  | (name, value) :: headers => do
    if Text.strcasecmp (← Text.stringAt data name) headerName = 0 then return some value
    valueLoop data headerName headers

/-- `getHeaderValue`, and the string that it points to. -/
def getHeaderValue (h : HTTPHeader) (data headerName : List UInt8) :
    Option (Option (List UInt8)) := do
  string data (← valueLoop data headerName h.headers)

end HTTPHeader

end Http
