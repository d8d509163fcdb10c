/-
**The HTTP parser stays inside its buffer.**

`HTTPHeader::parse` again, with every byte that it reads: the loops go over positions of the data,
and each read and each write of them is checked, including the ones that `isResponse` makes through
the saved pointer `m_second`.  A result is a run in which all of them were inside the data.  This
parser is the one of `PicoHttps/Http/Header.lean`, so that what has been proved there about the
pieces of a message bounds the positions that are left behind.

Main definitions:

* `Http.HTTPHeader.tokenScan`, `Http.HTTPHeader.endScan`, `Http.HTTPHeader.headerScan`,
  `Http.HTTPHeader.parseAt` — the parser, with every access to the data;
* `Http.HTTPHeader.Inside` — where the pieces of a message are.

Main results:

* `Http.HTTPHeader.parseAt_eq` — **the parser that checks every access is the parser**;
* `Http.HTTPHeader.Holds.inside` — what a message leaves is inside the part that it has taken;
* `Http.parse_inBounds` — **the parser stays inside its buffer**.
-/

import PicoHttps.Http.Parse

set_option relaxedAutoImplicit false
set_option autoImplicit false

namespace Http

namespace HTTPHeader

/-! ### The parser, with every access -/

/-- The loop over the second token, which starts at the position `second`. -/
def tokenScan (data : List UInt8) (second i code : ℕ) : Option (Bool × ℕ × ℕ) :=
  if i < data.length then do
    let b ← data[i]?
    if b = SPACE then return (true, i, code)
    -- `isResponse` reads `m_second[0]`
    let second0 ← data[second]?
    if second0 ≠ SLASH then
      if b < 0x30 ∨ b > 0x39 then return (false, i, code)
      tokenScan data second (i + 1) ((code * 10 + (second0.toNat - 0x30)) % 2 ^ 16)
    else tokenScan data second (i + 1) code
  else some (true, i, code)
termination_by data.length - i

/-- The loop that looks for an empty line after the last header there is room for. -/
def endScan (data : List UInt8) (i : ℕ) : Option (Option ℕ) :=
  if i + 4 ≤ data.length then do
    if ← atBlankLine data i then
      if ← atBlankLine data (i + 2) then return some i
    endScan data (i + 1)
  else some none
termination_by data.length - i

/-- The loop over the headers, with room for `turns` more of them, and what follows it. -/
def headerScan : ℕ → HTTPHeader → List UInt8 → ℕ → Option Parsed
  | 0, h, data, i => do
    match ← endScan data i with
    | some i => return (true, { h with headerSize := (i + 4) % 2 ^ 16 }, data)
    | none => return (false, h, data)
  | turns + 1, h, data, i => do
    let name := i
    let i ← Text.scanTo COLON data i
    if i ≥ data.length then return (false, h, data)
    let data ← Text.poke data i 0
    let i := i + 1
    -- skip space too
    let i := i + 1
    let value := i
    let i ← Text.scanTo CR data i
    if i ≥ data.length then return (false, h, data)
    let data ← Text.poke data i 0
    let i := i + 1
    if i ≥ data.length then return (false, h, data)
    if (← data[i]?) ≠ LF then return (false, h, data)
    let i := i + 1
    if i + 1 ≥ data.length then return (false, h, data)
    let h := { h with headers := h.headers ++ [(name, value)] }
    if ← atBlankLine data i then
      return (true, { h with headerSize := (i + 2) % 2 ^ 16 }, data)
    headerScan turns h data i

/-- `HTTPHeader::parse`, with every access to the data. -/
def parseAt (h : HTTPHeader) (data : List UInt8) : Option Parsed := do
  let h := { h with headers := [], responseCode := 0, headerSize := 0, first := some 0 }
  let i ← Text.scanTo SPACE data 0
  if i ≥ data.length then return (false, h, data)
  let data ← Text.poke data i 0
  let i := i + 1
  let second := i
  let h := { h with second := some second }
  let (ok, i, code) ← tokenScan data second i 0
  let h := { h with responseCode := code }
  if !ok then return (false, h, data)
  if i ≥ data.length then return (false, h, data)
  let data ← Text.poke data i 0
  let i := i + 1
  let i ← Text.scanTo LF data i
  let i := i + 1
  if i + 1 ≥ data.length then return (false, h, data)
  if ← atBlankLine data i then
    return (true, { h with headerSize := (i + 2) % 2 ^ 16 }, data)
  headerScan MAX_HEADERS h data i

/-! ### The same parser -/

/-- The loop over the second token reads inside the data. -/
theorem tokenScan_eq {data : List UInt8} {second : ℕ} (i code : ℕ) (h : second ≤ i) :
    tokenScan data second i code =
      some (tokenLoop (data.getD second 0) (data.drop i) i code) := by
  induction hn : data.length - i generalizing i code with
  | zero =>
      rw [tokenScan, if_neg (by omega), List.drop_eq_nil_of_le (by omega)]
      rfl
  | succ n ih =>
      have hi : i < data.length := by omega
      have hsecond : data[second]? = some (data.getD second 0) := by
        rw [List.getD_eq_getElem?_getD, List.getElem?_eq_getElem (by omega), Option.getD_some]
      rw [tokenScan, if_pos hi, List.getElem?_eq_getElem hi, List.drop_eq_getElem_cons hi,
        tokenLoop, hsecond]
      simp only [Option.bind_eq_bind, Option.bind_some]
      split
      · rfl
      · split
        · split
          · rfl
          · exact ih (i + 1) _ (by omega) (by omega)
        · exact ih (i + 1) code (by omega) (by omega)

/-- Two bytes of the data that are there. -/
theorem atBlankLine_of_lt {data : List UInt8} {i : ℕ} (h : i + 1 < data.length) :
    atBlankLine data i = some (decide (data[i] = CR ∧ data[i + 1] = LF)) := by
  rw [atBlankLine, List.getElem?_eq_getElem (by omega), List.getElem?_eq_getElem h]
  simp only [Option.bind_eq_bind, Option.bind_some]
  split
  · rename_i hcr
    simp [hcr]
  · rename_i hcr
    simp [hcr]

theorem endLoop_short {xs : List UInt8} (h : xs.length < 4) (i : ℕ) : endLoop xs i = none := by
  rcases xs with _ | ⟨b0, _ | ⟨b1, _ | ⟨b2, _ | ⟨b3, xs⟩⟩⟩⟩
  · rfl
  · rfl
  · rfl
  · rfl
  · simp only [List.length_cons] at h
    omega

/-- The loop that looks for an empty line reads inside the data. -/
theorem endScan_eq {data : List UInt8} (i : ℕ) :
    endScan data i = some (endLoop (data.drop i) i) := by
  induction hn : data.length - i generalizing i with
  | zero =>
      rw [endScan, if_neg (by omega), List.drop_eq_nil_of_le (by omega)]
      rfl
  | succ n ih =>
      rw [endScan]
      split
      · rename_i hroom
        have hnext : data.drop (i + 1) =
            data[i + 1] :: data[i + 2] :: data[i + 3] :: data.drop (i + 4) := by
          rw [List.drop_eq_getElem_cons (by omega), List.drop_eq_getElem_cons (by omega),
            List.drop_eq_getElem_cons (by omega)]
        have hdrop : data.drop i = data[i] :: data.drop (i + 1) :=
          List.drop_eq_getElem_cons (by omega)
        have hrest := ih (i + 1) (by omega)
        rw [atBlankLine_of_lt (by omega), atBlankLine_of_lt (by omega), hdrop]
        rw [hnext] at hrest ⊢
        rw [endLoop, hrest]
        simp only [Option.bind_eq_bind, Option.bind_some]
        by_cases hfirst : data[i] = CR ∧ data[i + 1] = LF
        · by_cases hsecond : data[i + 2] = CR ∧ data[i + 3] = LF
          · rw [if_pos (by simp [hfirst]), if_pos (by simp [hsecond]),
              if_pos ⟨hfirst.1, hfirst.2, hsecond.1, hsecond.2⟩]
            rfl
          · rw [if_pos (by simp [hfirst]), if_neg (by simpa using hsecond),
              if_neg fun hall => hsecond ⟨hall.2.2.1, hall.2.2.2⟩]
        · rw [if_neg (by simpa using hfirst), if_neg fun hall => hfirst ⟨hall.1, hall.2.1⟩]
      · rename_i hroom
        rw [endLoop_short (by rw [List.length_drop]; omega)]

/-- The loop over the headers reads inside the data. -/
theorem headerScan_eq {turns : ℕ} : ∀ (h : HTTPHeader) (data : List UInt8) (i : ℕ),
    headerScan turns h data i = headerLoop turns h data i := by
  induction turns with
  | zero =>
      intro h data i
      rw [headerScan, headerLoop, endScan_eq, Option.bind_eq_bind, Option.bind_some]
      cases endLoop (data.drop i) i with
      | none => rfl
      | some i => rfl
  | succ turns ih =>
      intro h data i
      simp only [headerScan, headerLoop, Text.scanTo_eq, Option.bind_eq_bind, Option.bind_some, ih]
      rfl

/-- **The parser that checks every access is the parser.** -/
theorem parseAt_eq (h : HTTPHeader) (data : List UInt8) : h.parseAt data = h.parse data := by
  simp only [parseAt, parse, Text.scanTo_eq, Option.bind_eq_bind, Option.bind_some,
    tokenScan_eq _ _ (Nat.le_refl _), headerScan_eq]
  rfl

/-! ### Where the pieces are -/

/-- The string at the position `p` of the memory reaches its end before the position `size`. -/
def EndsBelow (mem : List UInt8) (size p : ℕ) : Prop := ∃ q, p ≤ q ∧ q < size ∧ mem[q]? = some 0

/-- **Where the pieces of a message are**: the head is not empty and inside the memory, there are at
most 20 headers, and the command, the path, and every name and value end inside the head. -/
structure Inside (h : HTTPHeader) (mem : List UInt8) : Prop where
  size_pos : 1 ≤ h.getHeaderSize
  size_le : h.getHeaderSize ≤ mem.length
  count : h.getNumHeaders ≤ 20
  first : ∃ p, h.first = some p ∧ EndsBelow mem h.getHeaderSize p
  second : ∃ p, h.second = some p ∧ EndsBelow mem h.getHeaderSize p
  headers : ∀ e ∈ h.headers, EndsBelow mem h.getHeaderSize e.1 ∧ EndsBelow mem h.getHeaderSize e.2

theorem endsBelow_of_pointsTo {mem : List UInt8} {p : ℕ} {s : List UInt8}
    (h : Text.PointsTo mem p s) (after : List UInt8) : EndsBelow (mem ++ after) mem.length p := by
  obtain ⟨a, b, rfl, rfl⟩ := h
  refine ⟨a.length + s.length, by omega, ?_, ?_⟩
  · rw [List.length_append, List.length_append, List.length_cons]
    omega
  · rw [← List.append_assoc, List.append_assoc, ← List.length_append,
      List.getElem?_append_right (Nat.le_refl _), Nat.sub_self]
    rfl

theorem length_le_of_readHeaders {turns : ℕ} : ∀ {xs rest : List UInt8}
    {headers : List (List UInt8 × List UInt8)}, readHeaders turns xs = some (headers, rest) →
    headers.length ≤ turns := by
  induction turns with
  | zero =>
      intro xs rest headers h
      obtain ⟨r, -, heq⟩ := Option.map_eq_some_iff.1 h
      cases heq
      exact Nat.le_refl 0
  | succ turns ih =>
      intro xs rest headers h
      obtain ⟨name, ys, value, zs, tail, line, -, -, -, -, hrest⟩ := readHeaders_succ h
      rcases hrest with ⟨-, rfl⟩ | ⟨-, headers', hheaders, rfl⟩
      · rw [List.length_singleton]
        omega
      · have hle := ih hheaders
        rw [List.length_cons]
        omega

/-- A message has at most 20 headers. -/
theorem length_headers_le {data : List UInt8} {m : Message} (h : readMessage data = some m) :
    m.headers.length ≤ MAX_HEADERS := by
  obtain ⟨ys, zs, version, tail, line, rest, -, -, -, -, -, -, hrest⟩ := readMessage_some h
  rcases hrest with ⟨-, hnil⟩ | ⟨-, hheaders⟩
  · rw [hnil]
    exact Nat.zero_le _
  · exact length_le_of_readHeaders hheaders

/-- Headers that are in memory have their names and values inside it. -/
theorem HoldsHeaders.endsBelow {mem : List UInt8} {pointers : List (ℕ × ℕ)}
    {headers : List (List UInt8 × List UInt8)} (h : HoldsHeaders mem pointers headers)
    (after : List UInt8) : ∀ e ∈ pointers,
      EndsBelow (mem ++ after) mem.length e.1 ∧ EndsBelow (mem ++ after) mem.length e.2 := by
  induction h with
  | nil =>
      intro e he
      cases he
  | cons hp _ ih =>
      intro e he
      rcases List.mem_cons.1 he with rfl | he
      · exact ⟨endsBelow_of_pointsTo hp.1 after, endsBelow_of_pointsTo hp.2 after⟩
      · exact ih e he

/-- **What a message leaves is inside the part of the data that it has taken.** -/
theorem Holds.inside {h : HTTPHeader} {mem after : List UInt8} {m : Message} (hm : h.Holds mem m)
    (hsize : mem.length = m.size) (hlt : m.size < 2 ^ 16) (hcount : m.headers.length ≤ 20) :
    h.Inside (mem ++ after) := by
  obtain ⟨⟨p, hp, hfirst⟩, ⟨q, hq, hsecond⟩, hheaders, -, hheader⟩ := hm
  have hfield : h.getHeaderSize = mem.length := by
    rw [getHeaderSize, hheader, Nat.mod_eq_of_lt hlt, hsize]
  have hends := endsBelow_of_pointsTo hfirst after
  rw [← hfield] at hends
  refine ⟨?_, ?_, ?_, ⟨p, hp, hends⟩, ⟨q, hq, ?_⟩, ?_⟩
  · obtain ⟨z, -, hz, -⟩ := hends
    omega
  · rw [hfield, List.length_append]
    omega
  · rw [getNumHeaders, hheaders.length_eq]
    exact hcount
  · rw [hfield]
    exact endsBelow_of_pointsTo hsecond after
  · rw [hfield]
    exact hheaders.endsBelow after

end HTTPHeader

/-- **The parser stays inside its buffer.**  With at most 65535 bytes of any data, `parse` returns,
with all its accesses inside the data; and when it returns true, the size of the head is between one
and the length of the data, there are at most 20 headers, and the command, the path, and every name
and value of a header start and end inside the head. -/
theorem parse_inBounds (h : HTTPHeader) (data : List UInt8) (hlen : data.length ≤ 65535) :
    ∃ ok h' mem, h.parseAt data = some (ok, h', mem) ∧
      (ok = true → mem.length = data.length ∧ h'.Inside mem) := by
  rw [HTTPHeader.parseAt_eq]
  cases hread : readMessage data with
  | none =>
      obtain ⟨h', mem, hparse⟩ := HTTPHeader.parse_none h hread
      exact ⟨false, h', mem, hparse, fun hok => by cases hok⟩
  | some m =>
      obtain ⟨h', mem, hparse, hsize, hholds, -⟩ := HTTPHeader.parse_some h hread
      have hle := size_le_of_readMessage hread
      refine ⟨true, h', _, hparse, fun _ => ⟨?_, ?_⟩⟩
      · rw [List.length_append, List.length_drop]
        omega
      · exact hholds.inside hsize (by omega) (HTTPHeader.length_headers_le hread)

/-- A request without headers, and a byte behind it. -/
theorem parse_inBounds_example : ∃ ok h' mem,
    HTTPHeader.new.parseAt (Text.ascii "GET / HTTP/1.1\r\n\r\n!") = some (ok, h', mem) ∧
      (ok = true → mem.length = (Text.ascii "GET / HTTP/1.1\r\n\r\n!").length ∧ h'.Inside mem) :=
  parse_inBounds .new (Text.ascii "GET / HTTP/1.1\r\n\r\n!") (by decide)

end Http
