/-
**Canonical messages.**

The head of a message as it is usually written: three tokens in the first line, then a line for
each header, with one space after the colon, and an empty line.  Such a head is read whatever
follows it, and no shorter part of it is read; so the parser tells exactly when it is complete.

Main definitions:

* `Http.Head`, `Http.Head.render`, `Http.Head.Canonical` — heads and their bytes;
* `Http.lookup` — the value of the first header with a name.

Main results:

* `Http.Head.readMessage_render` — a canonical head is read;
* `Http.Head.readMessage_take` — **and no part of it is**;
* `Http.HTTPHeader.getHeaderValue_eq` — a header that has been parsed is looked up;
* `Http.parse_canonical` — both for the parser.
-/

import PicoHttps.Http.Parse

set_option relaxedAutoImplicit false
set_option autoImplicit false

namespace Http

/-- The head of a message: the three tokens of its first line, and its headers. -/
structure Head where
  first : List UInt8
  second : List UInt8
  third : List UInt8
  headers : List (List UInt8 × List UInt8)
  deriving DecidableEq, Repr

/-- The line of a header. -/
def headerLine (header : List UInt8 × List UInt8) : List UInt8 :=
  header.1 ++ COLON :: SPACE :: (header.2 ++ [CR, LF])

/-- The lines of headers, and the empty line. -/
def headerLines (headers : List (List UInt8 × List UInt8)) : List UInt8 :=
  headers.flatMap headerLine ++ [CR, LF]

/-- A string without the bytes `bs`. -/
abbrev Avoids (s bs : List UInt8) : Prop := ∀ b ∈ bs, b ∉ s

/-- A header that does not end its line, nor its name. -/
structure CanonicalHeader (header : List UInt8 × List UInt8) : Prop where
  name : Avoids header.1 [COLON, CR, LF, 0]
  value : Avoids header.2 [CR, LF, 0]

namespace Head

variable (r : Head)

/-- The bytes of a head. -/
def render : List UInt8 :=
  r.first ++ SPACE :: (r.second ++ SPACE :: (r.third ++ CR :: LF :: headerLines r.headers))

/-- A head whose pieces do not contain what separates them. -/
structure Canonical : Prop where
  first : Avoids r.first [SPACE, CR, LF, 0]
  second : Avoids r.second [SPACE, CR, LF, 0]
  third : Avoids r.third [CR, LF]
  headers : ∀ header ∈ r.headers, CanonicalHeader header

end Head

/-! ### Reading the lines of headers -/

section lines

variable {b : UInt8} {a xs : List UInt8}

theorem skipLines_cons_of_ne (h : b ≠ CR) (xs : List UInt8) :
    skipLines (b :: xs) = skipLines xs := by
  rcases xs with _ | ⟨b1, _ | ⟨b2, _ | ⟨b3, xs⟩⟩⟩
  · rfl
  · rfl
  · rfl
  · exact if_neg fun hblank => h hblank.1

theorem skipLines_append_of_not_mem (h : CR ∉ a) (xs : List UInt8) :
    skipLines (a ++ xs) = skipLines xs := by
  induction a with
  | nil => rfl
  | cons b a ih =>
      rw [List.mem_cons, not_or] at h
      rw [List.cons_append, skipLines_cons_of_ne (Ne.symm h.1), ih h.2]

/-- The end of a line, when the next line is not empty. -/
theorem skipLines_line (h : b ≠ CR) (xs : List UInt8) :
    skipLines (CR :: LF :: b :: xs) = skipLines (b :: xs) := by
  have hlf : skipLines (LF :: b :: xs) = skipLines (b :: xs) :=
    skipLines_cons_of_ne (by decide) _
  rw [← hlf]
  cases xs with
  | nil => rfl
  | cons b3 xs => exact if_neg fun hblank => h hblank.2.2.1

/-- A line starts with its name, or with the colon, but not with the end of a line. -/
theorem exists_cons_headerLine {header : List UInt8 × List UInt8} (h : CanonicalHeader header) :
    ∃ b rest, headerLine header = b :: rest ∧ b ≠ CR := by
  obtain ⟨name, value⟩ := header
  cases name with
  | nil => exact ⟨COLON, _, rfl, by decide⟩
  | cons b name =>
      refine ⟨b, _, rfl, fun hb => h.name CR (by simp) ?_⟩
      rw [← hb]
      exact List.mem_cons_self

/-- The text of a line, without its end. -/
theorem headerLine_eq (header : List UInt8 × List UInt8) :
    headerLine header = header.1 ++ COLON :: SPACE :: header.2 ++ [CR, LF] := by
  simp [headerLine]

theorem not_mem_headerLine {header : List UInt8 × List UInt8} (h : CanonicalHeader header) :
    CR ∉ header.1 ++ COLON :: SPACE :: header.2 := by
  have hname := h.name CR (by simp)
  have hvalue := h.value CR (by simp)
  have hcolon : CR ≠ COLON := by decide
  have hspace : CR ≠ SPACE := by decide
  simp [hname, hvalue, hcolon, hspace]

/-- The lines that are not read as headers are skipped. -/
theorem skipLines_headerLines {headers : List (List UInt8 × List UInt8)}
    (h : ∀ header ∈ headers, CanonicalHeader header) (hne : headers ≠ []) (rest : List UInt8) :
    skipLines (headerLines headers ++ rest) = some rest := by
  induction headers with
  | nil => exact absurd rfl hne
  | cons header headers ih =>
      have hsplit : headerLines (header :: headers) ++ rest =
          header.1 ++ COLON :: SPACE :: header.2 ++ CR :: LF :: (headerLines headers ++ rest) := by
        simp [headerLines, headerLine_eq]
      rw [hsplit, skipLines_append_of_not_mem (not_mem_headerLine (h header List.mem_cons_self))]
      cases headers with
      | nil => exact if_pos ⟨rfl, rfl, rfl, rfl⟩
      | cons next headers =>
          have hnext := h next (by simp)
          obtain ⟨b, tail, hline, hb⟩ := exists_cons_headerLine hnext
          have ih' := ih (fun other hmem => h other (List.mem_cons_of_mem header hmem)) (by simp)
          have hcons : headerLines (next :: headers) ++ rest =
              b :: (tail ++ headerLines headers ++ rest) := by
            simp [headerLines, hline]
          rw [hcons] at ih' ⊢
          rw [skipLines_line hb, ih']

/-- After a line there is the empty line, or the next header. -/
theorem blankLine_headerLines {headers : List (List UInt8 × List UInt8)}
    (h : ∀ header ∈ headers, CanonicalHeader header) (rest : List UInt8) :
    blankLine (headerLines headers ++ rest) =
      some (if headers = [] then some rest else none) := by
  cases headers with
  | nil => rfl
  | cons header headers =>
      obtain ⟨b, tail, hline, hb⟩ := exists_cons_headerLine (h header List.mem_cons_self)
      have hcons : headerLines (header :: headers) ++ rest =
          b :: (tail ++ headerLines headers ++ rest) := by
        simp [headerLines, hline]
      obtain ⟨b1, more, hmore⟩ : ∃ b1 more, tail ++ headerLines headers ++ rest = b1 :: more := by
        cases tail with
        | nil => cases headers with
          | nil => exact ⟨CR, _, rfl⟩
          | cons next headers =>
              obtain ⟨b', tail', hline', -⟩ := exists_cons_headerLine (h next (by simp))
              exact ⟨b', tail' ++ headerLines headers ++ rest, by simp [headerLines, hline']⟩
        | cons b1 tail => exact ⟨b1, _, rfl⟩
      rw [hcons, hmore, blankLine, if_neg (fun hblank => hb hblank.1), if_neg (by simp)]

/-- A line that is read in one turn: a name, a byte that is skipped, and a value. -/
theorem readHeaders_line {name value : List UInt8} (hname : COLON ∉ name) (hvalue : CR ∉ value)
    (turns : ℕ) (c : UInt8) (tail : List UInt8) :
    readHeaders (turns + 1) (name ++ COLON :: c :: (value ++ CR :: LF :: tail)) =
      (blankLine tail).bind fun line =>
        line.elim ((readHeaders turns tail).map fun r => ((name, value) :: r.1, r.2))
          fun rest => some ([(name, value)], rest) := by
  have hcut := Text.cut_of_not_mem hvalue (LF :: tail)
  rw [readHeaders, Text.cut_of_not_mem hname]
  simp only [List.drop_one, List.tail_cons, hcut, lineFeed, if_true, Option.bind_eq_bind,
    Option.bind_some]
  congr 1
  funext line
  cases line with
  | some rest => rfl
  | none => cases readHeaders turns tail <;> rfl

/-- **The lines of headers are read**, as many as there is room for. -/
theorem readHeaders_headerLines {turns : ℕ} : ∀ {headers : List (List UInt8 × List UInt8)},
    (∀ header ∈ headers, CanonicalHeader header) → headers ≠ [] → ∀ rest,
    readHeaders turns (headerLines headers ++ rest) = some (headers.take turns, rest) := by
  induction turns with
  | zero =>
      intro headers h hne rest
      rw [readHeaders, skipLines_headerLines h hne]
      rfl
  | succ turns ih =>
      intro headers h hne rest
      cases headers with
      | nil => exact absurd rfl hne
      | cons header headers =>
          obtain ⟨hname, hvalue⟩ := h header List.mem_cons_self
          have hrest : ∀ other ∈ headers, CanonicalHeader other :=
            fun other hmem => h other (List.mem_cons_of_mem header hmem)
          have hsplit : headerLines (header :: headers) ++ rest = header.1 ++ COLON ::
              SPACE :: (header.2 ++ CR :: LF :: (headerLines headers ++ rest)) := by
            simp [headerLines, headerLine]
          rw [hsplit, readHeaders_line (hname COLON (by simp)) (hvalue CR (by simp)),
            blankLine_headerLines hrest, Option.bind_some]
          by_cases hnil : headers = []
          · subst hnil
            rw [if_pos rfl, List.take_succ_cons, List.take_nil]
            rfl
          · rw [if_neg hnil, Option.elim_none, ih hrest hnil]
            rfl

end lines

/-- A first line, and headers that are read behind it, or the empty line. -/
theorem readMessage_line {first second third xs rest : List UInt8} {code : ℕ}
    {headers : List (List UInt8 × List UInt8)} (hfirst : SPACE ∉ first) (hsecond : SPACE ∉ second)
    (hthird : LF ∉ third) (hcode : codeOf second = some code)
    (h : (headers = [] ∧ blankLine xs = some (some rest)) ∨
      (blankLine xs = some none ∧ readHeaders MAX_HEADERS xs = some (headers, rest))) :
    readMessage (first ++ SPACE :: (second ++ SPACE :: (third ++ CR :: LF :: xs))) =
      some ⟨first, second, code, headers,
        (first ++ SPACE :: (second ++ SPACE :: (third ++ CR :: LF :: xs))).length -
          rest.length⟩ := by
  have hversion : LF ∉ third ++ [CR] := by
    rw [List.mem_append, not_or]
    exact ⟨hthird, by decide⟩
  have hcut := Text.cut_of_not_mem hversion xs
  rw [List.append_assoc, List.singleton_append] at hcut
  rw [readMessage]
  simp only [Text.cut_of_not_mem hfirst, Text.cut_of_not_mem hsecond, hcode, hcut,
    Option.bind_eq_bind, Option.bind_some]
  rcases h with ⟨rfl, hblank⟩ | ⟨hblank, hheaders⟩
  · simp only [hblank, Option.bind_some]
    rfl
  · simp only [hblank, hheaders, Option.bind_some]
    rfl

namespace Head

variable {r : Head} {code : ℕ}

/-- The lines of headers behind a first line, in which only the separators matter. -/
theorem readMessage_lines (hfirst : SPACE ∉ r.first) (hsecond : SPACE ∉ r.second)
    (hthird : LF ∉ r.third) (hheaders : ∀ header ∈ r.headers, CanonicalHeader header)
    (hcode : codeOf r.second = some code) (rest : List UInt8) : readMessage (r.render ++ rest) =
      some ⟨r.first, r.second, code, r.headers.take MAX_HEADERS, r.render.length⟩ := by
  have hsplit : r.render ++ rest = r.first ++ SPACE :: (r.second ++ SPACE ::
      (r.third ++ CR :: LF :: (headerLines r.headers ++ rest))) := by
    simp [render]
  have hsize : (r.render ++ rest).length - rest.length = r.render.length := by
    rw [List.length_append, Nat.add_sub_cancel]
  have hblank := blankLine_headerLines hheaders rest
  rw [← hsize, hsplit]
  refine readMessage_line hfirst hsecond hthird hcode ?_
  by_cases hnil : r.headers = []
  · rw [if_pos hnil] at hblank
    exact .inl ⟨by rw [hnil]; rfl, hblank⟩
  · rw [if_neg hnil] at hblank
    exact .inr ⟨hblank, readHeaders_headerLines hheaders hnil rest⟩

/-- **A canonical head is read**, whatever follows it. -/
theorem readMessage_render (hr : r.Canonical) (hcode : codeOf r.second = some code)
    (rest : List UInt8) : readMessage (r.render ++ rest) =
      some ⟨r.first, r.second, code, r.headers.take MAX_HEADERS, r.render.length⟩ :=
  readMessage_lines (hr.first SPACE (by simp)) (hr.second SPACE (by simp)) (hr.third LF (by simp))
    hr.headers hcode rest

/-- **No part of a canonical head is read** that is shorter than the head: the message would also
be read off the head itself, and then it has the size of the head. -/
theorem readMessage_take (hr : r.Canonical) (hcode : codeOf r.second = some code) {k : ℕ}
    (hk : k < r.render.length) : readMessage (r.render.take k) = none := by
  cases hread : readMessage (r.render.take k) with
  | none => rfl
  | some m =>
      have hle := size_le_of_readMessage hread
      have hall := readMessage_append hread (r.render.drop k)
      have hrender := readMessage_render hr hcode []
      rw [List.append_nil] at hrender
      rw [List.take_append_drop, hrender] at hall
      have hsize : m.size = r.render.length := by rw [← Option.some.inj hall]
      rw [List.length_take] at hle
      omega

end Head

/-! ### Looking up a header -/

/-- The value of the first header with the name `name`, in letters of any case. -/
def lookup (headers : List (List UInt8 × List UInt8)) (name : List UInt8) :
    Option (List UInt8) :=
  (headers.find? fun header => header.1.map Text.toLower = name.map Text.toLower).map (·.2)

namespace HTTPHeader

variable {h : HTTPHeader} {mem : List UInt8}

/-- The string at a pointer. -/
theorem string_eq {p : ℕ} {s : List UInt8} (hp : Text.PointsTo mem p s) (hs : 0 ∉ s) :
    string mem (some p) = some (some s) := by
  rw [string, Text.stringAt_of_pointsTo hp hs]
  rfl

theorem valueLoop_eq {pointers : List (ℕ × ℕ)} {headers : List (List UInt8 × List UInt8)}
    (hholds : HoldsHeaders mem pointers headers)
    (hheaders : ∀ header ∈ headers, CanonicalHeader header) {name : List UInt8} (hname : 0 ∉ name) :
    ∃ pointer, valueLoop mem name pointers = some pointer ∧
      string mem pointer = some (lookup headers name) := by
  induction hholds with
  | nil => exact ⟨none, rfl, rfl⟩
  | @cons p header pointers headers hp _ ih =>
      obtain ⟨hcname, hcvalue⟩ := hheaders header List.mem_cons_self
      have hzero := Text.strcasecmp_eq_zero (hcname 0 (by simp)) hname
      rw [valueLoop, Text.stringAt_of_pointsTo hp.1 (hcname 0 (by simp))]
      simp only [Option.bind_eq_bind, Option.bind_some, lookup, List.find?_cons]
      by_cases hsame : header.1.map Text.toLower = name.map Text.toLower
      · rw [if_pos (hzero.2 hsame), decide_eq_true hsame]
        exact ⟨some p.2, rfl, string_eq hp.2 (hcvalue 0 (by simp))⟩
      · rw [if_neg (mt hzero.1 hsame), decide_eq_false hsame]
        exact ih fun other hmem => hheaders other (List.mem_cons_of_mem header hmem)

/-- **A header that has been parsed is looked up.** -/
theorem getHeaderValue_eq {m : Message} (hm : h.Holds mem m)
    (hheaders : ∀ header ∈ m.headers, CanonicalHeader header) {name : List UInt8}
    (hname : 0 ∉ name) : h.getHeaderValue mem name = some (lookup m.headers name) := by
  obtain ⟨pointer, hloop, hstring⟩ := valueLoop_eq hm.headers hheaders hname
  rw [getHeaderValue, hloop]
  exact hstring

theorem getNumHeaders_eq {m : Message} (hm : h.Holds mem m) :
    h.getNumHeaders = m.headers.length := hm.headers.length_eq

/-- The tokens of a request. -/
theorem getCommand_eq {m : Message} (hm : h.Holds mem m) {path : List UInt8}
    (hsecond : m.second = SLASH :: path) (hfirst : 0 ∉ m.first) (hpath : 0 ∉ m.second) :
    h.getCommand mem = some (some m.first) ∧ h.getPath mem = some (some m.second) := by
  obtain ⟨p, hp, hpfirst⟩ := hm.first
  obtain ⟨q, hq, hqsecond⟩ := hm.second
  have hrequest : h.isRequest mem = some true := by
    have hslash : mem[q]? = some SLASH := (hsecond ▸ hqsecond).getElem?
    rw [isRequest, hq]
    simp only [hslash, Option.bind_eq_bind, Option.bind_some]
    rfl
  constructor
  · rw [getCommand, hrequest]
    exact hp ▸ string_eq hpfirst hfirst
  · rw [getPath, hrequest]
    exact hq ▸ string_eq hqsecond hpath

end HTTPHeader

/-! ### The parser on canonical requests -/

/-- What a caller gets from the parser: its answer, and what the header then says.  The parser keeps
20 headers, and those behind them are lost. -/
structure Found (h : HTTPHeader) (data : List UInt8) (r : Head) : Prop where
  command : h.getCommand data = some (some r.first)
  path : h.getPath data = some (some r.second)
  numHeaders : h.getNumHeaders = min r.headers.length 20
  headerSize : h.getHeaderSize = r.render.length
  headerValue : ∀ name, 0 ∉ name →
    h.getHeaderValue data name = some (lookup (r.headers.take 20) name)

/-- A canonical request: its path starts with a slash. -/
structure CanonicalRequest (r : Head) : Prop extends r.Canonical where
  slash : r.second.head? = some SLASH

/-- A path is not a response code. -/
theorem CanonicalRequest.code {r : Head} (hr : CanonicalRequest r) : codeOf r.second = some 0 := by
  cases hsecond : r.second with
  | nil => rfl
  | cons b path =>
      have hslash := hr.slash
      rw [hsecond] at hslash
      cases hslash
      rw [codeOf, if_pos rfl]

theorem found_of_holds {h : HTTPHeader} {mem : List UInt8} {r : Head} (hr : CanonicalRequest r)
    (hsize : r.render.length ≤ 65535)
    (hm : h.Holds mem ⟨r.first, r.second, 0, r.headers.take MAX_HEADERS, r.render.length⟩) :
    Found h mem r := by
  obtain ⟨⟨hfirst, hsecond, hthird, hheaders⟩, hslash⟩ := hr
  obtain ⟨path, hpath⟩ : ∃ path, r.second = SLASH :: path := by
    cases hsec : r.second with
    | nil => rw [hsec] at hslash; cases hslash
    | cons b path =>
        rw [hsec] at hslash
        cases hslash
        exact ⟨path, rfl⟩
  obtain ⟨hcommand, hpath'⟩ :=
    HTTPHeader.getCommand_eq hm hpath (hfirst 0 (by simp)) (hsecond 0 (by simp))
  refine ⟨hcommand, hpath', ?_, ?_, ?_⟩
  · rw [HTTPHeader.getNumHeaders_eq hm, List.length_take, Nat.min_comm]
  · rw [HTTPHeader.getHeaderSize, hm.headerSize]
    exact Nat.mod_eq_of_lt (show r.render.length < 2 ^ 16 by omega)
  · intro name hname
    exact HTTPHeader.getHeaderValue_eq hm
      (fun header hmem => hheaders header (List.mem_of_mem_take hmem)) hname

/-- **The parser is complete on canonical requests, and exact about incompleteness.**  On the
first `k` bytes of a canonical request with a body, it answers that there is a message exactly when
`k` reaches the end of the head, and then it has found the pieces of the request. -/
theorem parse_canonical (r : Head) (hr : CanonicalRequest r) (hsize : r.render.length ≤ 65535)
    (body : List UInt8) (h : HTTPHeader) (k : ℕ) :
    ∃ ok h' data', h.parse ((r.render ++ body).take k) = some (ok, h', data') ∧
      (ok = true ↔ r.render.length ≤ k) ∧ (ok = true → Found h' data' r) := by
  have hcode := hr.code
  rcases Nat.lt_or_ge k r.render.length with hlt | hge
  · have htake : (r.render ++ body).take k = r.render.take k :=
      List.take_append_of_le_length (by omega)
    obtain ⟨h', data', hparse⟩ :=
      HTTPHeader.parse_none h (Head.readMessage_take hr.toCanonical hcode hlt)
    rw [← htake] at hparse
    refine ⟨false, h', data', hparse, ⟨fun hok => absurd hok Bool.false_ne_true, fun hle => ?_⟩,
      fun hok => absurd hok Bool.false_ne_true⟩
    omega
  · have htake : (r.render ++ body).take k = r.render ++ body.take (k - r.render.length) := by
      rw [List.take_append, List.take_of_length_le hge]
    obtain ⟨h', mem, hparse, -, hm, -⟩ := HTTPHeader.parse_some h
      (Head.readMessage_render hr.toCanonical hcode (body.take (k - r.render.length)))
    rw [← htake] at hparse
    exact ⟨true, h', _, hparse, ⟨fun _ => hge, fun _ => rfl⟩,
      fun _ => found_of_holds hr hsize (hm.append _)⟩

/-- The request `G / H` with the header `a: b` and a body of one byte, as far as its head. -/
theorem parse_canonical_example :
    ∃ h' data', HTTPHeader.new.parse
        (((⟨[0x47], [0x2f], [0x48], [([0x61], [0x62])]⟩ : Head).render ++ [0x2a]).take 15) =
          some (true, h', data') ∧
      Found h' data' ⟨[0x47], [0x2f], [0x48], [([0x61], [0x62])]⟩ := by
  have hcanonical : CanonicalRequest ⟨[0x47], [0x2f], [0x48], [([0x61], [0x62])]⟩ := by
    refine ⟨⟨?_, ?_, ?_, ?_⟩, rfl⟩
    · simp [Avoids, SPACE, CR, LF]
    · simp [Avoids, SPACE, CR, LF]
    · simp [Avoids, CR, LF]
    · intro header hmem
      obtain rfl := List.mem_singleton.1 hmem
      exact ⟨by simp [Avoids, COLON, CR, LF], by simp [Avoids, CR, LF]⟩
  obtain ⟨ok, h', data', hparse, hok, hfound⟩ :=
    parse_canonical _ hcanonical (by decide) [0x2a] .new 15
  obtain rfl := hok.2 (by decide)
  exact ⟨h', data', hparse, hfound rfl⟩

end Http
