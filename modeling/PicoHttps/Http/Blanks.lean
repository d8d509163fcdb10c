/-
**The blank after a colon.**

After the colon of a header line the parser skips one byte without looking at it.  Written with one
blank, a line is read as it is meant.  Without the blank the first byte of the value is lost, so
that a lookup sees another value unless an earlier line has the same name; and where the value is
empty it is the carriage return that is lost, so that the value goes on into the next line, or past
the end of the head.

Main definitions:

* `Http.Line`, `Http.Written` — a head, each of whose lines is written with its blank or without;
* `Http.Shadowed`, `Http.Harmless` — lines without a blank that no lookup sees;
* `Http.Unchanged` — the parser finds the same with and without the blanks.

Main results:

* `Http.readHeaders_kept` — what is read of lines whose values are not empty;
* `Http.kept_of_readHeaders` — **no line is swallowed** where as many are read as there are;
* `Http.lookup_seen_iff` — when no lookup tells the difference;
* `Http.blanks_optional` — when the blanks can be left out.
-/

import PicoHttps.Http.Canonical

set_option relaxedAutoImplicit false
set_option autoImplicit false

namespace Http

/-! ### Lines without a blank -/

/-- A header, and whether its line has a blank after the colon. -/
structure Line where
  name : List UInt8
  value : List UInt8
  blank : Bool
  deriving DecidableEq, Repr

namespace Line

variable (line : Line)

/-- The header that is meant. -/
def header : List UInt8 × List UInt8 := (line.name, line.value)

/-- The line without its end. -/
def text : List UInt8 :=
  line.name ++ COLON :: ((if line.blank then [SPACE] else []) ++ line.value)

/-- The line, as it is written. -/
def bytes : List UInt8 := line.text ++ [CR, LF]

/-- The header that is read where the value does not start with the end of the line. -/
def seen : List UInt8 × List UInt8 :=
  (line.name, if line.blank then line.value else line.value.tail)

@[simp] theorem header_fst : line.header.1 = line.name := rfl

@[simp] theorem seen_fst : line.seen.1 = line.name := rfl

/-- A byte of the line itself is skipped. -/
def Kept : Prop := line.blank = true ∨ line.value ≠ []

end Line

/-- The lines, and the empty line. -/
def linesBytes (lines : List Line) : List UInt8 := lines.flatMap Line.bytes ++ [CR, LF]

/-- The head of a message, as it is written. -/
structure Written where
  first : List UInt8
  second : List UInt8
  third : List UInt8
  lines : List Line
  deriving DecidableEq, Repr

/-- The head that is meant, in canonical form. -/
def Written.head (w : Written) : Head := ⟨w.first, w.second, w.third, w.lines.map Line.header⟩

/-- The bytes of the head, as it is written. -/
def Written.render (w : Written) : List UInt8 :=
  w.first ++ SPACE :: (w.second ++ SPACE :: (w.third ++ CR :: LF :: linesBytes w.lines))

/-! ### Reading the lines -/

section lines

variable {line : Line} {lines : List Line} {rest : List UInt8}

theorem Line.bytes_append (line : Line) (tail : List UInt8) :
    line.bytes ++ tail = line.name ++
      COLON :: ((if line.blank then [SPACE] else []) ++ (line.value ++ CR :: LF :: tail)) := by
  simp [Line.bytes, Line.text]

theorem Line.not_mem_text (h : CanonicalHeader line.header) : CR ∉ line.text := by
  have hname := h.name CR (by simp)
  have hvalue := h.value CR (by simp)
  have hcolon : CR ≠ COLON := by decide
  have hspace : CR ≠ SPACE := by decide
  have hblank : CR ∉ (if line.blank then [SPACE] else []) := by
    split
    · simp [hspace]
    · simp
  rw [Line.text]
  simp only [List.mem_append, List.mem_cons, not_or]
  exact ⟨hname, hcolon, hblank, hvalue⟩

/-- A line starts with a byte that is not the end of a line. -/
theorem Line.exists_cons (h : CanonicalHeader line.header) :
    ∃ b more, line.text = b :: more ∧ b ≠ CR := by
  have hno := line.not_mem_text h
  cases htext : line.text with
  | nil =>
      rw [Line.text, List.append_eq_nil_iff] at htext
      cases htext.2
  | cons b more =>
      rw [htext, List.mem_cons, not_or] at hno
      exact ⟨b, more, rfl, Ne.symm hno.1⟩

theorem linesBytes_nil (rest : List UInt8) : linesBytes [] ++ rest = CR :: LF :: rest := rfl

theorem linesBytes_cons (line : Line) (lines : List Line) (rest : List UInt8) :
    linesBytes (line :: lines) ++ rest = line.bytes ++ (linesBytes lines ++ rest) := by
  simp [linesBytes]

/-- Before the lines there is the empty line, or the first of them. -/
theorem blankLine_linesBytes (h : ∀ line ∈ lines, CanonicalHeader line.header)
    (rest : List UInt8) :
    blankLine (linesBytes lines ++ rest) = some (if lines = [] then some rest else none) := by
  cases lines with
  | nil => rfl
  | cons line lines =>
      obtain ⟨b, more, htext, hb⟩ := Line.exists_cons (h line List.mem_cons_self)
      rw [linesBytes_cons, Line.bytes, htext, if_neg (by simp)]
      cases more with
      | nil => exact congrArg some (if_neg fun hblank => hb hblank.1)
      | cons b1 more => exact congrArg some (if_neg fun hblank => hb hblank.1)

/-- A line of which a byte is skipped is read in one turn. -/
theorem readHeaders_keptLine (h : CanonicalHeader line.header) (hkept : line.Kept) (turns : ℕ)
    (tail : List UInt8) :
    readHeaders (turns + 1) (line.bytes ++ tail) = (blankLine tail).bind fun next =>
      next.elim ((readHeaders turns tail).map fun r => (line.seen :: r.1, r.2))
        fun rest => some ([line.seen], rest) := by
  obtain ⟨name, value, blank⟩ := line
  have hname : COLON ∉ name := h.name COLON (by simp)
  have hvalue : CR ∉ value := h.value CR (by simp)
  rw [Line.bytes_append]
  cases blank with
  | true => exact readHeaders_line hname hvalue turns SPACE tail
  | false =>
      cases value with
      | nil => rcases hkept with hblank | hne <;> contradiction
      | cons c value =>
          rw [List.mem_cons, not_or] at hvalue
          exact readHeaders_line hname hvalue.2 turns c tail

/-- **Lines of which a byte is skipped** are all read. -/
theorem readHeaders_kept {turns : ℕ} : ∀ {lines : List Line},
    (∀ line ∈ lines, CanonicalHeader line.header) → (∀ line ∈ lines, line.Kept) → lines ≠ [] →
    lines.length ≤ turns → ∀ rest,
    readHeaders turns (linesBytes lines ++ rest) = some (lines.map Line.seen, rest) := by
  induction turns with
  | zero =>
      intro lines _ _ hne hle rest
      exact absurd (List.eq_nil_of_length_eq_zero (Nat.le_zero.1 hle)) hne
  | succ turns ih =>
      intro lines h hkept hne hle rest
      cases lines with
      | nil => exact absurd rfl hne
      | cons line lines =>
          have h' : ∀ other ∈ lines, CanonicalHeader other.header :=
            fun other hmem => h other (List.mem_cons_of_mem line hmem)
          rw [linesBytes_cons, readHeaders_keptLine (h line List.mem_cons_self)
            (hkept line List.mem_cons_self), blankLine_linesBytes h', Option.bind_some]
          by_cases hnil : lines = []
          · subst hnil
            rfl
          · rw [if_neg hnil, Option.elim_none, ih h'
              (fun other hmem => hkept other (List.mem_cons_of_mem line hmem)) hnil
              (Nat.le_of_succ_le_succ hle) rest]
            rfl

/-- Something is taken off the list by every head that is read. -/
theorem readHeaders_lt {turns : ℕ} {xs rest : List UInt8}
    {headers : List (List UInt8 × List UInt8)} (h : readHeaders turns xs = some (headers, rest)) :
    rest.length < xs.length := by
  cases turns with
  | zero =>
      obtain ⟨r, hskip, heq⟩ := Option.map_eq_some_iff.1 h
      cases heq
      obtain ⟨before, rfl, -⟩ := HTTPHeader.endLoop_some hskip 0
      simp only [List.length_append, List.length_cons]
      omega
  | succ turns =>
      obtain ⟨name, ys, value, zs, tail, line, hname, hvalue, htail, hline, hrest⟩ :=
        readHeaders_succ h
      have hle : rest.length ≤ tail.length := by
        rcases hrest with ⟨rfl, -⟩ | ⟨-, headers', hheaders, -⟩
        · exact (blankLine_suffix hline).length_le
        · exact (readHeaders_suffix hheaders).length_le
      obtain ⟨rfl, -⟩ := Text.cut_eq_some hname
      have hzs := (lineFeed_suffix htail).length_le
      have hys := (cut_suffix hvalue).length_le
      rw [List.length_drop] at hys
      simp only [List.length_append, List.length_cons]
      omega

/-- The value of a line without blank and value starts with the line feed, and goes on up to the
next carriage return. -/
theorem readHeaders_swallow (h : CanonicalHeader line.header) (hkept : ¬ line.Kept) {turns : ℕ}
    {headers : List (List UInt8 × List UInt8)} {text tail rest : List UInt8} (htext : CR ∉ text)
    (hread : readHeaders (turns + 1) (line.bytes ++ (text ++ CR :: LF :: tail)) =
      some (headers, rest)) :
    ∃ after, blankLine tail = some after ∧ (after = some rest ∧ headers.length = 1 ∨
      after = none ∧ ∃ headers', readHeaders turns tail = some (headers', rest) ∧
        headers.length = headers'.length + 1) := by
  obtain ⟨hblank, hvalue⟩ := not_or.1 hkept
  rw [Bool.not_eq_true] at hblank
  rw [ne_eq, not_not] at hvalue
  obtain ⟨name, value, blank⟩ := line
  obtain rfl : blank = false := hblank
  obtain rfl : value = [] := hvalue
  have hname : COLON ∉ name := h.name COLON (by simp)
  have hlf : CR ∉ LF :: text := by
    rw [List.mem_cons, not_or]
    exact ⟨by decide, htext⟩
  -- it is the carriage return that is skipped
  have hbytes : (⟨name, [], false⟩ : Line).bytes ++ (text ++ CR :: LF :: tail) =
      name ++ COLON :: CR :: (LF :: text ++ CR :: LF :: tail) := by
    simp [Line.bytes, Line.text]
  rw [hbytes, readHeaders_line hname hlf, Option.bind_eq_some_iff] at hread
  obtain ⟨after, hafter, hread⟩ := hread
  refine ⟨after, hafter, ?_⟩
  cases after with
  | some r =>
      cases hread
      exact .inl ⟨rfl, rfl⟩
  | none =>
      obtain ⟨⟨headers', r⟩, hheaders, heq⟩ := Option.map_eq_some_iff.1 hread
      cases heq
      exact .inr ⟨rfl, headers', hheaders, rfl⟩

/-- The last line goes on past the end of the head, ... -/
theorem readHeaders_swallow_end (h : CanonicalHeader line.header) (hkept : ¬ line.Kept) {turns : ℕ}
    {headers : List (List UInt8 × List UInt8)} {body rest : List UInt8}
    (hread : readHeaders (turns + 1) (line.bytes ++ CR :: LF :: body) = some (headers, rest)) :
    rest.length < body.length := by
  obtain ⟨after, hafter, ⟨rfl, -⟩ | ⟨-, headers', hheaders, -⟩⟩ :=
    readHeaders_swallow h hkept List.not_mem_nil hread
  · rw [eq_of_blankLine hafter, List.length_cons, List.length_cons]
    omega
  · exact readHeaders_lt hheaders

/-- ... and any other goes on into the next one. -/
theorem readHeaders_swallow_next {next : Line} (h : CanonicalHeader line.header)
    (hkept : ¬ line.Kept) (hnext : CanonicalHeader next.header) {turns : ℕ}
    {headers : List (List UInt8 × List UInt8)} {tail rest : List UInt8}
    (hread : readHeaders (turns + 1) (line.bytes ++ (next.bytes ++ tail)) = some (headers, rest)) :
    ∃ after, blankLine tail = some after ∧ (after = some rest ∧ headers.length = 1 ∨
      after = none ∧ ∃ headers', readHeaders turns tail = some (headers', rest) ∧
        headers.length = headers'.length + 1) := by
  have hbytes : next.bytes ++ tail = next.text ++ CR :: LF :: tail := by
    rw [Line.bytes, List.append_assoc]
    rfl
  rw [hbytes] at hread
  exact readHeaders_swallow h hkept (next.not_mem_text hnext) hread

/-- **No line is swallowed** where the head is read up to its end and as many headers are read as
there are lines. -/
theorem kept_of_readHeaders {turns : ℕ} : ∀ {lines : List Line} {body rest : List UInt8}
    {headers : List (List UInt8 × List UInt8)},
    (∀ line ∈ lines, CanonicalHeader line.header) → lines ≠ [] →
    readHeaders turns (linesBytes lines ++ body) = some (headers, rest) →
    lines.length ≤ turns → body.length ≤ rest.length →
      headers.length ≤ lines.length ∧
        (headers.length = lines.length → ∀ line ∈ lines, line.Kept) := by
  induction turns with
  | zero =>
      intro lines body rest headers _ hne _ hle _
      exact absurd (List.eq_nil_of_length_eq_zero (Nat.le_zero.1 hle)) hne
  | succ turns ih =>
      intro lines body rest headers h hne hread hle hend
      cases lines with
      | nil => exact absurd rfl hne
      | cons line lines =>
          have hline := h line List.mem_cons_self
          have h' : ∀ other ∈ lines, CanonicalHeader other.header :=
            fun other hmem => h other (List.mem_cons_of_mem line hmem)
          rw [List.length_cons] at hle ⊢
          rw [linesBytes_cons] at hread
          by_cases hkept : line.Kept
          · rw [readHeaders_keptLine hline hkept, blankLine_linesBytes h', Option.bind_some] at hread
            by_cases hnil : lines = []
            · subst hnil
              cases hread
              refine ⟨Nat.le_refl 1, fun _ other hmem => ?_⟩
              obtain rfl := List.mem_singleton.1 hmem
              exact hkept
            · rw [if_neg hnil, Option.elim_none] at hread
              obtain ⟨⟨headers', r⟩, hheaders, heq⟩ := Option.map_eq_some_iff.1 hread
              cases heq
              obtain ⟨hcount, hall⟩ := ih h' hnil hheaders (Nat.le_of_succ_le_succ hle) hend
              refine ⟨Nat.succ_le_succ hcount, fun heq other hmem => ?_⟩
              rcases List.mem_cons.1 hmem with rfl | hmem
              · exact hkept
              · exact hall (Nat.succ.inj heq) other hmem
          · -- the value is empty and there is no blank
            cases lines with
            | nil =>
                rw [linesBytes_nil] at hread
                have hlt := readHeaders_swallow_end hline hkept hread
                omega
            | cons next lines =>
                have h'' : ∀ other ∈ lines, CanonicalHeader other.header :=
                  fun other hmem => h' other (List.mem_cons_of_mem next hmem)
                rw [linesBytes_cons] at hread
                obtain ⟨after, hafter, hrest⟩ :=
                  readHeaders_swallow_next hline hkept (h' next List.mem_cons_self) hread
                rw [List.length_cons] at hle ⊢
                rcases hrest with ⟨-, hone⟩ | ⟨rfl, headers', hheaders, hcount⟩
                · exact ⟨by omega, fun heq => by omega⟩
                · have hnil : lines ≠ [] := by
                    rintro rfl
                    rw [linesBytes_nil] at hafter
                    cases hafter
                  obtain ⟨hcount', -⟩ := ih h'' hnil hheaders (by omega) hend
                  exact ⟨by omega, fun heq => by omega⟩

end lines

/-! ### Looking up what is read -/

/-- An earlier line has the same name, in letters of any case. -/
def Shadowed (before : List Line) (line : Line) : Prop :=
  ∃ other ∈ before, other.name.map Text.toLower = line.name.map Text.toLower

/-- Every line without a blank has a value, and a lookup of its name finds an earlier line. -/
def Harmless (lines : List Line) : Prop :=
  ∀ before line after, lines = before ++ line :: after → line.blank = false →
    line.value ≠ [] ∧ Shadowed before line

section lookup

variable {lines : List Line}

theorem lookup_append (xs ys : List (List UInt8 × List UInt8)) (name : List UInt8) :
    lookup (xs ++ ys) name = (lookup xs name).or (lookup ys name) := by
  rw [lookup, lookup, lookup, List.find?_append]
  cases xs.find? fun header => header.1.map Text.toLower = name.map Text.toLower <;> rfl

theorem lookup_cons (header : List UInt8 × List UInt8) (headers : List (List UInt8 × List UInt8))
    (name : List UInt8) : lookup (header :: headers) name =
      if header.1.map Text.toLower = name.map Text.toLower then some header.2
      else lookup headers name := by
  rw [lookup, List.find?_cons]
  by_cases hsame : header.1.map Text.toLower = name.map Text.toLower
  · rw [decide_eq_true hsame, if_pos hsame]
    rfl
  · rw [decide_eq_false hsame, if_neg hsame]
    rfl

/-- A name is found in lines exactly where one of them has it. -/
theorem lookup_eq_none_iff (lines : List Line) (f : Line → List UInt8 × List UInt8)
    (hf : ∀ line, (f line).1 = line.name) (line : Line) :
    lookup (lines.map f) line.name = none ↔ ¬ Shadowed lines line := by
  rw [lookup, Option.map_eq_none_iff, List.find?_eq_none, Shadowed]
  simp [hf]

/-- A lookup that comes to the lines `after` has not found the name before them. -/
theorem Harmless.lookup_seen (hharmless : Harmless lines) (name : List UInt8) (after : List Line) :
    ∀ before : List Line, lines = before ++ after →
      (∀ line ∈ before, line.name.map Text.toLower ≠ name.map Text.toLower) →
        lookup (after.map Line.seen) name = lookup (after.map Line.header) name := by
  induction after with
  | nil =>
      intro before _ _
      rfl
  | cons line after ih =>
      intro before hsplit hbefore
      rw [List.map_cons, List.map_cons, lookup_cons, lookup_cons, Line.seen_fst, Line.header_fst]
      by_cases hsame : line.name.map Text.toLower = name.map Text.toLower
      · rw [if_pos hsame, if_pos hsame]
        cases hblank : line.blank with
        | true =>
            rw [Line.seen, hblank]
            rfl
        | false =>
            obtain ⟨-, other, hmem, hother⟩ := hharmless before line after hsplit hblank
            exact absurd (hother.trans hsame) (hbefore other hmem)
      · rw [if_neg hsame, if_neg hsame]
        have hsplit' : lines = before ++ [line] ++ after := by
          rw [hsplit, List.append_assoc, List.singleton_append]
        refine ih (before ++ [line]) hsplit' fun other hmem => ?_
        rcases List.mem_append.1 hmem with hmem | hmem
        · exact hbefore other hmem
        · rw [List.mem_singleton.1 hmem]
          exact hsame

/-- **When no lookup tells the difference** between what is meant and what is read. -/
theorem lookup_seen_iff (h : ∀ line ∈ lines, CanonicalHeader line.header)
    (hkept : ∀ line ∈ lines, line.Kept) :
    (∀ name, 0 ∉ name →
      lookup (lines.map Line.seen) name = lookup (lines.map Line.header) name) ↔
      Harmless lines := by
  constructor
  · rintro hall before line after rfl hblank
    have hmem : line ∈ before ++ line :: after := by simp
    have hvalue : line.value ≠ [] := (hkept line hmem).resolve_left (by simp [hblank])
    refine ⟨hvalue, ?_⟩
    by_contra hfirst
    have hname := hall line.name ((h line hmem).name 0 (by simp))
    rw [List.map_append, List.map_append, lookup_append, lookup_append,
      (lookup_eq_none_iff before Line.seen (fun _ => rfl) line).2 hfirst,
      (lookup_eq_none_iff before Line.header (fun _ => rfl) line).2 hfirst, List.map_cons,
      List.map_cons, lookup_cons, lookup_cons, Line.seen_fst, Line.header_fst, if_pos rfl,
      if_pos rfl] at hname
    have htail : line.value.tail = line.value := by
      simpa [Line.seen, Line.header, hblank] using hname
    cases hval : line.value with
    | nil => exact hvalue hval
    | cons b value =>
        rw [hval] at htail
        exact absurd (congrArg List.length htail) (by simp)
  · intro hharmless name _
    exact hharmless.lookup_seen name lines [] rfl (by simp)

/-- What is read of a canonical line is canonical. -/
theorem canonical_seen (h : ∀ line ∈ lines, CanonicalHeader line.header) :
    ∀ header ∈ lines.map Line.seen, CanonicalHeader header := by
  intro header hmem
  obtain ⟨line, hline, rfl⟩ := List.mem_map.1 hmem
  obtain ⟨hname, hvalue⟩ := h line hline
  refine ⟨hname, fun b hb hmem => hvalue b hb ?_⟩
  rw [Line.seen] at hmem
  split at hmem
  · exact hmem
  · exact List.mem_of_mem_tail hmem

theorem Harmless.kept (h : Harmless lines) : ∀ line ∈ lines, line.Kept := by
  intro line hmem
  obtain ⟨before, after, rfl⟩ := List.append_of_mem hmem
  cases hblank : line.blank with
  | true => exact .inl hblank
  | false => exact .inr (h before line after rfl hblank).1

end lookup

/-! ### The parser with and without the blanks -/

/-- The parser answers the same for the head in canonical form and as it is written, with a body
behind it, and finds as many headers and the same value for every name; and it says that the head
ends where it does. -/
def Unchanged (h : HTTPHeader) (w : Written) (body : List UInt8) : Prop :=
  ∃ ok h₁ data₁ h₂ data₂, h.parse (w.head.render ++ body) = some (ok, h₁, data₁) ∧
    h.parse (w.render ++ body) = some (ok, h₂, data₂) ∧
    h₂.getNumHeaders = h₁.getNumHeaders ∧
    (∀ name, 0 ∉ name → h₂.getHeaderValue data₂ name = h₁.getHeaderValue data₁ name) ∧
    h₂.getHeaderSize = w.render.length

section parse

variable {w : Written} {body : List UInt8}

/-- The head in canonical form is found. -/
theorem Written.found_head (h : HTTPHeader) (hw : CanonicalRequest w.head)
    (hcount : w.lines.length ≤ 20) (body : List UInt8) :
    ∃ h₁ data₁, h.parse (w.head.render ++ body) = some (true, h₁, data₁) ∧
      h₁.getNumHeaders = w.lines.length ∧ ∀ name, 0 ∉ name →
        h₁.getHeaderValue data₁ name = some (lookup (w.lines.map Line.header) name) := by
  have htake : w.head.headers.take MAX_HEADERS = w.lines.map Line.header :=
    List.take_of_length_le (by simpa [Written.head] using hcount)
  obtain ⟨h₁, mem, hparse, -, hholds, -⟩ := HTTPHeader.parse_some h
    (Head.readMessage_render hw.toCanonical hw.code body)
  rw [htake] at hholds
  have hall := hholds.append ((w.head.render ++ body).drop w.head.render.length)
  refine ⟨h₁, _, hparse, ?_, fun name hname => HTTPHeader.getHeaderValue_eq hall hw.headers hname⟩
  rw [HTTPHeader.getNumHeaders_eq hall, List.length_map]

/-- Lines that are kept are read behind the first line. -/
theorem Written.readMessage_kept (hw : CanonicalRequest w.head) (hcount : w.lines.length ≤ 20)
    (hkept : ∀ line ∈ w.lines, line.Kept) (body : List UInt8) :
    readMessage (w.render ++ body) =
      some ⟨w.first, w.second, 0, w.lines.map Line.seen, w.render.length⟩ := by
  have hlines : ∀ line ∈ w.lines, CanonicalHeader line.header := fun line hmem =>
    hw.headers _ (List.mem_map_of_mem hmem)
  have hsplit : w.render ++ body = w.first ++ SPACE :: (w.second ++ SPACE ::
      (w.third ++ CR :: LF :: (linesBytes w.lines ++ body))) := by
    simp [Written.render]
  have hsize : (w.render ++ body).length - body.length = w.render.length := by
    rw [List.length_append, Nat.add_sub_cancel]
  have hblank := blankLine_linesBytes hlines body
  rw [← hsize, hsplit]
  refine readMessage_line (hw.first SPACE (by simp)) (hw.second SPACE (by simp))
    (hw.third LF (by simp)) hw.code ?_
  by_cases hnil : w.lines = []
  · rw [if_pos hnil] at hblank
    exact .inl ⟨by rw [hnil]; rfl, hblank⟩
  · rw [if_neg hnil] at hblank
    exact .inr ⟨hblank, readHeaders_kept hlines hkept hnil hcount body⟩

/-- Of a head that is read up to its end, with as many headers as lines, no line is swallowed. -/
theorem Written.kept_of_readMessage (hw : CanonicalRequest w.head) (hcount : w.lines.length ≤ 20)
    {m : Message} (hread : readMessage (w.render ++ body) = some m)
    (hheaders : m.headers.length = w.lines.length) (hsize : m.size = w.render.length) :
    ∀ line ∈ w.lines, line.Kept := by
  have hlines : ∀ line ∈ w.lines, CanonicalHeader line.header := fun line hmem =>
    hw.headers _ (List.mem_map_of_mem hmem)
  obtain ⟨ys, zs, version, tail, after, rest, hfirst, hsecond, -, hversion, hafter, hm, hrest⟩ :=
    readMessage_some hread
  have hsplit : w.render ++ body = w.first ++ SPACE :: (w.second ++ SPACE ::
      (w.third ++ CR :: LF :: (linesBytes w.lines ++ body))) := by
    simp [Written.render]
  have hcr : LF ∉ w.third ++ [CR] := by
    rw [List.mem_append, not_or]
    exact ⟨hw.third LF (by simp), by decide⟩
  have hcut := Text.cut_of_not_mem hcr (linesBytes w.lines ++ body)
  rw [List.append_assoc, List.singleton_append] at hcut
  -- the first line is read as it is written
  have hspace : SPACE ∉ w.first := hw.first SPACE (by simp)
  have hspace' : SPACE ∉ w.second := hw.second SPACE (by simp)
  rw [hsplit, Text.cut_of_not_mem hspace] at hfirst
  obtain ⟨-, rfl⟩ := Prod.mk.inj (Option.some.inj hfirst)
  rw [Text.cut_of_not_mem hspace'] at hsecond
  obtain ⟨-, rfl⟩ := Prod.mk.inj (Option.some.inj hsecond)
  rw [hcut] at hversion
  obtain ⟨-, rfl⟩ := Prod.mk.inj (Option.some.inj hversion)
  rw [blankLine_linesBytes hlines] at hafter
  obtain rfl := Option.some.inj hafter
  by_cases hnil : w.lines = []
  · intro line hmem
    rw [hnil] at hmem
    cases hmem
  · rw [if_neg hnil] at hrest
    obtain ⟨hsome, -⟩ | ⟨-, hread'⟩ := hrest
    · cases hsome
    · rw [hsize, List.length_append] at hm
      have hpos : 0 < w.render.length := by
        rw [Written.render, List.length_append, List.length_cons]
        omega
      exact (kept_of_readHeaders hlines hnil hread' hcount (by omega)).2 hheaders

/-- A head is not longer without its blanks. -/
theorem Written.length_render_le (w : Written) : w.render.length ≤ w.head.render.length := by
  have hlines : ∀ lines : List Line,
      (linesBytes lines).length ≤ (headerLines (lines.map Line.header)).length := by
    intro lines
    induction lines with
    | nil => exact Nat.le_refl _
    | cons line lines ih =>
        have hline : line.bytes.length ≤ (headerLine line.header).length := by
          cases hblank : line.blank <;>
            simp [Line.bytes, Line.text, headerLine, Line.header, hblank]
        simp only [linesBytes, headerLines, List.map_cons, List.flatMap_cons,
          List.length_append] at ih ⊢
        omega
  have hle := hlines w.lines
  simp only [Written.render, Written.head, Head.render, List.length_append, List.length_cons]
  omega

/-- **Harmless lines are found unchanged.** -/
theorem unchanged_of_harmless (h : HTTPHeader) (hw : CanonicalRequest w.head)
    (hcount : w.lines.length ≤ 20) (hsize : w.head.render.length ≤ 65535)
    (hharmless : Harmless w.lines) (body : List UInt8) : Unchanged h w body := by
  have hlines : ∀ line ∈ w.lines, CanonicalHeader line.header := fun line hmem =>
    hw.headers _ (List.mem_map_of_mem hmem)
  obtain ⟨h₁, data₁, hparse₁, hnum₁, hvalue₁⟩ := Written.found_head h hw hcount body
  obtain ⟨h₂, mem, hparse₂, -, hholds, -⟩ := HTTPHeader.parse_some h
    (Written.readMessage_kept hw hcount hharmless.kept body)
  have hall := hholds.append ((w.render ++ body).drop w.render.length)
  have hle := w.length_render_le
  refine ⟨true, h₁, data₁, h₂, _, hparse₁, hparse₂, ?_, ?_, ?_⟩
  · rw [HTTPHeader.getNumHeaders_eq hall, hnum₁, List.length_map]
  · intro name hname
    rw [hvalue₁ name hname, HTTPHeader.getHeaderValue_eq hall (canonical_seen hlines) hname,
      (lookup_seen_iff hlines hharmless.kept).2 hharmless name hname]
  · rw [HTTPHeader.getHeaderSize, hall.headerSize]
    exact Nat.mod_eq_of_lt (show w.render.length < 2 ^ 16 by omega)

/-- **Lines that are found unchanged are harmless**, where the data is not larger than a
`uint16_t` can say. -/
theorem harmless_of_unchanged (h : HTTPHeader) (hw : CanonicalRequest w.head)
    (hcount : w.lines.length ≤ 20) (hdata : (w.render ++ body).length ≤ 65535)
    (hunchanged : Unchanged h w body) : Harmless w.lines := by
  have hlines : ∀ line ∈ w.lines, CanonicalHeader line.header := fun line hmem =>
    hw.headers _ (List.mem_map_of_mem hmem)
  obtain ⟨h₁, data₁, hparse₁, hnum₁, hvalue₁⟩ := Written.found_head h hw hcount body
  obtain ⟨ok, h₁', data₁', h₂, data₂, hparse₁', hparse₂, hnum, hvalue, hsize⟩ := hunchanged
  rw [hparse₁] at hparse₁'
  cases hparse₁'
  cases hread : readMessage (w.render ++ body) with
  | none =>
      obtain ⟨h', data', hparse⟩ := HTTPHeader.parse_none h hread
      rw [hparse₂] at hparse
      cases hparse
  | some m =>
      obtain ⟨h₂', mem, hparse, -, hholds, -⟩ := HTTPHeader.parse_some h hread
      rw [hparse₂] at hparse
      cases hparse
      have hall := hholds.append ((w.render ++ body).drop m.size)
      have hheaders : m.headers.length = w.lines.length := by
        rw [← HTTPHeader.getNumHeaders_eq hall, hnum, hnum₁]
      have hm : m.size = w.render.length := by
        have hle := size_le_of_readMessage hread
        rw [← hsize, HTTPHeader.getHeaderSize, hall.headerSize]
        exact (Nat.mod_eq_of_lt (by omega)).symm
      have hkept := Written.kept_of_readMessage hw hcount hread hheaders hm
      rw [Written.readMessage_kept hw hcount hkept] at hread
      cases hread
      refine (lookup_seen_iff hlines hkept).1 fun name hname => ?_
      have hname' := hvalue name hname
      rw [hvalue₁ name hname, HTTPHeader.getHeaderValue_eq hall (canonical_seen hlines) hname]
        at hname'
      exact Option.some.inj hname'

end parse

/-- **When the blanks can be left out.**  Of a canonical request of at most 20 header lines, some
are written without the blank after the colon.  If each of these has a value and an earlier line
has the same name, the parser finds the same as in canonical form, whatever follows the head; and
where head and body are of at most 65535 bytes, only then. -/
theorem blanks_optional (h : HTTPHeader) (w : Written) (hw : CanonicalRequest w.head)
    (hcount : w.lines.length ≤ 20) (hsize : w.head.render.length ≤ 65535) (body : List UInt8) :
    (Harmless w.lines → Unchanged h w body) ∧
      ((w.render ++ body).length ≤ 65535 → (Unchanged h w body ↔ Harmless w.lines)) :=
  ⟨fun hharmless => unchanged_of_harmless h hw hcount hsize hharmless body, fun hdata =>
    ⟨harmless_of_unchanged h hw hcount hdata, fun hharmless =>
      unchanged_of_harmless h hw hcount hsize hharmless body⟩⟩

/-- The request `G / H` with the lines `a: b` and `A:c`; a lookup of either name finds the first. -/
theorem blanks_optional_example :
    Unchanged .new ⟨[0x47], [0x2f], [0x48], [⟨[0x61], [0x62], true⟩, ⟨[0x41], [0x63], false⟩]⟩
      [0x2a] := by
  have hw : CanonicalRequest (Written.head
      ⟨[0x47], [0x2f], [0x48], [⟨[0x61], [0x62], true⟩, ⟨[0x41], [0x63], false⟩]⟩) := by
    refine ⟨⟨?_, ?_, ?_, ?_⟩, rfl⟩
    · simp [Written.head, Avoids, SPACE, CR, LF]
    · simp [Written.head, Avoids, SPACE, CR, LF]
    · simp [Written.head, Avoids, CR, LF]
    · intro header hmem
      simp only [Written.head, List.map_cons, List.map_nil, List.mem_cons, List.not_mem_nil,
        or_false] at hmem
      rcases hmem with rfl | rfl
      · exact ⟨by simp [Line.header, Avoids, COLON, CR, LF], by simp [Line.header, Avoids, CR, LF]⟩
      · exact ⟨by simp [Line.header, Avoids, COLON, CR, LF], by simp [Line.header, Avoids, CR, LF]⟩
  refine (blanks_optional .new _ hw (by decide) (by decide) [0x2a]).1 ?_
  intro before line after heq hblank
  rcases before with _ | ⟨first, _ | ⟨second, before⟩⟩
  · cases heq
    cases hblank
  · cases heq
    exact ⟨by simp, ⟨[0x61], [0x62], true⟩, by simp, by decide⟩
  · simp at heq

/-- The value of the line `a:bc` is found to be `c`. -/
theorem first_byte_lost :
    ¬ Unchanged .new ⟨[0x47], [0x2f], [0x48], [⟨[0x61], [0x62, 0x63], false⟩]⟩ [] := by
  intro hunchanged
  have hw : CanonicalRequest (Written.head
      ⟨[0x47], [0x2f], [0x48], [⟨[0x61], [0x62, 0x63], false⟩]⟩) := by
    refine ⟨⟨?_, ?_, ?_, ?_⟩, rfl⟩
    · simp [Written.head, Avoids, SPACE, CR, LF]
    · simp [Written.head, Avoids, SPACE, CR, LF]
    · simp [Written.head, Avoids, CR, LF]
    · intro header hmem
      obtain rfl := List.mem_singleton.1 hmem
      exact ⟨by simp [Line.header, Avoids, COLON, CR, LF], by simp [Line.header, Avoids, CR, LF]⟩
  have hharmless := harmless_of_unchanged .new hw (by decide) (by decide) hunchanged
  obtain ⟨-, other, hmem, -⟩ := hharmless [] _ [] rfl rfl
  cases hmem

end Http
