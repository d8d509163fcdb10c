/-
**The lines of a message.**

The parser looks for a space or a colon wherever the next one is, and it skips the byte after a
colon unseen; so what it takes for a token, a name or a value can reach over the end of a line, and
then the empty line that it stops at need not be the first one.  This module has what it means for
a head to end where its first empty line does, with each of its pieces inside of one line, and the
condition on the bytes of the head under which the parser keeps to that.

Main definitions:

* `Http.EndsHead` — the offset just past the first empty line;
* `Http.Bounded` — what the parser has found keeps to the lines;
* `Http.HeadersLined`, `Http.Lined` — **the data in which it does**.

Main results:

* `Http.headersLined_iff`, `Http.skipLines_readHeaders` — the lines of the headers, one by one;
* `Http.lined_iff` — the condition, on what is read;
* `Http.parse_bounded_iff` — **the parser keeps to the lines exactly when they are as it expects**;
* `Http.avoids_of_parse` — and then so does every string that a caller reads.
-/

import PicoHttps.Http.Canonical

set_option relaxedAutoImplicit false
set_option autoImplicit false

namespace Http

/-! ### The first empty line -/

/-- The end of a line, and an empty line. -/
abbrev EMPTY_LINE : List UInt8 := [CR, LF, CR, LF]

/-- The first empty line of the data ends at the offset `e`. -/
def EndsHead (data : List UInt8) (e : ℕ) : Prop :=
  ∃ k, e = k + 4 ∧ EMPTY_LINE <+: data.drop k ∧ ∀ j < k, ¬ EMPTY_LINE <+: data.drop j

theorem emptyLine_prefix_iff {b0 b1 b2 b3 : UInt8} {xs : List UInt8} :
    EMPTY_LINE <+: b0 :: b1 :: b2 :: b3 :: xs ↔ b0 = CR ∧ b1 = LF ∧ b2 = CR ∧ b3 = LF := by
  simp only [List.cons_prefix_cons, List.nil_prefix, and_true, eq_comm]

theorem endsHead_of_skipLines {xs rest : List UInt8} (h : skipLines xs = some rest) :
    EndsHead xs (xs.length - rest.length) := by
  fun_induction skipLines xs with
  | case1 b0 b1 b2 b3 xs hblank =>
      cases h
      refine ⟨0, ?_, emptyLine_prefix_iff.2 hblank, fun j hj => absurd hj (Nat.not_lt_zero j)⟩
      simp only [List.length_cons]
      omega
  | case2 b0 b1 b2 b3 xs hblank ih =>
      obtain ⟨k, he, hat, hfirst⟩ := ih h
      have hle := (skipLines_suffix h).length_le
      refine ⟨k + 1, ?_, hat, ?_⟩
      · rw [List.length_cons, Nat.sub_add_comm hle, he]
      · intro j hj
        cases j with
        | zero => exact fun hprefix => hblank (emptyLine_prefix_iff.1 hprefix)
        | succ j => exact hfirst j (by omega)
  | case3 xs => cases h

/-- What is in front of the end of a head ends in an empty line. -/
theorem EndsHead.exists_eq {data : List UInt8} {e : ℕ} (h : EndsHead data e) :
    ∃ before, data = before ++ (EMPTY_LINE ++ data.drop e) := by
  obtain ⟨k, rfl, ⟨rest, hrest⟩, -⟩ := h
  refine ⟨data.take k, ?_⟩
  have hdrop : data.drop (k + 4) = rest := by
    rw [← List.drop_drop, ← hrest]
    rfl
  rw [hdrop, hrest, List.take_append_drop]

/-- A part without line feeds is skipped, unless what follows it can be the rest of an empty
line. -/
theorem skipLines_append_of_no_lf {a ys : List UInt8} (ha : LF ∉ a)
    (hys : ¬ [LF, CR, LF] <+: ys) : skipLines (a ++ ys) = skipLines ys := by
  induction a with
  | nil => rfl
  | cons b a ih =>
      rw [List.mem_cons, not_or] at ha
      rw [List.cons_append, ← ih ha.2]
      rcases hcut : a ++ ys with _ | ⟨b1, _ | ⟨b2, _ | ⟨b3, xs⟩⟩⟩
      · rfl
      · rfl
      · rfl
      · rw [skipLines, if_neg]
        rintro ⟨-, rfl, rfl, rfl⟩
        -- the line feed is not in the part that is skipped
        cases a with
        | nil => exact hys ⟨xs, hcut.symm⟩
        | cons x a =>
            obtain ⟨rfl, -⟩ := List.cons.inj hcut
            exact ha.2 List.mem_cons_self

/-- A line in front of a line that is not empty. -/
theorem skipLines_of_line {a tail : List UInt8} (ha : LF ∉ a) (htail : ¬ [CR, LF] <+: tail) :
    skipLines (a ++ LF :: tail) = skipLines tail := by
  rw [skipLines_append_of_no_lf ha, skipLines_cons_of_ne (by decide)]
  intro hprefix
  exact htail ((List.cons_prefix_cons.1 hprefix).2)

/-- A line in front of the empty line. -/
theorem skipLines_of_last {a : List UInt8} (ha : LF ∉ a) (rest : List UInt8) :
    skipLines (a ++ CR :: LF :: CR :: LF :: rest) = some rest := by
  rw [skipLines_append_of_no_lf ha (by simp [CR, LF]), skipLines, if_pos ⟨rfl, rfl, rfl, rfl⟩]

/-- Whether an empty line is at the front of a list. -/
theorem blankLine_eq_none_iff {xs : List UInt8} {line : Option (List UInt8)}
    (h : blankLine xs = some line) : line = none ↔ ¬ [CR, LF] <+: xs := by
  obtain ⟨b0, b1, ys, rfl⟩ := Bytes.exists_two (length_of_blankLine h)
  obtain rfl := Option.some.inj h
  have hiff : [CR, LF] <+: b0 :: b1 :: ys ↔ b0 = CR ∧ b1 = LF := by
    simp only [List.cons_prefix_cons, List.nil_prefix, and_true, eq_comm]
  rw [hiff]
  by_cases hblank : b0 = CR ∧ b1 = LF
  · simp [hblank]
  · simp [hblank]

/-! ### Lines -/

/-- The line at the front of a list, up to its first CR or LF. -/
def lineOf (xs : List UInt8) : List UInt8 := xs.takeWhile fun b => b ≠ CR ∧ b ≠ LF

/-- The line at the front of a list ends as lines do. -/
def LineEnds (xs : List UInt8) : Prop := [CR, LF] <+: xs.drop (lineOf xs).length

instance (xs : List UInt8) : Decidable (LineEnds xs) :=
  inferInstanceAs (Decidable ([CR, LF] <+: _))

/-- What follows the line at the front of a list. -/
def nextLine (xs : List UInt8) : List UInt8 := xs.drop ((lineOf xs).length + 2)

/-- What follows the first colon and the byte after it. -/
def afterColon (xs : List UInt8) : List UInt8 := (xs.dropWhile (· ≠ COLON)).drop 2

/-- What follows the first line feed. -/
def afterFirst (xs : List UInt8) : List UInt8 := (xs.dropWhile (· ≠ LF)).drop 1

section lineOf

variable {a b xs : List UInt8} {c : UInt8}

theorem lineOf_append (ha : Avoids a [CR, LF]) (b : List UInt8) :
    lineOf (a ++ b) = a ++ lineOf b := by
  refine List.takeWhile_append_of_pos ?_
  intro x hx
  refine decide_eq_true ⟨?_, ?_⟩
  · rintro rfl
    exact ha CR (by simp) hx
  · rintro rfl
    exact ha LF (by simp) hx

/-- A line ends at the first end of a line. -/
theorem lineOf_append_of_not (ha : ¬ Avoids a [CR, LF]) (b : List UInt8) :
    lineOf (a ++ b) = lineOf a := by
  induction a with
  | nil => exact absurd (fun c _ hc => by cases hc) ha
  | cons x a ih =>
      by_cases hx : x ≠ CR ∧ x ≠ LF
      · have hrest : ¬ Avoids a [CR, LF] := by
          intro havoid
          refine ha fun c hc hmem => ?_
          rcases List.mem_cons.1 hmem with rfl | hmem
          · simp only [List.mem_cons, List.not_mem_nil, or_false] at hc
            rcases hc with hc | hc
            · exact hx.1 hc
            · exact hx.2 hc
          · exact havoid c hc hmem
        rw [List.cons_append, lineOf, List.takeWhile_cons_of_pos (by simpa using hx), lineOf,
          List.takeWhile_cons_of_pos (by simpa using hx)]
        exact congrArg (x :: ·) (ih hrest)
      · rw [List.cons_append, lineOf, List.takeWhile_cons_of_neg (by simpa using hx), lineOf,
          List.takeWhile_cons_of_neg (by simpa using hx)]

theorem lineOf_subset (xs : List UInt8) : lineOf xs ⊆ xs := (List.takeWhile_prefix _).subset

/-- A separator in a line: what is in front of it is in the line. -/
theorem mem_lineOf_iff (hc : c ∉ a) (hcr : c ≠ CR) (hlf : c ≠ LF) (b : List UInt8) :
    c ∈ lineOf (a ++ c :: b) ↔ Avoids a [CR, LF] := by
  constructor
  · intro hmem
    by_contra ha
    rw [lineOf_append_of_not ha] at hmem
    exact hc (lineOf_subset a hmem)
  · intro ha
    rw [lineOf_append ha, lineOf, List.takeWhile_cons_of_pos (by simp [hcr, hlf])]
    simp

/-- Two separators in a line. -/
theorem two_le_count_lineOf_iff {a' : List UInt8} (hc : c ∉ a) (hc' : c ∉ a') (hcr : c ≠ CR)
    (hlf : c ≠ LF) (b : List UInt8) :
    2 ≤ (lineOf (a ++ c :: (a' ++ c :: b))).count c ↔
      Avoids a [CR, LF] ∧ Avoids a' [CR, LF] := by
  by_cases ha : Avoids a [CR, LF]
  · have hline : lineOf (a ++ c :: (a' ++ c :: b)) = a ++ c :: lineOf (a' ++ c :: b) := by
      rw [lineOf_append ha, lineOf, List.takeWhile_cons_of_pos (by simp [hcr, hlf])]
      rfl
    have hcount : (lineOf (a ++ c :: (a' ++ c :: b))).count c =
        (lineOf (a' ++ c :: b)).count c + 1 := by
      rw [hline, List.count_append, List.count_eq_zero.2 hc, List.count_cons_self, Nat.zero_add]
    rw [hcount, ← mem_lineOf_iff hc' hcr hlf b, ← List.count_pos_iff]
    exact ⟨fun h => ⟨ha, by omega⟩, fun h => by omega⟩
  · have hzero : (lineOf (a ++ c :: (a' ++ c :: b))).count c = 0 := by
      rw [lineOf_append_of_not ha]
      exact List.count_eq_zero.2 fun hmem => hc (lineOf_subset a hmem)
    rw [hzero]
    exact ⟨fun h => absurd h (by omega), fun h => absurd h.1 ha⟩

/-- A line, and the byte that ends it. -/
theorem lineOf_end (hcr : CR ∉ a) (hlf : LF ∉ a) (hc : c = CR ∨ c = LF) (b : List UInt8) :
    lineOf (a ++ c :: b) = a := by
  have havoid : Avoids a [CR, LF] := by
    intro x hx
    simp only [List.mem_cons, List.not_mem_nil, or_false] at hx
    rcases hx with rfl | rfl
    · exact hcr
    · exact hlf
  have hstop : lineOf (c :: b) = [] := by
    rw [lineOf, List.takeWhile_cons_of_neg]
    rcases hc with rfl | rfl
    · simp
    · simp
  rw [lineOf_append havoid, hstop, List.append_nil]

/-- In front of the first CR, a line has ended if there is an LF. -/
theorem lineEnds_iff (ha : CR ∉ a) (tail : List UInt8) :
    LineEnds (a ++ CR :: LF :: tail) ↔ LF ∉ a := by
  constructor
  · intro hends hmem
    obtain ⟨before, after, rfl, hbefore⟩ := List.eq_append_cons_of_mem hmem
    have hcr : CR ∉ before := fun hcr => ha (List.mem_append_left _ hcr)
    rw [List.append_assoc, List.cons_append, LineEnds, lineOf_end hcr hbefore (.inr rfl),
      List.drop_left] at hends
    exact absurd (List.cons_prefix_cons.1 hends).1 (by decide)
  · intro hlf
    rw [LineEnds, lineOf_end ha hlf (.inl rfl), List.drop_left]
    exact ⟨tail, rfl⟩

theorem nextLine_eq (ha : CR ∉ a) (hlf : LF ∉ a) (tail : List UInt8) :
    nextLine (a ++ CR :: LF :: tail) = tail := by
  rw [nextLine, lineOf_end ha hlf (.inl rfl), ← List.drop_drop, List.drop_left]
  rfl

/-- What is in front of the first separator is dropped. -/
theorem dropWhile_ne (ha : c ∉ a) (b : List UInt8) :
    (a ++ c :: b).dropWhile (· ≠ c) = c :: b := by
  rw [List.dropWhile_append_of_pos, List.dropWhile_cons_of_neg (by simp)]
  intro x hx
  refine decide_eq_true ?_
  rintro rfl
  exact ha hx

theorem takeWhile_ne (ha : c ∉ a) (b : List UInt8) :
    (a ++ c :: b).takeWhile (· ≠ c) = a := by
  rw [List.takeWhile_append_of_pos, List.takeWhile_cons_of_neg (by simp), List.append_nil]
  intro x hx
  refine decide_eq_true ?_
  rintro rfl
  exact ha hx

theorem afterColon_eq (ha : COLON ∉ a) (ys : List UInt8) :
    afterColon (a ++ COLON :: ys) = ys.drop 1 := by
  rw [afterColon, dropWhile_ne ha]
  rfl

theorem afterFirst_eq (ha : LF ∉ a) (tail : List UInt8) : afterFirst (a ++ LF :: tail) = tail := by
  rw [afterFirst, dropWhile_ne ha]
  rfl

end lineOf

/-! ### The lines of headers -/

/-- The headers at the front of a list, `turns` of them at most, are lines: each has its colon in
its line, and from the second byte after the colon on it ends as lines do. -/
def HeadersLined : ℕ → List UInt8 → Prop
  | 0, _ => True
  | turns + 1, xs =>
    COLON ∈ lineOf xs ∧ LineEnds (afterColon xs) ∧
      ([CR, LF] <+: nextLine (afterColon xs) ∨ HeadersLined turns (nextLine (afterColon xs)))

instance decidableHeadersLined : ∀ turns xs, Decidable (HeadersLined turns xs)
  | 0, _ => inferInstanceAs (Decidable True)
  | turns + 1, xs =>
    have := decidableHeadersLined turns (nextLine (afterColon xs))
    inferInstanceAs (Decidable (_ ∧ _ ∧ (_ ∨ _)))

/-- A header whose name and value are inside of a line. -/
def InLine (header : List UInt8 × List UInt8) : Prop :=
  Avoids header.1 [CR, LF] ∧ Avoids header.2 [CR, LF]

/-- The data in a header line that is read. -/
theorem exists_line {xs name ys value zs tail : List UInt8}
    (hname : Text.cut COLON xs = some (name, ys))
    (hvalue : Text.cut CR (ys.drop 1) = some (value, zs)) (htail : lineFeed zs = some tail) :
    ∃ b, xs = name ++ COLON :: b :: (value ++ CR :: LF :: tail) ∧ COLON ∉ name ∧ CR ∉ value := by
  obtain ⟨rfl, hcolon⟩ := Text.cut_eq_some hname
  cases ys with
  | nil => cases hvalue
  | cons b ys =>
      obtain ⟨rfl, hcr⟩ := Text.cut_eq_some (show Text.cut CR ys = some (value, zs) from hvalue)
      cases zs with
      | nil => cases htail
      | cons c zs =>
          simp only [lineFeed] at htail
          split at htail
          · rename_i hc
            cases htail
            exact ⟨b, by rw [hc], hcolon, hcr⟩
          · cases htail

theorem avoids_value_iff {value : List UInt8} (hcr : CR ∉ value) :
    Avoids value [CR, LF] ↔ LF ∉ value := by
  refine ⟨fun h => h LF (by simp), fun hlf c hc => ?_⟩
  simp only [List.mem_cons, List.not_mem_nil, or_false] at hc
  rcases hc with rfl | rfl
  · exact hcr
  · exact hlf

/-- **The headers are lines** exactly when the names and values that are read are inside of
lines. -/
theorem headersLined_iff {turns : ℕ} : ∀ {xs rest : List UInt8}
    {headers : List (List UInt8 × List UInt8)}, readHeaders turns xs = some (headers, rest) →
    (HeadersLined turns xs ↔ ∀ header ∈ headers, InLine header) := by
  induction turns with
  | zero =>
      intro xs rest headers h
      obtain ⟨r, -, heq⟩ := Option.map_eq_some_iff.1 h
      cases heq
      exact ⟨fun _ header hmem => (List.not_mem_nil hmem).elim, fun _ => trivial⟩
  | succ turns ih =>
      intro xs rest headers h
      obtain ⟨name, ys, value, zs, tail, line, hname, hvalue, htail, hline, hrest⟩ :=
        readHeaders_succ h
      obtain ⟨b, rfl, hcolon, hcr⟩ := exists_line hname hvalue htail
      have hnext : afterColon (name ++ COLON :: b :: (value ++ CR :: LF :: tail)) =
          value ++ CR :: LF :: tail := afterColon_eq hcolon _
      have hfirst : COLON ∈ lineOf (name ++ COLON :: b :: (value ++ CR :: LF :: tail)) ↔
          Avoids name [CR, LF] := mem_lineOf_iff hcolon (by decide) (by decide) _
      have hblank := blankLine_eq_none_iff hline
      rw [HeadersLined, hnext, hfirst, lineEnds_iff hcr, ← avoids_value_iff hcr, ← and_assoc]
      rcases hrest with ⟨rfl, rfl⟩ | ⟨rfl, headers', hheaders, rfl⟩
      · -- the empty line follows, and there are no more headers
        have hempty : [CR, LF] <+: tail := not_not.1 fun hnot => by cases hblank.2 hnot
        rw [List.forall_mem_singleton]
        refine ⟨fun h => h.1, fun h => ⟨h, .inl ?_⟩⟩
        rw [nextLine_eq hcr ((avoids_value_iff hcr).1 h.2)]
        exact hempty
      · rw [List.forall_mem_cons, ← ih hheaders]
        refine and_congr_right fun h => ?_
        rw [nextLine_eq hcr ((avoids_value_iff hcr).1 h.2), or_iff_right (hblank.1 rfl)]

/-- **Headers that are inside of lines are in front of the first empty line.** -/
theorem skipLines_readHeaders {turns : ℕ} : ∀ {xs rest : List UInt8}
    {headers : List (List UInt8 × List UInt8)}, readHeaders turns xs = some (headers, rest) →
    (∀ header ∈ headers, InLine header) → skipLines xs = some rest := by
  induction turns with
  | zero =>
      intro xs rest headers h hin
      obtain ⟨r, hskip, heq⟩ := Option.map_eq_some_iff.1 h
      cases heq
      exact hskip
  | succ turns ih =>
      intro xs rest headers h hin
      obtain ⟨name, ys, value, zs, tail, line, hname, hvalue, htail, hline, hrest⟩ :=
        readHeaders_succ h
      obtain ⟨b, rfl, hcolon, hcr⟩ := exists_line hname hvalue htail
      have hblank := blankLine_eq_none_iff hline
      have hheader : InLine (name, value) := by
        rcases hrest with ⟨-, rfl⟩ | ⟨-, headers', -, rfl⟩
        · exact hin _ List.mem_cons_self
        · exact hin _ List.mem_cons_self
      have hlf : LF ∉ value := hheader.2 LF (by simp)
      have hnamelf : LF ∉ name := hheader.1 LF (by simp)
      have hskipped : skipLines (name ++ COLON :: b :: (value ++ CR :: LF :: tail)) =
          skipLines (value ++ CR :: LF :: tail) := by
        rw [skipLines_append_of_no_lf hnamelf (by simp [COLON, LF]),
          skipLines_cons_of_ne (by decide)]
        by_cases hb : b = LF
        · exact skipLines_cons_of_ne (hb ▸ by decide) _
        · -- an empty line that starts at the byte after the colon has its LF in the value
          rw [← List.singleton_append]
          refine skipLines_append_of_no_lf (by simpa using Ne.symm hb) ?_
          intro hprefix
          cases value with
          | nil => exact absurd (List.cons_prefix_cons.1 hprefix).1 (by decide)
          | cons x value =>
              rw [← (List.cons_prefix_cons.1 hprefix).1] at hlf
              exact hlf List.mem_cons_self
      rw [hskipped]
      rcases hrest with ⟨rfl, rfl⟩ | ⟨rfl, headers', hheaders, rfl⟩
      · obtain rfl := eq_of_blankLine hline
        exact skipLines_of_last hlf rest
      · have hvaluelf : LF ∉ value ++ [CR] := by
          rw [List.mem_append, not_or]
          exact ⟨hlf, by simp [CR, LF]⟩
        have hline' := skipLines_of_line hvaluelf (hblank.1 rfl)
        rw [List.append_assoc, List.singleton_append] at hline'
        rw [hline']
        exact ih hheaders fun header hmem => hin header (List.mem_cons_of_mem _ hmem)

/-! ### The parser -/

/-- **What the parser has found keeps to the lines of the data**: the head ends at the first empty
line, and each piece that has been cut out is inside of a line. -/
structure Bounded (h : HTTPHeader) (data mem : List UInt8) : Prop where
  headerSize : EndsHead data h.getHeaderSize
  first : ∃ p, h.first = some p ∧ Avoids (Text.piece data mem p) [CR, LF]
  second : ∃ p, h.second = some p ∧ Avoids (Text.piece data mem p) [CR, LF]
  headers : ∀ header ∈ h.headers,
    InLine (Text.piece data mem header.1, Text.piece data mem header.2)

/-- The lines of the data are as the parser expects them: its first line has two spaces, and the
headers are lines; when there are no headers, the first line ends as lines do. -/
structure Lined (data : List UInt8) : Prop where
  spaces : 2 ≤ (lineOf data).count SPACE
  blank : [CR, LF] <+: afterFirst data → [CR] <:+ data.takeWhile (· ≠ LF)
  headers : ¬ [CR, LF] <+: afterFirst data → HeadersLined MAX_HEADERS (afterFirst data)

instance (data : List UInt8) : Decidable (Lined data) :=
  decidable_of_iff (_ ∧ (_ → _) ∧ (_ → _))
    ⟨fun h => ⟨h.1, h.2.1, h.2.2⟩, fun h => ⟨h.spaces, h.blank, h.headers⟩⟩

/-- What follows the first line, and where the head ends. -/
theorem endsHead_iff {a tail rest : List UInt8} {line : Option (List UInt8)}
    {headers : List (List UInt8 × List UInt8)} (ha : LF ∉ a) (hline : blankLine tail = some line)
    (hrest : line = some rest ∧ headers = [] ∨
      line = none ∧ readHeaders MAX_HEADERS tail = some (headers, rest)) :
    (([CR, LF] <+: tail → [CR] <:+ a) ∧
        (¬ [CR, LF] <+: tail → HeadersLined MAX_HEADERS tail)) ↔
      EndsHead (a ++ LF :: tail) ((a ++ LF :: tail).length - rest.length) ∧
        ∀ header ∈ headers, InLine header := by
  have hblank := blankLine_eq_none_iff hline
  rcases hrest with ⟨rfl, rfl⟩ | ⟨rfl, hheaders⟩
  · -- there are no headers
    obtain rfl := eq_of_blankLine hline
    have hempty : [CR, LF] <+: CR :: LF :: rest := ⟨rest, rfl⟩
    constructor
    · rintro ⟨hcr, -⟩
      obtain ⟨before, rfl⟩ := hcr hempty
      refine ⟨endsHead_of_skipLines ?_, fun header hmem => (List.not_mem_nil hmem).elim⟩
      rw [List.append_assoc]
      exact skipLines_of_last (fun hmem => ha (List.mem_append_left _ hmem)) rest
    · rintro ⟨hends, -⟩
      refine ⟨fun _ => ?_, fun hnot => absurd hempty hnot⟩
      obtain ⟨before, hbefore⟩ := hends.exists_eq
      have hdata : a ++ LF :: CR :: LF :: rest = (a ++ [LF, CR, LF]) ++ rest := by simp
      rw [hdata, List.length_append, Nat.add_sub_cancel, List.drop_left,
        ← List.append_assoc before, List.append_cancel_right_eq] at hbefore
      have hsplit : before ++ EMPTY_LINE = (before ++ [CR]) ++ [LF, CR, LF] := by simp
      rw [hsplit, List.append_cancel_right_eq] at hbefore
      exact ⟨before, hbefore.symm⟩
  · have hnot : ¬ [CR, LF] <+: tail := hblank.1 rfl
    rw [← headersLined_iff hheaders]
    constructor
    · rintro ⟨-, hlines⟩
      refine ⟨endsHead_of_skipLines ?_, hlines hnot⟩
      rw [skipLines_of_line ha hnot]
      exact skipLines_readHeaders hheaders ((headersLined_iff hheaders).1 (hlines hnot))
    · rintro ⟨-, hlines⟩
      exact ⟨fun hempty => absurd hempty hnot, fun _ => hlines⟩

/-- **The condition on the data, and what is read.** -/
theorem lined_iff {data : List UInt8} {m : Message} (hread : readMessage data = some m) :
    Lined data ↔ (Avoids m.first [CR, LF] ∧ Avoids m.second [CR, LF]) ∧
      EndsHead data m.size ∧ ∀ header ∈ m.headers, InLine header := by
  obtain ⟨ys, zs, version, tail, line, rest, hfirst, hsecond, -, hversion, hline, hsize, hrest⟩ :=
    readMessage_some hread
  obtain ⟨rfl, hspace₁⟩ := Text.cut_eq_some hfirst
  obtain ⟨rfl, hspace₂⟩ := Text.cut_eq_some hsecond
  obtain ⟨rfl, hversionlf⟩ := Text.cut_eq_some hversion
  have hspaces := two_le_count_lineOf_iff hspace₁ hspace₂ (by decide) (by decide)
    (version ++ LF :: tail)
  -- the first line, when its tokens do not reach over its end
  let a := m.first ++ SPACE :: (m.second ++ SPACE :: version)
  have hdata : m.first ++ SPACE :: (m.second ++ SPACE :: (version ++ LF :: tail)) =
      a ++ LF :: tail := by simp [a]
  have hlf : Avoids m.first [CR, LF] ∧ Avoids m.second [CR, LF] → LF ∉ a := by
    rintro ⟨h₁, h₂⟩
    have hfirstlf := h₁ LF (by simp)
    have hsecondlf := h₂ LF (by simp)
    have hspace : LF ≠ SPACE := by decide
    simp [a, hfirstlf, hsecondlf, hversionlf, hspace]
  have hrest' : Avoids m.first [CR, LF] ∧ Avoids m.second [CR, LF] →
      ((([CR, LF] <+: afterFirst (a ++ LF :: tail) →
          [CR] <:+ (a ++ LF :: tail).takeWhile (· ≠ LF)) ∧
        (¬ [CR, LF] <+: afterFirst (a ++ LF :: tail) →
          HeadersLined MAX_HEADERS (afterFirst (a ++ LF :: tail)))) ↔
      EndsHead (a ++ LF :: tail) m.size ∧ ∀ header ∈ m.headers, InLine header) := by
    intro h
    have htake : (a ++ LF :: tail).takeWhile (· ≠ LF) = a := takeWhile_ne (hlf h) tail
    rw [afterFirst_eq (hlf h), htake, hsize, hdata]
    exact endsHead_iff (hlf h) hline hrest
  constructor
  · rintro ⟨hcount, hblank, hheaders⟩
    have h := hspaces.1 hcount
    rw [hdata] at hblank hheaders ⊢
    exact ⟨h, (hrest' h).1 ⟨hblank, hheaders⟩⟩
  · rintro ⟨h, hends⟩
    rw [hdata] at hends
    obtain ⟨hblank, hheaders⟩ := (hrest' h).2 hends
    exact ⟨hspaces.2 h, hdata ▸ hblank, hdata ▸ hheaders⟩

/-- The names and values that have been cut out. -/
theorem pieces_eq {data mem : List UInt8} {pointers : List (ℕ × ℕ)}
    {headers : List (List UInt8 × List UInt8)}
    (hm : HTTPHeader.HoldsHeaders mem pointers headers)
    (hs : HTTPHeader.StandHeaders data pointers headers) :
    headers = pointers.map fun p => (Text.piece data mem p.1, Text.piece data mem p.2) := by
  induction hm with
  | nil => rfl
  | cons hp _ ih =>
      obtain ⟨hsp, hs⟩ := List.forall₂_cons.1 hs
      rw [List.map_cons, ← ih hs, Text.piece_eq hsp.1 hp.1, Text.piece_eq hsp.2 hp.2]

/-- The pieces that have been cut out are those that are read. -/
theorem bounded_iff {h : HTTPHeader} {data mem : List UInt8} {m : Message}
    (hlen : m.size < 2 ^ 16) (hm : h.Holds mem m) (hs : h.Marks data m) :
    Bounded h data mem ↔ (Avoids m.first [CR, LF] ∧ Avoids m.second [CR, LF]) ∧
      EndsHead data m.size ∧ ∀ header ∈ m.headers, InLine header := by
  obtain ⟨p, hp, hfirst⟩ := hm.first
  obtain ⟨q, hq, hsecond⟩ := hm.second
  have hsize : h.getHeaderSize = m.size := by
    rw [HTTPHeader.getHeaderSize, hm.headerSize, Nat.mod_eq_of_lt hlen]
  have hfirst' : Text.piece data mem p = m.first := by
    obtain ⟨p', hp', hstand⟩ := hs.first
    obtain rfl : p = p' := Option.some.inj (hp.symm.trans hp')
    exact Text.piece_eq hstand hfirst
  have hsecond' : Text.piece data mem q = m.second := by
    obtain ⟨q', hq', hstand⟩ := hs.second
    obtain rfl : q = q' := Option.some.inj (hq.symm.trans hq')
    exact Text.piece_eq hstand hsecond
  have hheaders : m.headers = h.headers.map fun header =>
      (Text.piece data mem header.1, Text.piece data mem header.2) :=
    pieces_eq hm.headers hs.headers
  have hin : (∀ header ∈ m.headers, InLine header) ↔ ∀ header ∈ h.headers,
      InLine (Text.piece data mem header.1, Text.piece data mem header.2) := by
    rw [hheaders, List.forall_mem_map]
  rw [hin]
  constructor
  · rintro ⟨hends, ⟨p', hp', h₁⟩, ⟨q', hq', h₂⟩, hlines⟩
    obtain rfl : p = p' := Option.some.inj (hp.symm.trans hp')
    obtain rfl : q = q' := Option.some.inj (hq.symm.trans hq')
    exact ⟨⟨hfirst' ▸ h₁, hsecond' ▸ h₂⟩, hsize ▸ hends, hlines⟩
  · rintro ⟨⟨h₁, h₂⟩, hends, hlines⟩
    exact ⟨hsize ▸ hends, ⟨p, hp, hfirst' ▸ h₁⟩, ⟨q, hq, hsecond' ▸ h₂⟩, hlines⟩

/-- **The parser keeps to the lines of the data exactly when they are as it expects.** -/
theorem parse_bounded_iff (h : HTTPHeader) {data : List UInt8} (hlen : data.length ≤ 65535)
    {h' : HTTPHeader} {mem : List UInt8} (hparse : h.parse data = some (true, h', mem)) :
    Bounded h' data mem ↔ Lined data := by
  cases hread : readMessage data with
  | none =>
      obtain ⟨h₁, mem₁, hfalse⟩ := HTTPHeader.parse_none h hread
      rw [hparse] at hfalse
      cases hfalse
  | some m =>
      obtain ⟨h₁, mem₁, htrue, -, hm, hs⟩ := HTTPHeader.parse_some h hread
      rw [hparse] at htrue
      cases htrue
      have hsize := size_le_of_readMessage hread
      rw [lined_iff hread]
      exact bounded_iff (by omega) (hm.append _) hs

/-- On the request `G / H` with the header `a: b`. -/
theorem parse_bounded_iff_example :
    ∃ h' mem, HTTPHeader.new.parse [0x47, 0x20, 0x2f, 0x20, 0x48, 0x0d, 0x0a, 0x61, 0x3a, 0x20,
        0x62, 0x0d, 0x0a, 0x0d, 0x0a] = some (true, h', mem) ∧
      Bounded h' [0x47, 0x20, 0x2f, 0x20, 0x48, 0x0d, 0x0a, 0x61, 0x3a, 0x20, 0x62, 0x0d, 0x0a,
        0x0d, 0x0a] mem :=
  ⟨⟨[(7, 10)], 15, 0, some 0, some 2⟩, [0x47, 0, 0x2f, 0, 0x48, 0x0d, 0x0a, 0x61, 0, 0x20,
    0x62, 0, 0x0a, 0x0d, 0x0a], by decide,
    (parse_bounded_iff .new (by decide) (by decide)).2 (by decide)⟩

/-- A header without a value, `A:`, and an empty line; what follows it, `B: c` and another empty
line, is taken for a header. -/
theorem parse_not_bounded :
    ¬ ∀ (h : HTTPHeader) (data : List UInt8), data.length ≤ 65535 →
      ∀ (h' : HTTPHeader) (mem : List UInt8), h.parse data = some (true, h', mem) →
        Bounded h' data mem := by
  intro hall
  have hbounded := hall .new [0x47, 0x20, 0x2f, 0x20, 0x48, 0x0d, 0x0a, 0x41, 0x3a, 0x0d, 0x0a,
    0x0d, 0x0a, 0x42, 0x3a, 0x20, 0x63, 0x0d, 0x0a, 0x0d, 0x0a] (by decide)
    ⟨[(7, 10), (13, 16)], 21, 0, some 0, some 2⟩ [0x47, 0, 0x2f, 0, 0x48, 0x0d, 0x0a, 0x41, 0, 0x0d,
    0x0a, 0, 0x0a, 0x42, 0, 0x20, 0x63, 0, 0x0a, 0x0d, 0x0a] (by decide)
  obtain ⟨k, hk, -, hfirst⟩ := hbounded.headerSize
  obtain rfl : k = 17 := by
    have hk' : 21 = k + 4 := hk
    omega
  exact hfirst 9 (by decide) (by decide)

/-! ### What callers read -/

section strings

variable {data mem s r : List UInt8} {p : ℕ} {h : HTTPHeader}

/-- A string that is read is inside of the line that its piece is in. -/
theorem avoids_of_string (hp : Text.PointsTo mem p s) (hs : Avoids s [CR, LF])
    (hr : HTTPHeader.string mem (some p) = some (some r)) : Avoids r [CR, LF] := by
  obtain ⟨r', hr', heq⟩ := Option.map_eq_some_iff.1 hr
  cases heq
  intro c hc hmem
  exact hs c hc ((Text.stringAt_prefix hp hr').subset hmem)

theorem mem_of_valueLoop {name : List UInt8} {headers : List (ℕ × ℕ)}
    (h : HTTPHeader.valueLoop mem name headers = some (some p)) : ∃ n, (n, p) ∈ headers := by
  induction headers with
  | nil => cases h
  | cons header headers ih =>
      obtain ⟨n, v⟩ := header
      simp only [HTTPHeader.valueLoop, Option.bind_eq_bind, Option.bind_eq_some_iff] at h
      obtain ⟨string, -, h⟩ := h
      split at h
      · cases h
        exact ⟨n, List.mem_cons_self⟩
      · obtain ⟨n', hmem⟩ := ih h
        exact ⟨n', List.mem_cons_of_mem _ hmem⟩

theorem exists_of_mem {pointers : List (ℕ × ℕ)} {headers : List (List UInt8 × List UInt8)}
    (hm : HTTPHeader.HoldsHeaders mem pointers headers) {n : ℕ} (hmem : (n, p) ∈ pointers) :
    ∃ header ∈ headers, Text.PointsTo mem p header.2 := by
  induction hm with
  | nil => cases hmem
  | cons hp _ ih =>
      rcases List.mem_cons.1 hmem with rfl | hmem
      · exact ⟨_, List.mem_cons_self, hp.2⟩
      · obtain ⟨header, hheader, hv⟩ := ih hmem
        exact ⟨header, List.mem_cons_of_mem _ hheader, hv⟩

/-- **What a caller reads is inside of a line**, when the lines are as the parser expects. -/
theorem avoids_of_parse {h₀ : HTTPHeader} (hparse : h₀.parse data = some (true, h, mem))
    (hlined : Lined data) (hr : h.getCommand mem = some (some r) ∨ h.getPath mem = some (some r) ∨
      ∃ name, h.getHeaderValue mem name = some (some r)) : Avoids r [CR, LF] := by
  cases hread : readMessage data with
  | none =>
      obtain ⟨h₁, mem₁, hfalse⟩ := HTTPHeader.parse_none h₀ hread
      rw [hparse] at hfalse
      cases hfalse
  | some m =>
      obtain ⟨h₁, mem₁, htrue, -, hm, -⟩ := HTTPHeader.parse_some h₀ hread
      rw [hparse] at htrue
      cases htrue
      obtain ⟨⟨hfirst, hsecond⟩, -, hheaders⟩ := (lined_iff hread).1 hlined
      obtain ⟨⟨p, hp, hp'⟩, ⟨q, hq, hq'⟩, hholds, -, -⟩ := hm.append (data.drop m.size)
      rcases hr with hr | hr | ⟨name, hr⟩
      · obtain ⟨isRequest, -, hr⟩ := Option.bind_eq_some_iff.1 hr
        cases isRequest with
        | false => cases hr
        | true => exact avoids_of_string hp' hfirst (hp ▸ hr)
      · obtain ⟨isRequest, -, hr⟩ := Option.bind_eq_some_iff.1 hr
        cases isRequest with
        | false => cases hr
        | true => exact avoids_of_string hq' hsecond (hq ▸ hr)
      · obtain ⟨value, hvalue, hr⟩ := Option.bind_eq_some_iff.1 hr
        cases value with
        | none => cases hr
        | some v =>
            obtain ⟨n, hmem⟩ := mem_of_valueLoop hvalue
            obtain ⟨header, hheader, hv⟩ := exists_of_mem hholds hmem
            exact avoids_of_string hv (hheaders header hheader).2 hr

end strings

end Http
