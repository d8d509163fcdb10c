/-
**The head of an HTTP message, read from a list.**

What `HTTPHeader::parse` finds, without the memory it works in: the head of a message is cut at its
separators, piece by piece, and what follows it is left.

Main definitions:

* `Http.Message` — the pieces of the head of a message;
* `Http.readHeaders`, `Http.readMessage` — reading them.

Main results:

* `Http.readMessage_append` — **a message that has been read does not depend on what follows**;
* `Http.readHeaders_suffix`, `Http.size_le_of_readMessage` — where a message ends.
-/

import PicoHttps.Http.Header
import PicoHttps.Basics.Bytes

set_option relaxedAutoImplicit false
set_option autoImplicit false

namespace Http

/-! ### Reading the head of a message -/

/-- The head of a message: its first two tokens, the response code, its headers, of which there are
at most 20, and its size. -/
structure Message where
  first : List UInt8
  second : List UInt8
  code : ℕ
  headers : List (List UInt8 × List UInt8)
  size : ℕ
  deriving DecidableEq, Repr

/-- A decimal digit. -/
abbrev IsDigit (b : UInt8) : Prop := ¬ (b < 0x30 ∨ b > 0x39)

/-- The response code for a second token: 0 when it is a path, and `none` when it is refused. -/
def codeOf : List UInt8 → Option ℕ
  | [] => some 0
  | second0 :: rest =>
    if second0 = SLASH then some 0
    else if (second0 :: rest).all fun b => IsDigit b then
      some ((second0 :: rest).foldl
        (fun code _ => (code * 10 + (second0.toNat - 0x30)) % 2 ^ 16) 0)
    else none

/-- What follows an empty line, or `none` inside when the line is not empty; `none` when that can
not be told yet. -/
def blankLine : List UInt8 → Option (Option (List UInt8))
  | b0 :: b1 :: xs => some (if b0 = CR ∧ b1 = LF then some xs else none)
  | _ => none

/-- What follows the first end of a line with an empty line after it. -/
def skipLines : List UInt8 → Option (List UInt8)
  | b0 :: b1 :: b2 :: b3 :: xs =>
    if b0 = CR ∧ b1 = LF ∧ b2 = CR ∧ b3 = LF then some xs else skipLines (b1 :: b2 :: b3 :: xs)
  | _ => none

/-- What follows the line feed at the front of a list. -/
def lineFeed : List UInt8 → Option (List UInt8)
  | b :: xs => if b = LF then some xs else none
  | [] => none

/-- The headers at the front of a list, `turns` of them at most, and what follows the head. -/
def readHeaders : ℕ → List UInt8 → Option (List (List UInt8 × List UInt8) × List UInt8)
  | 0, xs => (skipLines xs).map fun rest => ([], rest)
  | turns + 1, xs => do
    let (name, xs) ← Text.cut COLON xs
    let (value, xs) ← Text.cut CR (xs.drop 1)
    let xs ← lineFeed xs
    match ← blankLine xs with
    | some rest => return ([(name, value)], rest)
    | none =>
      let (headers, rest) ← readHeaders turns xs
      return ((name, value) :: headers, rest)

/-- **The head of the message at the front of a list.** -/
def readMessage (xs : List UInt8) : Option Message := do
  let (first, ys) ← Text.cut SPACE xs
  let (second, ys) ← Text.cut SPACE ys
  let code ← codeOf second
  let (_, ys) ← Text.cut LF ys
  match ← blankLine ys with
  | some rest => return ⟨first, second, code, [], xs.length - rest.length⟩
  | none =>
    let (headers, rest) ← readHeaders MAX_HEADERS ys
    return ⟨first, second, code, headers, xs.length - rest.length⟩

/-! ### What follows the head does not matter -/

section append

variable {xs rest : List UInt8}

theorem length_of_blankLine {r : Option (List UInt8)} (h : blankLine xs = some r) :
    2 ≤ xs.length := by
  rcases xs with _ | ⟨b0, _ | ⟨b1, xs⟩⟩
  · cases h
  · cases h
  · simp

theorem eq_of_blankLine (h : blankLine xs = some (some rest)) : xs = CR :: LF :: rest := by
  obtain ⟨b0, b1, ys, rfl⟩ := Bytes.exists_two (length_of_blankLine h)
  have hopt := Option.some.inj h
  split at hopt
  · rename_i hblank
    cases hopt
    rw [hblank.1, hblank.2]
  · cases hopt

theorem blankLine_append {r : Option (List UInt8)} (h : blankLine xs = some r) (ys : List UInt8) :
    blankLine (xs ++ ys) = some (r.map (· ++ ys)) := by
  rcases xs with _ | ⟨b0, _ | ⟨b1, xs⟩⟩
  · cases h
  · cases h
  · obtain rfl := Option.some.inj h
    simp only [List.cons_append, blankLine]
    split <;> rfl

theorem skipLines_append (h : skipLines xs = some rest) (ys : List UInt8) :
    skipLines (xs ++ ys) = some (rest ++ ys) := by
  fun_induction skipLines xs with
  | case1 b0 b1 b2 b3 xs hblank =>
      cases h
      simp only [List.cons_append, skipLines, if_pos hblank]
  | case2 b0 b1 b2 b3 xs hblank ih =>
      rw [List.cons_append, List.cons_append, List.cons_append, List.cons_append, skipLines,
        if_neg hblank]
      exact ih h
  | case3 xs => cases h

theorem lineFeed_append (h : lineFeed xs = some rest) (ys : List UInt8) :
    lineFeed (xs ++ ys) = some (rest ++ ys) := by
  cases xs with
  | nil => cases h
  | cons b xs =>
      simp only [lineFeed] at h
      split at h
      · rename_i hb
        cases h
        exact if_pos hb
      · cases h

/-- What a header line says about the list it is read from. -/
theorem readHeaders_succ {turns : ℕ} {headers : List (List UInt8 × List UInt8)}
    (h : readHeaders (turns + 1) xs = some (headers, rest)) :
    ∃ name ys value zs tail line, Text.cut COLON xs = some (name, ys) ∧
      Text.cut CR (ys.drop 1) = some (value, zs) ∧ lineFeed zs = some tail ∧
      blankLine tail = some line ∧
      (line = some rest ∧ headers = [(name, value)] ∨
        line = none ∧ ∃ headers', readHeaders turns tail = some (headers', rest) ∧
          headers = (name, value) :: headers') := by
  simp only [readHeaders, Option.bind_eq_bind, Option.bind_eq_some_iff, Prod.exists] at h
  obtain ⟨name, ys, hname, value, zs, hvalue, tail, htail, line, hline, h⟩ := h
  refine ⟨name, ys, value, zs, tail, line, hname, hvalue, htail, hline, ?_⟩
  cases line with
  | some r =>
      cases h
      exact .inl ⟨rfl, rfl⟩
  | none =>
      simp only [Option.bind_eq_some_iff, Prod.exists] at h
      obtain ⟨headers', r, hheaders, h⟩ := h
      cases h
      exact .inr ⟨rfl, headers', hheaders, rfl⟩

theorem readHeaders_append {turns : ℕ} : ∀ {xs rest : List UInt8}
    {headers : List (List UInt8 × List UInt8)}, readHeaders turns xs = some (headers, rest) →
    ∀ ys, readHeaders turns (xs ++ ys) = some (headers, rest ++ ys) := by
  induction turns with
  | zero =>
      intro xs rest headers h ys
      obtain ⟨r, hskip, heq⟩ := Option.map_eq_some_iff.1 h
      cases heq
      rw [readHeaders, skipLines_append hskip ys]
      rfl
  | succ turns ih =>
      intro xs rest headers h ys
      obtain ⟨name, tl, value, zs, tail, line, hname, hvalue, htail, hline, hrest⟩ :=
        readHeaders_succ h
      have hdrop : (tl ++ ys).drop 1 = tl.drop 1 ++ ys := by
        cases tl with
        | nil => cases hvalue
        | cons b tl => rfl
      rw [readHeaders]
      simp only [Text.cut_append hname ys, hdrop, Text.cut_append hvalue ys,
        lineFeed_append htail ys, blankLine_append hline ys, Option.bind_eq_bind,
        Option.bind_some]
      rcases hrest with ⟨rfl, rfl⟩ | ⟨rfl, headers', hheaders, rfl⟩
      · rfl
      · simp only [Option.map_none, ih hheaders ys, Option.bind_some]
        rfl

/-- What the head of a message says about the list it is read from. -/
theorem readMessage_some {m : Message} (h : readMessage xs = some m) :
    ∃ ys zs version tail line rest, Text.cut SPACE xs = some (m.first, ys) ∧
      Text.cut SPACE ys = some (m.second, zs) ∧ codeOf m.second = some m.code ∧
      Text.cut LF zs = some (version, tail) ∧ blankLine tail = some line ∧
      m.size = xs.length - rest.length ∧
      (line = some rest ∧ m.headers = [] ∨
        line = none ∧ readHeaders MAX_HEADERS tail = some (m.headers, rest)) := by
  simp only [readMessage, Option.bind_eq_bind, Option.bind_eq_some_iff, Prod.exists] at h
  obtain ⟨first, ys, hfirst, second, zs, hsecond, code, hcode, version, tail, hversion, line,
    hline, h⟩ := h
  cases line with
  | some r =>
      cases h
      exact ⟨ys, zs, version, tail, some r, r, hfirst, hsecond, hcode, hversion, hline, rfl,
        .inl ⟨rfl, rfl⟩⟩
  | none =>
      simp only [Option.bind_eq_some_iff, Prod.exists] at h
      obtain ⟨headers, r, hheaders, h⟩ := h
      cases h
      exact ⟨ys, zs, version, tail, none, r, hfirst, hsecond, hcode, hversion, hline, rfl,
        .inr ⟨rfl, hheaders⟩⟩

/-- **A message that has been read does not depend on what follows.** -/
theorem readMessage_append {m : Message} (h : readMessage xs = some m) (ys : List UInt8) :
    readMessage (xs ++ ys) = some m := by
  obtain ⟨as, bs, version, tail, line, r, hfirst, hsecond, hcode, hversion, hline, hsize, hrest⟩ :=
    readMessage_some h
  have hsub : (xs ++ ys).length - (r ++ ys).length = m.size := by
    rw [hsize, List.length_append, List.length_append]
    omega
  rw [readMessage]
  simp only [Text.cut_append hfirst ys, Text.cut_append hsecond ys, hcode,
    Text.cut_append hversion ys, blankLine_append hline ys, Option.bind_eq_bind, Option.bind_some]
  rcases hrest with ⟨rfl, hnil⟩ | ⟨rfl, hheaders⟩
  · simp only [Option.map_some, hsub, ← hnil]
    rfl
  · simp only [Option.map_none, readHeaders_append hheaders ys, Option.bind_some, hsub]
    rfl

theorem blankLine_suffix (h : blankLine xs = some (some rest)) : rest <:+ xs :=
  eq_of_blankLine h ▸ ⟨[CR, LF], rfl⟩

theorem skipLines_suffix (h : skipLines xs = some rest) : rest <:+ xs := by
  fun_induction skipLines xs with
  | case1 b0 b1 b2 b3 xs hblank =>
      cases h
      exact ⟨[b0, b1, b2, b3], rfl⟩
  | case2 b0 b1 b2 b3 xs hblank ih => exact (ih h).trans (List.suffix_cons b0 _)
  | case3 xs => cases h

theorem lineFeed_suffix (h : lineFeed xs = some rest) : rest <:+ xs := by
  cases xs with
  | nil => cases h
  | cons b xs =>
      simp only [lineFeed] at h
      split at h
      · cases h
        exact List.suffix_cons b _
      · cases h

theorem cut_suffix {c : UInt8} {a : List UInt8} (h : Text.cut c xs = some (a, rest)) :
    rest <:+ xs := by
  obtain ⟨rfl, -⟩ := Text.cut_eq_some h
  exact ⟨a ++ [c], by simp⟩

/-- What follows the headers is at the end of the list. -/
theorem readHeaders_suffix {turns : ℕ} : ∀ {xs rest : List UInt8}
    {headers : List (List UInt8 × List UInt8)}, readHeaders turns xs = some (headers, rest) →
    rest <:+ xs := by
  induction turns with
  | zero =>
      intro xs rest headers h
      obtain ⟨r, hskip, heq⟩ := Option.map_eq_some_iff.1 h
      cases heq
      exact skipLines_suffix hskip
  | succ turns ih =>
      intro xs rest headers h
      obtain ⟨name, ys, value, zs, tail, line, hname, hvalue, htail, hline, hrest⟩ :=
        readHeaders_succ h
      have hsuf : tail <:+ xs := (lineFeed_suffix htail).trans ((cut_suffix hvalue).trans
        ((List.drop_suffix 1 ys).trans (cut_suffix hname)))
      rcases hrest with ⟨rfl, -⟩ | ⟨-, headers', hheaders, -⟩
      · exact (blankLine_suffix hline).trans hsuf
      · exact (ih hheaders).trans hsuf

theorem size_le_of_readMessage {m : Message} (h : readMessage xs = some m) :
    m.size ≤ xs.length := by
  obtain ⟨as, bs, version, tail, line, r, -, -, -, -, -, hsize, -⟩ := readMessage_some h
  omega

end append

end Http
