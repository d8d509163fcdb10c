/-
**Text in memory.**

A parser of text cuts its input at separators; a C program that parses in place writes a zero over
each separator, so that the pieces are strings where they are.  This module has the cut as an
operation on lists, and the strings that a memory holds.

Main definitions:

* `Text.cut` — what is before, and what is after, the first separator;
* `Text.skipTo` — the loop that looks for a separator;
* `Text.scanTo` — the same loop, with every element that it reads;
* `Text.poke` — writing one element of a memory;
* `Text.PointsTo`, `Text.stringAt` — a position of a memory at which a string starts, and the
  string there as C code reads it;
* `Text.piece` — the bytes that a zero has cut out of the data;
* `Text.strcasecmp` — the comparison of two strings that ignores the case of letters;
* `Text.ascii`, `Text.decimal` — text as it is printed.

Main results:

* `Text.cut_eq_some`, `Text.cut_of_not_mem` — the cut is at the first separator;
* `Text.cut_append` — **a cut that has been made does not depend on what follows**;
* `Text.skipTo_of_cut`, `Text.poke_append` — the loop ends where the cut is, and what a zero
  written there changes;
* `Text.scanTo_eq` — the loop reads inside the memory only;
* `Text.stringAt_of_pointsTo` — a string without zeros is read back;
* `Text.piece_eq`, `Text.stringAt_prefix` — what has been cut out, and what is read of it;
* `Text.strcasecmp_eq_zero` — when two strings are the same but for the case of letters.
-/

import Mathlib.Data.Int.Notation
import Mathlib.Data.Nat.Notation
import Mathlib.Data.List.Basic
import Mathlib.Tactic.Common

set_option relaxedAutoImplicit false
set_option autoImplicit false

namespace Text

/-! ### Cutting at a separator -/

section cut

variable {α : Type} [DecidableEq α] {c : α} {xs a b : List α}

/-- What is before the first `c` of a list, and what is after it; `none` when there is no `c`. -/
def cut (c : α) : List α → Option (List α × List α)
  | [] => none
  | x :: xs => if x = c then some ([], xs) else (cut c xs).map fun r => (x :: r.1, r.2)

theorem cut_cons_self (c : α) (xs : List α) : cut c (c :: xs) = some ([], xs) := if_pos rfl

theorem cut_cons_of_ne {x : α} (h : x ≠ c) (xs : List α) :
    cut c (x :: xs) = (cut c xs).map fun r => (x :: r.1, r.2) := if_neg h

/-- A list is cut at its first separator. -/
theorem cut_of_not_mem (h : c ∉ a) (b : List α) : cut c (a ++ c :: b) = some (a, b) := by
  induction a with
  | nil => exact cut_cons_self c b
  | cons x a ih =>
      rw [List.mem_cons, not_or] at h
      rw [List.cons_append, cut_cons_of_ne (Ne.symm h.1), ih h.2]
      rfl

theorem cut_eq_none (h : cut c xs = none) : c ∉ xs := by
  induction xs with
  | nil => exact List.not_mem_nil
  | cons x xs ih =>
      by_cases hx : x = c
      · rw [hx, cut_cons_self] at h
        cases h
      · rw [cut_cons_of_ne hx, Option.map_eq_none_iff] at h
        rw [List.mem_cons, not_or]
        exact ⟨Ne.symm hx, ih h⟩

/-- What a cut says about the list. -/
theorem cut_eq_some (h : cut c xs = some (a, b)) : xs = a ++ c :: b ∧ c ∉ a := by
  induction xs generalizing a with
  | nil => cases h
  | cons x xs ih =>
      by_cases hx : x = c
      · rw [hx, cut_cons_self] at h
        cases h
        exact ⟨by rw [hx]; rfl, List.not_mem_nil⟩
      · rw [cut_cons_of_ne hx] at h
        obtain ⟨⟨a', b'⟩, hcut, heq⟩ := Option.map_eq_some_iff.1 h
        cases heq
        obtain ⟨rfl, hmem⟩ := ih hcut
        refine ⟨rfl, ?_⟩
        rw [List.mem_cons, not_or]
        exact ⟨Ne.symm hx, hmem⟩

/-- **A cut that has been made does not depend on what follows.** -/
theorem cut_append (h : cut c xs = some (a, b)) (ys : List α) :
    cut c (xs ++ ys) = some (a, b ++ ys) := by
  obtain ⟨rfl, hmem⟩ := cut_eq_some h
  rw [List.append_assoc, List.cons_append]
  exact cut_of_not_mem hmem (b ++ ys)

/-! ### Looking for a separator in memory -/

/-- The loop that goes on from the position `i` until it finds a `c`; what is ahead of it is given
as a list. -/
def skipTo (c : α) : List α → ℕ → ℕ
  | [], i => i
  | x :: ahead, i => if x = c then i else skipTo c ahead (i + 1)

theorem skipTo_of_not_mem (h : c ∉ xs) (i : ℕ) : skipTo c xs i = i + xs.length := by
  induction xs generalizing i with
  | nil => rfl
  | cons x xs ih =>
      rw [List.mem_cons, not_or] at h
      rw [skipTo, if_neg (Ne.symm h.1), ih h.2, List.length_cons]
      omega

/-- **The loop ends where the cut is.** -/
theorem skipTo_of_cut (h : cut c xs = some (a, b)) (i : ℕ) : skipTo c xs i = i + a.length := by
  obtain ⟨rfl, hmem⟩ := cut_eq_some h
  clear h
  induction a generalizing i with
  | nil => exact if_pos rfl
  | cons x a ih =>
      rw [List.mem_cons, not_or] at hmem
      rw [List.cons_append, skipTo, if_neg (Ne.symm hmem.1), ih (i + 1) hmem.2, List.length_cons]
      omega

/-- Without a separator, the loop ends at the end of the memory. -/
theorem skipTo_of_cut_none (h : cut c xs = none) (i : ℕ) : skipTo c xs i = i + xs.length :=
  skipTo_of_not_mem (cut_eq_none h) i

end cut

/-- `mem[i] = x`; `none` when `i` is past the end. -/
def poke {α : Type} (mem : List α) (i : ℕ) (x : α) : Option (List α) :=
  if i < mem.length then some (mem.set i x) else none

theorem poke_append {α : Type} (a : List α) (x y : α) (b : List α) :
    poke (a ++ x :: b) a.length y = some (a ++ y :: b) := by
  rw [poke, if_pos (by simp), List.set_append_right _ _ (Nat.le_refl _), Nat.sub_self]
  rfl

/-- Writing over what stands behind a word. -/
theorem poke_word {α : Type} (a word : List α) (x y : α) (b : List α) :
    poke (a ++ (word ++ x :: b)) (a.length + word.length) y = some (a ++ word ++ [y] ++ b) := by
  rw [← List.append_assoc, ← List.length_append, poke_append, List.append_assoc _ [y] b]
  rfl

/-- The loop that goes on from the position `i` until it finds a `c` or the memory ends, with every
byte that it reads; `none` when it reads past the end. -/
def scanTo {α : Type} [DecidableEq α] (c : α) (mem : List α) (i : ℕ) : Option ℕ :=
  if i < mem.length then do
    if (← mem[i]?) = c then return i
    scanTo c mem (i + 1)
  else some i
termination_by mem.length - i

/-- **The loop reads inside the memory only.** -/
theorem scanTo_eq {α : Type} [DecidableEq α] (c : α) (mem : List α) (i : ℕ) :
    scanTo c mem i = some (skipTo c (mem.drop i) i) := by
  induction hn : mem.length - i generalizing i with
  | zero =>
      rw [scanTo, if_neg (by omega), List.drop_eq_nil_of_le (by omega)]
      rfl
  | succ n ih =>
      have hi : i < mem.length := by omega
      rw [scanTo, if_pos hi, List.getElem?_eq_getElem hi, List.drop_eq_getElem_cons hi, skipTo]
      simp only [Option.bind_eq_bind, Option.bind_some]
      split
      · rfl
      · exact ih (i + 1) (by omega)

/-! ### Strings in memory -/

/-- The string `s`, with the zero that ends it, is in the memory at the position `p`. -/
def PointsTo (mem : List UInt8) (p : ℕ) (s : List UInt8) : Prop :=
  ∃ a b, mem = a ++ (s ++ 0 :: b) ∧ a.length = p

/-- The string at the position `p`, as C code reads it; `none` when it does not end inside the
memory. -/
def stringAt (mem : List UInt8) (p : ℕ) : Option (List UInt8) :=
  (cut 0 (mem.drop p)).map (·.1)

section strings

variable {mem : List UInt8} {p : ℕ} {s : List UInt8}

theorem pointsTo_append (a s b : List UInt8) : PointsTo (a ++ (s ++ 0 :: b)) a.length s :=
  ⟨a, b, rfl, rfl⟩

/-- What follows a string does not matter. -/
theorem PointsTo.append (h : PointsTo mem p s) (ys : List UInt8) : PointsTo (mem ++ ys) p s := by
  obtain ⟨a, b, rfl, rfl⟩ := h
  exact ⟨a, b ++ ys, by simp, rfl⟩

/-- **A string without zeros is read back.** -/
theorem stringAt_of_pointsTo (h : PointsTo mem p s) (hs : 0 ∉ s) : stringAt mem p = some s := by
  obtain ⟨a, b, rfl, rfl⟩ := h
  rw [stringAt, List.drop_left, cut_of_not_mem hs]
  rfl

/-- The first byte of a string that is not empty. -/
theorem PointsTo.getElem? {x : UInt8} (h : PointsTo mem p (x :: s)) : mem[p]? = some x := by
  obtain ⟨a, b, rfl, rfl⟩ := h
  simp

/-- The piece `s` of the data is at the position `p`, and a byte that is not zero follows it. -/
def StandsAt (data : List UInt8) (p : ℕ) (s : List UInt8) : Prop :=
  ∃ a c b, data = a ++ (s ++ c :: b) ∧ a.length = p ∧ c ≠ 0

end strings

/-! ### What a zero has cut out -/

/-- What two lists both start with. -/
def common : List UInt8 → List UInt8 → List UInt8
  | x :: xs, y :: ys => if x = y then x :: common xs ys else []
  | _, _ => []

theorem common_append {x y : UInt8} (h : x ≠ y) (s xs ys : List UInt8) :
    common (s ++ x :: xs) (s ++ y :: ys) = s := by
  induction s with
  | nil => exact if_neg h
  | cons z s ih =>
      rw [List.cons_append, List.cons_append, common, if_pos rfl, ih]

/-- The piece of the data at the position `p` that a zero has been written behind: what is at `p`
both in the data and in the memory. -/
def piece (data mem : List UInt8) (p : ℕ) : List UInt8 := common (data.drop p) (mem.drop p)

theorem piece_eq {data mem : List UInt8} {p : ℕ} {s : List UInt8} (hdata : StandsAt data p s)
    (hmem : PointsTo mem p s) : piece data mem p = s := by
  obtain ⟨a, c, b, rfl, rfl, hc⟩ := hdata
  obtain ⟨a', b', rfl, hlen⟩ := hmem
  rw [piece, List.drop_left, ← hlen, List.drop_left, common_append hc]

/-- The string that C code reads there is the piece, up to its first zero. -/
theorem stringAt_prefix {mem : List UInt8} {p : ℕ} {s r : List UInt8} (hmem : PointsTo mem p s)
    (hr : stringAt mem p = some r) : r <+: s := by
  obtain ⟨a, b, rfl, rfl⟩ := hmem
  rw [stringAt, List.drop_left, Option.map_eq_some_iff] at hr
  obtain ⟨⟨r, rest⟩, hcut, rfl⟩ := hr
  obtain ⟨heq, hr⟩ := cut_eq_some hcut
  have hprefix : r <+: s ++ 0 :: b := ⟨0 :: rest, heq.symm⟩
  rcases Nat.le_total r.length s.length with hle | hle
  · exact List.prefix_of_prefix_length_le hprefix (List.prefix_append s _) hle
  · -- a longer string would have the zero in it
    obtain ⟨more, rfl⟩ := List.prefix_of_prefix_length_le (List.prefix_append s _) hprefix hle
    rw [List.append_assoc, List.append_cancel_left_eq] at heq
    cases more with
    | nil => exact ⟨[], by simp⟩
    | cons x more =>
        cases heq
        exact absurd (by simp) hr

/-! ### Comparing strings -/

/-- `tolower` of a character, in the C locale. -/
def toLower (b : UInt8) : UInt8 := if 0x41 ≤ b ∧ b ≤ 0x5a then b + 0x20 else b

/-- `strcasecmp` of two strings. -/
def strcasecmp : List UInt8 → List UInt8 → Int
  | [], [] => 0
  | [], y :: _ => 0 - (toLower y).toNat
  | x :: _, [] => (toLower x).toNat
  | x :: xs, y :: ys =>
    if toLower x = toLower y then strcasecmp xs ys else (toLower x).toNat - (toLower y).toNat

theorem toLower_ne_zero {b : UInt8} (h : b ≠ 0) : (toLower b).toNat ≠ 0 := by
  have hb : b.toNat ≠ 0 := fun h0 => h (UInt8.toNat_inj.1 h0)
  rw [toLower]
  split
  · rename_i hletter
    have hle : b.toNat ≤ 0x5a := UInt8.le_iff_toNat_le.1 hletter.2
    rw [UInt8.toNat_add, show (0x20 : UInt8).toNat = 32 from rfl]
    omega
  · exact hb

/-- Two strings are the same but for the case of letters. -/
theorem strcasecmp_eq_zero : ∀ {xs ys : List UInt8}, 0 ∉ xs → 0 ∉ ys →
    (strcasecmp xs ys = 0 ↔ xs.map toLower = ys.map toLower) := by
  intro xs
  induction xs with
  | nil =>
      intro ys _ hys
      cases ys with
      | nil => simp [strcasecmp]
      | cons y ys =>
          have hy := toLower_ne_zero (b := y) fun h => hys (h ▸ List.mem_cons_self)
          simp only [strcasecmp, List.map_nil, List.map_cons]
          constructor
          · intro h; omega
          · intro h; cases h
  | cons x xs ih =>
      intro ys hxs hys
      have hx := toLower_ne_zero (b := x) fun h => hxs (h ▸ List.mem_cons_self)
      cases ys with
      | nil =>
          simp only [strcasecmp, List.map_nil, List.map_cons]
          constructor
          · intro h; omega
          · intro h; cases h
      | cons y ys =>
          rw [List.mem_cons, not_or] at hxs hys
          simp only [strcasecmp, List.map_cons, List.cons.injEq]
          by_cases heq : toLower x = toLower y
          · rw [if_pos heq, ih hxs.2 hys.2]
            simp [heq]
          · rw [if_neg heq]
            have hne : (toLower x).toNat ≠ (toLower y).toNat := fun h => heq (UInt8.toNat_inj.1 h)
            constructor
            · intro h; omega
            · intro h; exact absurd h.1 heq

/-! ### Text that is printed -/

/-- The bytes of a text of ASCII characters. -/
def ascii (s : String) : List UInt8 := s.toList.map fun c => UInt8.ofNat c.toNat

/-- What `printf` makes of an integer with `%d`. -/
def decimal (n : ℤ) : List UInt8 :=
  (if n < 0 then ascii "-" else []) ++ (Nat.toDigits 10 n.natAbs).map fun c => UInt8.ofNat c.toNat

example : decimal (-120) = ascii "-120" := by decide +kernel

/-- The characters of a natural number are digits. -/
theorem toNat_of_mem_decimal {n : ℕ} {b : UInt8} (hb : b ∈ decimal n) :
    48 ≤ b.toNat ∧ b.toNat ≤ 57 := by
  rw [decimal, if_neg (by omega), List.nil_append] at hb
  obtain ⟨c, hc, rfl⟩ := List.mem_map.1 hb
  have hdec : c.isDigit := Nat.isDigit_of_mem_toDigits (by decide) (by decide) hc
  have hdigit : 48 ≤ c.toNat ∧ c.toNat ≤ 57 := by
    simpa [Char.isDigit, UInt32.le_iff_toNat_le] using hdec
  rwa [UInt8.toNat_ofNat', Nat.mod_eq_of_lt (by omega)]

/-- The characters of an integer are a sign and digits. -/
theorem eq_or_digit_of_mem_decimal {n : ℤ} {b : UInt8} (hb : b ∈ decimal n) :
    b = 0x2d ∨ 48 ≤ b.toNat ∧ b.toNat ≤ 57 := by
  have habs : decimal n = (if n < 0 then ascii "-" else []) ++ decimal n.natAbs := by
    rw [decimal, decimal, if_neg (by omega : ¬ (n.natAbs : ℤ) < 0), List.nil_append,
      Int.natAbs_natCast]
  rw [habs] at hb
  rcases List.mem_append.1 hb with hsign | hdigit
  · split at hsign
    · exact .inl (by simpa [ascii] using hsign)
    · cases hsign
  · exact .inr (toNat_of_mem_decimal hdigit)

/-- No character of a number is the zero byte. -/
theorem zero_notMem_decimal (n : ℤ) : 0 ∉ decimal n := by
  intro hmem
  rcases eq_or_digit_of_mem_decimal hmem with hsign | ⟨hlow, -⟩
  · cases hsign
  · rw [UInt8.toNat_zero] at hlow
    omega

end Text
