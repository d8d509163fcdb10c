/-
**Response codes.**

The loop over the second token adds up a response code.  For every digit it adds the value of the
*first* digit of the token, so that the code of `200` is 222: what it computes is the number that
is written with the first digit alone, modulo 65536.  For a code of at most 65535 this is the code
itself exactly when all its digits are the same.

Main definitions:

* `Http.numberOf` — the number that a string of digits stands for;
* `Http.CanonicalResponse` — the head of a response;
* `Http.ReadsCode` — the parser finds a response with the number of its second token as its code.

Main results:

* `Http.codeOf_digits` — **the code that is read off a token**;
* `Http.repeated_iff` — when a number is the one that repeats its first digit;
* `Http.reads_code_iff` — the codes that are read as numbers.
-/

import PicoHttps.Http.Canonical
import Mathlib.Data.Nat.Digits.Defs
import Mathlib.Tactic.IntervalCases

set_option relaxedAutoImplicit false
set_option autoImplicit false

namespace Http

/-! ### Numbers -/

/-- The value of a digit. -/
def digitOf (b : UInt8) : ℕ := b.toNat - 0x30

/-- The number that a string of digits stands for. -/
def numberOf (s : List UInt8) : ℕ := Nat.ofDigits 10 (s.reverse.map digitOf)

section digits

variable {b c : UInt8} {s : List UInt8}

theorem digitOf_lt (h : IsDigit b) : digitOf b < 10 := by
  obtain ⟨-, hhigh⟩ := not_or.1 h
  have hle := UInt8.le_iff_toNat_le.1 (UInt8.not_lt.1 hhigh)
  change b.toNat ≤ 0x39 at hle
  rw [digitOf]
  omega

theorem digitOf_inj (hb : IsDigit b) (hc : IsDigit c) (h : digitOf b = digitOf c) : b = c := by
  have hlow : ∀ x, IsDigit x → 0x30 ≤ x.toNat := fun x hx =>
    UInt8.le_iff_toNat_le.1 (UInt8.not_lt.1 (not_or.1 hx).1)
  have hb' := hlow b hb
  have hc' := hlow c hc
  rw [digitOf, digitOf] at h
  exact UInt8.toNat_inj.1 (by omega)

theorem numberOf_cons (b : UInt8) (s : List UInt8) :
    numberOf (b :: s) = numberOf s + 10 ^ s.length * digitOf b := by
  simp [numberOf, Nat.ofDigits_append, Nat.ofDigits_singleton]

/-- The number of a string with one more digit. -/
theorem numberOf_concat (s : List UInt8) (b : UInt8) :
    numberOf (s ++ [b]) = numberOf s * 10 + digitOf b := by
  simp [numberOf, Nat.ofDigits_cons]
  ring

/-- Strings of digits that are equally long and stand for the same number are the same. -/
theorem numberOf_inj {t : List UInt8} (hlen : s.length = t.length) (hs : ∀ b ∈ s, IsDigit b)
    (ht : ∀ b ∈ t, IsDigit b) (h : numberOf s = numberOf t) : s.map digitOf = t.map digitOf := by
  have hlt : ∀ u : List UInt8, (∀ b ∈ u, IsDigit b) → ∀ n ∈ u.reverse.map digitOf, n < 10 := by
    intro u hu n hn
    obtain ⟨b, hb, rfl⟩ := List.mem_map.1 hn
    exact digitOf_lt (hu b (List.mem_reverse.1 hb))
  have hrev := Nat.ofDigits_inj_of_len_eq (by decide) (by simpa using hlen) (hlt s hs) (hlt t ht) h
  rw [List.map_reverse, List.map_reverse] at hrev
  exact List.reverse_injective hrev

end digits

/-! ### The code of a token -/

/-- The loop adds the first digit for every digit. -/
theorem foldl_repeated (second0 : UInt8) (s : List UInt8) : ∀ k,
    s.foldl (fun code _ => (code * 10 + (second0.toNat - 0x30)) % 2 ^ 16)
        (numberOf (List.replicate k second0) % 2 ^ 16) =
      numberOf (List.replicate (k + s.length) second0) % 2 ^ 16 := by
  induction s with
  | nil => intro k; rfl
  | cons b s ih =>
      intro k
      have hstep : (numberOf (List.replicate k second0) % 2 ^ 16 * 10 + (second0.toNat - 0x30)) %
          2 ^ 16 = numberOf (List.replicate (k + 1) second0) % 2 ^ 16 := by
        rw [List.replicate_succ', numberOf_concat, digitOf]
        omega
      rw [List.foldl_cons, hstep, ih (k + 1), List.length_cons, Nat.add_assoc, Nat.add_comm 1]

/-- **The code that is read off a token** repeats its first digit. -/
theorem codeOf_digits {b : UInt8} {s : List UInt8} (h : ∀ c ∈ b :: s, IsDigit c) :
    codeOf (b :: s) = some (numberOf (List.replicate (b :: s).length b) % 2 ^ 16) := by
  have hslash : b ≠ SLASH := by
    rintro rfl
    exact absurd (h SLASH List.mem_cons_self) (by decide)
  have hall : ((b :: s).all fun c => IsDigit c) = true :=
    List.all_eq_true.2 fun c hc => decide_eq_true (h c hc)
  have hfold := foldl_repeated b (b :: s) 0
  rw [Nat.zero_add] at hfold
  rw [codeOf, if_neg hslash, if_pos hall, ← hfold]
  rfl

/-- Nine times the number that repeats a digit. -/
theorem nine_mul_numberOf (b : UInt8) (k : ℕ) :
    9 * numberOf (List.replicate k b) + digitOf b = 10 ^ k * digitOf b := by
  induction k with
  | zero => simp [numberOf]
  | succ k ih =>
      rw [List.replicate_succ, numberOf_cons, List.length_replicate, Nat.pow_succ]
      linarith

/-- **When a number is the one that repeats its first digit**, modulo 65536: no longer number gets
back below the bound. -/
theorem repeated_iff {b : UInt8} {s : List UInt8} (h : ∀ c ∈ b :: s, IsDigit c)
    (hle : numberOf (b :: s) ≤ 65535) :
    numberOf (List.replicate (b :: s).length b) % 2 ^ 16 = numberOf (b :: s) ↔
      ∀ c ∈ s, c = b := by
  constructor
  · intro heq
    have hdigit := digitOf_lt (h b List.mem_cons_self)
    have hnines := nine_mul_numberOf b (b :: s).length
    have hfirst := numberOf_cons b s
    have hexact : numberOf (List.replicate (b :: s).length b) = numberOf (b :: s) := by
      rcases Nat.eq_zero_or_pos (digitOf b) with hzero | hpos
      · rw [hzero] at hnines
        omega
      · -- a number of six digits is at least 111111
        have hshort : s.length < 5 := by
          by_contra hlong
          have hpow : 10 ^ 5 ≤ 10 ^ s.length := Nat.pow_le_pow_right (by decide) (by omega)
          have hmul : 10 ^ s.length * 1 ≤ 10 ^ s.length * digitOf b := Nat.mul_le_mul_left _ hpos
          omega
        rw [List.length_cons] at hnines heq ⊢
        generalize s.length = k at hnines heq hfirst hshort ⊢
        interval_cases k <;> omega
    have hsame := numberOf_inj (List.length_replicate ..) ?_ h hexact
    · intro c hc
      obtain ⟨i, hi, rfl⟩ := List.getElem_of_mem hc
      have hat := congrArg (·[i + 1]?) hsame
      simp only [List.getElem?_map, List.getElem?_replicate, List.length_cons,
        List.getElem?_cons_succ] at hat
      rw [if_pos (by omega), List.getElem?_eq_getElem hi] at hat
      exact digitOf_inj (h _ (List.mem_cons_of_mem b hc)) (h b List.mem_cons_self)
        (Option.some.inj hat).symm
    · intro c hc
      rw [List.eq_of_mem_replicate hc]
      exact h b List.mem_cons_self
  · intro hall
    have hrep : b :: s = List.replicate (b :: s).length b :=
      List.eq_replicate_of_mem fun c hc => (List.mem_cons.1 hc).elim id (hall c)
    rw [← hrep]
    exact Nat.mod_eq_of_lt (by omega)

/-! ### Responses -/

/-- The head of a response: a protocol, a decimal number of at most 65535 and a reason, and
canonical header lines. -/
structure CanonicalResponse (r : Head) : Prop where
  first : Avoids r.first [SPACE, CR, LF]
  second_ne_nil : r.second ≠ []
  digits : ∀ b ∈ r.second, IsDigit b
  number_le : numberOf r.second ≤ 65535
  third : Avoids r.third [CR, LF]
  headers : ∀ header ∈ r.headers, CanonicalHeader header

/-- On the head `r` with a body behind it the parser answers that there is a message; it is a
response, and its code is the number of the second token. -/
def ReadsCode (h : HTTPHeader) (r : Head) (body : List UInt8) : Prop :=
  ∃ h' data', h.parse (r.render ++ body) = some (true, h', data') ∧
    h'.isResponse data' = some true ∧ h'.getResponseCode data' = some (numberOf r.second)

/-- The head of a response is read, whatever follows it. -/
theorem CanonicalResponse.read_render {r : Head} (hr : CanonicalResponse r) (body : List UInt8)
    {code : ℕ} (hcode : codeOf r.second = some code) : readMessage (r.render ++ body) =
      some ⟨r.first, r.second, code, r.headers.take MAX_HEADERS, r.render.length⟩ := by
  have hspace : SPACE ∉ r.second := fun hmem => absurd (hr.digits SPACE hmem) (by decide)
  exact Head.readMessage_lines (hr.first SPACE (by simp)) hspace (hr.third LF (by simp)) hr.headers
    hcode body

/-- **What the parser makes of a response.** -/
theorem parse_response (h : HTTPHeader) {r : Head} (hr : CanonicalResponse r)
    (body : List UInt8) {b : UInt8} {s : List UInt8} (hsecond : r.second = b :: s) :
    ∃ h' data', h.parse (r.render ++ body) = some (true, h', data') ∧
      h'.isResponse data' = some true ∧ h'.getResponseCode data' =
        some (numberOf (List.replicate (b :: s).length b) % 2 ^ 16) := by
  have hdigits := hr.digits
  have hcode := codeOf_digits (hsecond ▸ hdigits)
  rw [← hsecond] at hcode
  obtain ⟨h', mem, hparse, -, hholds, -⟩ := HTTPHeader.parse_some h (hr.read_render body hcode)
  obtain ⟨p, hp, hpoints⟩ := (hholds.append ((r.render ++ body).drop r.render.length)).second
  have hat := (hsecond ▸ hpoints).getElem?
  have hslash : b ≠ SLASH := by
    rintro rfl
    exact absurd (hdigits SLASH (hsecond ▸ List.mem_cons_self)) (by decide)
  have hresponse : h'.isResponse (mem ++ (r.render ++ body).drop r.render.length) = some true := by
    rw [HTTPHeader.isResponse, hp]
    simp only [hat, Option.bind_eq_bind, Option.bind_some]
    rw [decide_eq_true hslash]
    rfl
  refine ⟨h', _, hparse, hresponse, ?_⟩
  rw [HTTPHeader.getResponseCode, hresponse, ← hsecond]
  exact congrArg some hholds.responseCode

/-- **The codes that are read as numbers.**  A response with canonical header lines is found to be
one whatever follows it, and its code is the decimal value of the second token if and only if all
digits of the token are the same. -/
theorem reads_code_iff (h : HTTPHeader) (r : Head) (hr : CanonicalResponse r)
    (body : List UInt8) :
    ReadsCode h r body ↔ ∀ b ∈ r.second, ∀ c ∈ r.second, b = c := by
  obtain ⟨b, s, hsecond⟩ := List.exists_cons_of_ne_nil hr.second_ne_nil
  obtain ⟨h', data', hparse, hresponse, hcode⟩ := parse_response h hr body hsecond
  have hsame : (∀ b ∈ r.second, ∀ c ∈ r.second, b = c) ↔ ∀ c ∈ s, c = b := by
    rw [hsecond]
    constructor
    · intro hall c hc
      exact hall c (List.mem_cons_of_mem b hc) b List.mem_cons_self
    · intro hall x hx y hy
      have hfirst : ∀ z ∈ b :: s, z = b := fun z hz => (List.mem_cons.1 hz).elim id (hall z)
      rw [hfirst x hx, hfirst y hy]
  rw [hsame, ← repeated_iff (hsecond ▸ hr.digits) (hsecond ▸ hr.number_le)]
  constructor
  · rintro ⟨h₁, data₁, hparse₁, -, hcode₁⟩
    rw [hparse] at hparse₁
    cases hparse₁
    rw [hcode, hsecond] at hcode₁
    exact Option.some.inj hcode₁
  · intro heq
    rw [heq, ← hsecond] at hcode
    exact ⟨h', data', hparse, hresponse, hcode⟩

/-- The response `H 444 x`, which has no headers. -/
theorem canonical_plain : CanonicalResponse ⟨[0x48], [0x34, 0x34, 0x34], [0x78], []⟩ := by
  have hdigits : ∀ b ∈ ([0x34, 0x34, 0x34] : List UInt8), IsDigit b := by
    intro b hb
    obtain rfl : b = 0x34 := by simpa using hb
    decide
  have hnumber : numberOf [0x34, 0x34, 0x34] = 444 := rfl
  refine ⟨?_, by simp, hdigits, by rw [hnumber]; decide, ?_, by simp⟩
  · simp [Avoids, SPACE, CR, LF]
  · simp [Avoids, CR, LF]

/-- The response `H 444 x`. -/
theorem reads_code_iff_example :
    ReadsCode .new ⟨[0x48], [0x34, 0x34, 0x34], [0x78], []⟩ [] :=
  (reads_code_iff .new ⟨[0x48], [0x34, 0x34, 0x34], [0x78], []⟩ canonical_plain []).2 (by simp)

/-- The code of `H 200 x` is read as 222. -/
theorem code_two_hundred_misread :
    ¬ ReadsCode .new ⟨[0x48], [0x32, 0x30, 0x30], [0x78], []⟩ [] := by
  rintro ⟨h', data', hparse, -, hcode⟩
  have hdata : data' = [0x48, 0, 0x32, 0x30, 0x30, 0, 0x78, CR, LF, CR, LF] := by
    cases hparse
    rfl
  have hresult : h'.getResponseCode data' = some 222 := by
    cases hparse
    rfl
  have hnumber : numberOf [0x32, 0x30, 0x30] = 200 := rfl
  rw [hresult, hnumber] at hcode
  cases hcode

end Http
