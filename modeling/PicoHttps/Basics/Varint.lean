/-
**Numbers with continuation bits.**

A number is written in groups of seven bits, the least significant group first, one group a byte;
the top bit of a byte says that another byte follows.  A reader that allows at most `n` bytes
takes the `n`-th one as the last, whatever its top bit says.

Main definitions:

* `Varint.value` — the number that bytes stand for;
* `Varint.group` — a group of a number;
* `Varint.field` — the bytes of the number at the front of a list, at most `n` of them;
* `Varint.Complete` — the bytes of a number in which only the last one has no continuation bit.

Main results:

* `Varint.field_append` — a number that has been read does not depend on what follows it;
* `Varint.field_of_append` — whether a number can be read depends on its own bytes only;
* `Varint.field_complete` — **a complete number is read back**, when it is not too long;
* `Varint.complete_of_field` — a number shorter than the bound is complete;
* `Varint.Complete.concat` — a group added to a complete number.
-/

import PicoHttps.Basics.Bytes

set_option relaxedAutoImplicit false
set_option autoImplicit false

namespace Varint

/-- The number that bytes stand for; their continuation bits do not count. -/
def value : List UInt8 → ℕ
  | [] => 0
  | b :: bs => b.toNat % 128 + 128 * value bs

@[simp] theorem value_nil : value [] = 0 := rfl

theorem value_cons (b : UInt8) (bs : List UInt8) :
    value (b :: bs) = b.toNat % 128 + 128 * value bs := rfl

/-- A group added at the significant end. -/
theorem value_concat (bs : List UInt8) (b : UInt8) :
    value (bs ++ [b]) = value bs + 2 ^ (7 * bs.length) * (b.toNat % 128) := by
  induction bs with
  | nil => simp [value]
  | cons c bs ih =>
      have hpow : 2 ^ (7 * (bs.length + 1)) = 128 * 2 ^ (7 * bs.length) := by
        rw [Nat.mul_add, Nat.pow_add]
        omega
      rw [List.cons_append, value_cons, value_cons, ih, List.length_cons, hpow]
      ring

theorem value_lt (bs : List UInt8) : value bs < 2 ^ (7 * bs.length) := by
  induction bs with
  | nil => simp
  | cons b bs ih =>
      have hpow : 2 ^ (7 * (bs.length + 1)) = 128 * 2 ^ (7 * bs.length) := by
        rw [Nat.mul_add, Nat.pow_add]
        omega
      rw [value_cons, List.length_cons, hpow]
      omega

/-- The low seven bits of a byte, as C code extracts them. -/
theorem toNat_and_low (b : UInt8) : (b &&& 0x7f).toNat = b.toNat % 128 := by
  rw [UInt8.toNat_and, show (0x7f : UInt8).toNat = 2 ^ 7 - 1 from rfl,
    Nat.and_two_pow_sub_one_eq_mod]

/-- Setting the continuation bit does not change the group. -/
theorem toNat_or_more (b : UInt8) : (b ||| 0x80).toNat % 128 = b.toNat % 128 := by
  have h : (0x80 : UInt8).toNat % 2 ^ 7 = 0 := rfl
  rw [UInt8.toNat_or, show 128 = 2 ^ 7 from rfl, Nat.or_mod_two_pow, h, Nat.or_zero]

theorem or_more_and (b : UInt8) : (b ||| 0x80) &&& 0x80 ≠ 0 := by
  intro h
  have h' := congrArg UInt8.toNat h
  rw [UInt8.toNat_and, UInt8.toNat_or, UInt8.toNat_zero] at h'
  have h7 : (0x80 : UInt8).toNat.testBit 7 = true := by decide
  have hbit := congrArg (Nat.testBit · 7) h'
  simp only [Nat.testBit_and, Nat.testBit_or, h7, Bool.or_true, Bool.and_true,
    Nat.zero_testBit] at hbit
  cases hbit

/-- The group of seven bits of `x` that starts at bit `s`, as C code extracts it. -/
def group (x s : ℕ) : UInt8 := UInt8.ofNat ((x >>> s) &&& 0x7f)

theorem toNat_group (x s : ℕ) : (group x s).toNat = x / 2 ^ s % 128 := by
  rw [group, Nat.shiftRight_eq_div_pow, show (0x7f : ℕ) = 2 ^ 7 - 1 from rfl,
    Nat.and_two_pow_sub_one_eq_mod, UInt8.toNat_ofNat']
  omega

theorem group_and (x s : ℕ) : group x s &&& 0x80 = 0 := by
  rw [← UInt8.toNat_inj, UInt8.toNat_and, toNat_group, UInt8.toNat_zero]
  have hlt : x / 2 ^ s % 128 < 2 ^ 7 := Nat.mod_lt _ (by decide)
  apply Nat.eq_of_testBit_eq
  intro i
  rw [Nat.testBit_and, Nat.zero_testBit, show (0x80 : UInt8).toNat = 2 ^ 7 from rfl,
    Nat.testBit_two_pow]
  by_cases hi : 7 = i
  · subst hi
    simp [Nat.testBit_lt_two_pow hlt]
  · simp [hi]

/-! ### Reading a number -/

/-- The bytes of the number at the front of a list, at most `n` of them; `none` when the list ends
before the number does. -/
def field : ℕ → List UInt8 → Option (List UInt8)
  | 0, _ => some []
  | _ + 1, [] => none
  | n + 1, b :: bs => if b &&& 0x80 = 0 then some [b] else (field n bs).map (b :: ·)

theorem field_last {b : UInt8} (h : b &&& 0x80 = 0) (n : ℕ) (bs : List UInt8) :
    field (n + 1) (b :: bs) = some [b] := if_pos h

theorem field_more {b : UInt8} (h : b &&& 0x80 ≠ 0) (n : ℕ) (bs : List UInt8) :
    field (n + 1) (b :: bs) = (field n bs).map (b :: ·) := if_neg h

/-- The bytes of the number are at the front of the list. -/
theorem field_prefix {n : ℕ} : ∀ {xs f : List UInt8}, field n xs = some f → f <+: xs := by
  induction n with
  | zero => intro xs f h; cases h; exact List.nil_prefix
  | succ n ih =>
      intro xs f h
      cases xs with
      | nil => cases h
      | cons b bs =>
          by_cases hb : b &&& 0x80 = 0
          · rw [field_last hb] at h
            cases h
            exact ⟨bs, rfl⟩
          · rw [field_more hb] at h
            obtain ⟨g, hg, rfl⟩ := Option.map_eq_some_iff.1 h
            exact List.cons_prefix_cons.2 ⟨rfl, ih hg⟩

theorem field_length {n : ℕ} : ∀ {xs f : List UInt8}, field n xs = some f → f.length ≤ n := by
  induction n with
  | zero => intro xs f h; cases h; exact Nat.le_refl 0
  | succ n ih =>
      intro xs f h
      cases xs with
      | nil => cases h
      | cons b bs =>
          by_cases hb : b &&& 0x80 = 0
          · rw [field_last hb] at h
            cases h
            simp
          · rw [field_more hb] at h
            obtain ⟨g, hg, rfl⟩ := Option.map_eq_some_iff.1 h
            simpa using ih hg

/-- A list that ends before the number does is short. -/
theorem field_none_length {n : ℕ} : ∀ {xs : List UInt8}, field n xs = none → xs.length < n := by
  induction n with
  | zero => intro xs h; cases h
  | succ n ih =>
      intro xs h
      cases xs with
      | nil => simp
      | cons b bs =>
          by_cases hb : b &&& 0x80 = 0
          · rw [field_last hb] at h
            cases h
          · rw [field_more hb, Option.map_eq_none_iff] at h
            simpa using ih h

theorem field_pos {n : ℕ} {xs f : List UInt8} (h : field (n + 1) xs = some f) :
    0 < f.length := by
  cases xs with
  | nil => cases h
  | cons b bs =>
      by_cases hb : b &&& 0x80 = 0
      · rw [field_last hb] at h
        cases h
        simp
      · rw [field_more hb] at h
        obtain ⟨g, -, rfl⟩ := Option.map_eq_some_iff.1 h
        simp

/-- **A number that has been read does not depend on what follows it.** -/
theorem field_append {n : ℕ} : ∀ {xs f : List UInt8}, field n xs = some f →
    ∀ ys, field n (xs ++ ys) = some f := by
  induction n with
  | zero => intro xs f h ys; exact h
  | succ n ih =>
      intro xs f h ys
      cases xs with
      | nil => cases h
      | cons b bs =>
          by_cases hb : b &&& 0x80 = 0
          · rw [field_last hb] at h
            rw [List.cons_append, field_last hb, h]
          · rw [field_more hb] at h
            obtain ⟨g, hg, rfl⟩ := Option.map_eq_some_iff.1 h
            rw [List.cons_append, field_more hb, ih hg ys]
            rfl

/-- **Whether a number can be read depends on its own bytes only.** -/
theorem field_of_append {n : ℕ} : ∀ {xs ys f : List UInt8}, field n (xs ++ ys) = some f →
    f.length ≤ xs.length → field n xs = some f := by
  induction n with
  | zero => intro xs ys f h _; exact h
  | succ n ih =>
      intro xs ys f h hlen
      cases xs with
      | nil =>
          have := field_pos h
          simp at hlen
          simp [hlen] at this
      | cons b bs =>
          by_cases hb : b &&& 0x80 = 0
          · rw [List.cons_append, field_last hb] at h
            rw [field_last hb, h]
          · rw [List.cons_append, field_more hb] at h
            obtain ⟨g, hg, rfl⟩ := Option.map_eq_some_iff.1 h
            rw [field_more hb, ih hg (by simpa using hlen)]
            rfl

/-! ### Complete numbers -/

/-- The bytes of a number: each has a continuation bit, except the last one. -/
def Complete : List UInt8 → Prop
  | [] => False
  | [b] => b &&& 0x80 = 0
  | b :: bs => b &&& 0x80 ≠ 0 ∧ Complete bs

instance decidableComplete : (bs : List UInt8) → Decidable (Complete bs)
  | [] => inferInstanceAs (Decidable False)
  | [b] => inferInstanceAs (Decidable (b &&& 0x80 = 0))
  | _ :: c :: bs =>
    have := decidableComplete (c :: bs)
    inferInstanceAs (Decidable (_ ∧ _))

theorem complete_cons {b : UInt8} {bs : List UInt8} (hb : b &&& 0x80 ≠ 0) (h : Complete bs) :
    Complete (b :: bs) := by
  cases bs with
  | nil => exact absurd h id
  | cons c cs => exact ⟨hb, h⟩

/-- A complete number has a last byte. -/
theorem Complete.exists_concat {bs : List UInt8} (h : Complete bs) :
    ∃ init last, bs = init ++ [last] := by
  induction bs with
  | nil => exact absurd h id
  | cons b bs ih =>
      cases bs with
      | nil => exact ⟨[], b, rfl⟩
      | cons c cs =>
          obtain ⟨init, last, heq⟩ := ih h.2
          exact ⟨b :: init, last, by rw [heq]; rfl⟩

/-- **A group added at the significant end**: the last byte gets a continuation bit. -/
theorem Complete.concat {init : List UInt8} {last b : UInt8} (h : Complete (init ++ [last]))
    (hb : b &&& 0x80 = 0) : Complete (init ++ [last ||| 0x80] ++ [b]) ∧
      value (init ++ [last ||| 0x80] ++ [b]) =
        value (init ++ [last]) + 2 ^ (7 * (init.length + 1)) * (b.toNat % 128) := by
  constructor
  · induction init with
    | nil => exact complete_cons (or_more_and last) hb
    | cons c init ih =>
        have hne : init ++ [last] ≠ [] := by simp
        obtain ⟨d, ds, hd⟩ := List.exists_cons_of_ne_nil hne
        rw [List.cons_append, hd] at h
        exact complete_cons h.1 (ih (hd ▸ h.2))
  · rw [value_concat, value_concat, value_concat, toNat_or_more, List.length_append,
      List.length_singleton]

/-- **A complete number is read back**, when it is not too long. -/
theorem field_complete {f : List UInt8} : ∀ {n : ℕ}, Complete f → f.length ≤ n →
    ∀ rest, field n (f ++ rest) = some f := by
  induction f with
  | nil => intro n h; exact absurd h id
  | cons b bs ih =>
      intro n h hlen rest
      obtain ⟨n, rfl⟩ : ∃ m, n = m + 1 := ⟨n - 1, by rw [List.length_cons] at hlen; omega⟩
      cases bs with
      | nil => exact field_last h n _
      | cons c cs =>
          rw [List.cons_append, field_more h.1, ih h.2 (by simpa using hlen)]
          rfl

/-- A number shorter than the bound is complete. -/
theorem complete_of_field {n : ℕ} : ∀ {xs f : List UInt8}, field n xs = some f → f.length < n →
    Complete f := by
  induction n with
  | zero => intro xs f _ h; omega
  | succ n ih =>
      intro xs f h hlen
      cases xs with
      | nil => cases h
      | cons b bs =>
          by_cases hb : b &&& 0x80 = 0
          · rw [field_last hb] at h
            cases h
            exact hb
          · rw [field_more hb] at h
            obtain ⟨g, hg, rfl⟩ := Option.map_eq_some_iff.1 h
            rw [List.length_cons] at hlen
            have hg' := ih hg (by omega)
            cases g with
            | nil => exact absurd hg' id
            | cons c cs => exact ⟨hb, hg'⟩

end Varint
