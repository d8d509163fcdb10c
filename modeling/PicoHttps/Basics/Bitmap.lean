/-
**Sets of numbers as bitmaps.**

An array of `n` bytes holds a set of numbers below `8 * n`: the bit `i % 8` of the byte `i / 8`
tells whether `i` is in it.  A number outside that range has no bit, and looking for it is an
access past the end of the array.

Main definitions:

* `Bitmap.test`, `Bitmap.set` — a bit, and putting a number into the set;
* `Bitmap.Mem` — the set.

Main results:

* `Bitmap.test_eq` — a bit is there exactly for the numbers in range;
* `Bitmap.set_eq` — **putting a number into the set** adds it and no other;
* `Bitmap.test_set` — every number has a bit of its own;
* `Bitmap.isSome_loop` — a loop that looks numbers up comes to its end if they are all in range;
* `Bitmap.forall_range_iff` — when an array of `k / 8` bytes has a bit for every number below `k`.
-/

import PicoHttps.Basics.Buffer
import Mathlib.Data.Nat.Bitwise

set_option relaxedAutoImplicit false
set_option autoImplicit false

namespace Bitmap

variable {n : ℕ}

/-- `(map[i / 8] & (1 << (i % 8))) != 0`; `none` past the end. -/
def test (b : Buffer n) (i : ℕ) : Option Bool := do
  let x ← b.read (i / 8)
  return x.toNat &&& 1 <<< (i % 8) != 0

/-- `map[i / 8] |= (1 << (i % 8))`; `none` past the end. -/
def set (b : Buffer n) (i : ℕ) : Option (Buffer n) := do
  let x ← b.read (i / 8)
  b.write (i / 8) (UInt8.ofNat (x.toNat ||| 1 <<< (i % 8)))

/-- The number is in the set. -/
def Mem (b : Buffer n) (i : ℕ) : Prop := ∃ x, b.bytes[i / 8]? = some x ∧ x.toNat.testBit (i % 8)

variable {b : Buffer n} {i : ℕ}

theorem and_bit (x k : ℕ) : (x &&& 1 <<< k != 0) = x.testBit k := by
  rw [Nat.one_shiftLeft, Nat.and_two_pow]
  cases x.testBit k <;> simp

theorem or_bit_lt (x : UInt8) {k : ℕ} (hk : k < 8) : x.toNat ||| 1 <<< k < 2 ^ 8 := by
  rw [Nat.one_shiftLeft]
  exact Nat.or_lt_two_pow (UInt8.toNat_lt x) (Nat.pow_lt_pow_right (by decide) hk)

/-- **The bit of a number in range.** -/
theorem test_eq (hi : i / 8 < n) : ∃ m, test b i = some m ∧ (m = true ↔ Mem b i) := by
  have hlt : i / 8 < b.bytes.length := by rw [b.length_bytes]; exact hi
  refine ⟨b.bytes[i / 8].toNat.testBit (i % 8), ?_, ?_⟩
  · rw [test, Buffer.read, List.getElem?_eq_getElem hlt, ← and_bit]
    rfl
  · rw [Mem, List.getElem?_eq_getElem hlt]
    constructor
    · exact fun h => ⟨_, rfl, h⟩
    · rintro ⟨x, hx, h⟩
      rwa [Option.some.inj hx]

theorem test_eq_none (hi : n ≤ i / 8) : test b i = none := by
  rw [test, Buffer.read, List.getElem?_eq_none (by rw [b.length_bytes]; exact hi)]
  rfl

theorem write_eq {x : UInt8} (hi : i < n) :
    ∃ b', b.write i x = some b' ∧ b'.bytes = b.bytes.set i x := by
  refine ⟨_, dif_pos (by simpa using Nat.succ_le_of_lt hi), ?_⟩
  have hlt : i < b.bytes.length := by rw [b.length_bytes]; exact hi
  rw [List.set_eq_take_append_cons_drop, if_pos hlt]
  simp

theorem testBit_set {x : UInt8} {k l : ℕ} (hk : k < 8) :
    (UInt8.ofNat (x.toNat ||| 1 <<< k)).toNat.testBit l = true ↔
      l = k ∨ x.toNat.testBit l = true := by
  rw [UInt8.toNat_ofNat', Nat.mod_eq_of_lt (or_bit_lt x hk), Nat.testBit_or, Nat.one_shiftLeft,
    Nat.testBit_two_pow, Bool.or_eq_true, decide_eq_true_eq, or_comm]
  exact or_congr_left eq_comm

/-- **Putting a number into the set.** -/
theorem set_eq (hi : i / 8 < n) : ∃ b', set b i = some b' ∧ ∀ j, Mem b' j ↔ j = i ∨ Mem b j := by
  have hlt : i / 8 < b.bytes.length := by rw [b.length_bytes]; exact hi
  have hread : b.read (i / 8) = some b.bytes[i / 8] := List.getElem?_eq_getElem hlt
  have hbit : i % 8 < 8 := Nat.mod_lt _ (by decide)
  obtain ⟨b', hwrite, hbytes⟩ := write_eq (b := b)
    (x := UInt8.ofNat (b.bytes[i / 8].toNat ||| 1 <<< (i % 8))) hi
  refine ⟨b', ?_, fun j => ?_⟩
  · rw [set, hread]
    exact hwrite
  · rw [Mem, Mem, hbytes]
    rcases eq_or_ne (i / 8) (j / 8) with heq | hne
    · rw [← heq, List.getElem?_set_self hlt, List.getElem?_eq_getElem hlt]
      simp only [Option.some.injEq, exists_eq_left', testBit_set hbit]
      refine or_congr_left ⟨fun hmod => ?_, fun hji => by rw [hji]⟩
      omega
    · rw [List.getElem?_set_ne hne]
      refine ⟨.inr, fun h => h.resolve_left fun hji => hne (by rw [hji])⟩

theorem isSome_set : (set b i).isSome ↔ i / 8 < n := by
  constructor
  · intro h
    refine Nat.lt_of_not_le fun hle => ?_
    rw [set, Buffer.read, List.getElem?_eq_none (by rw [b.length_bytes]; exact hle)] at h
    cases h
  · intro hi
    obtain ⟨b', hb', -⟩ := set_eq (b := b) hi
    rw [hb']
    rfl

/-- **Every number has a bit of its own**: putting one into the set changes the bit of no other. -/
theorem test_set {b' : Buffer n} (h : set b i = some b') (j : ℕ) :
    test b' j = if j = i then some true else test b j := by
  have hi : i / 8 < n := isSome_set.1 (Option.isSome_iff_exists.2 ⟨b', h⟩)
  obtain ⟨b₁, hb₁, hset⟩ := set_eq (b := b) hi
  obtain rfl : b₁ = b' := Option.some.inj (hb₁.symm.trans h)
  rcases Nat.lt_or_ge (j / 8) n with hj | hj
  · obtain ⟨m, hm, hmem⟩ := test_eq (b := b) hj
    obtain ⟨m', hm', hmem'⟩ := test_eq (b := b₁) hj
    rw [hm, hm']
    split
    · rename_i hji
      exact congrArg some (hmem'.2 ((hset j).2 (.inl hji)))
    · rename_i hji
      have hsame : m' = true ↔ m = true := by
        rw [hmem, hmem', hset]
        exact or_iff_right hji
      exact congrArg some (Bool.eq_iff_iff.2 hsame)
  · have hji : j ≠ i := by
      rintro rfl
      exact absurd hi (Nat.not_lt_of_le hj)
    rw [test_eq_none hj, test_eq_none hj, if_neg hji]

/-- **A loop that looks numbers up** comes to its end exactly if they are all in range. -/
theorem isSome_loop {σ : Type} {loop : List ℕ → σ → Option σ} (body : ℕ → Bool → σ → σ)
    (hnil : ∀ s, loop [] s = some s)
    (hcons : ∀ i is s, loop (i :: is) s = (test b i).bind fun m => loop is (body i m s))
    (is : List ℕ) : ∀ s, (loop is s).isSome ↔ ∀ i ∈ is, i / 8 < n := by
  induction is with
  | nil =>
      intro s
      simp [hnil]
  | cons i is ih =>
      intro s
      rw [hcons, List.forall_mem_cons]
      rcases Nat.lt_or_ge (i / 8) n with hi | hi
      · obtain ⟨m, hm, -⟩ := test_eq (b := b) hi
        rw [hm, Option.bind_some, ih]
        exact ⟨fun h => ⟨hi, h⟩, fun h => h.2⟩
      · rw [test_eq_none hi, Option.bind_none]
        constructor
        · intro h
          cases h
        · rintro ⟨hlt, -⟩
          exact absurd hlt (Nat.not_lt_of_le hi)

/-- **An array of `k / 8` bytes** has a bit for every number below `k` exactly when nothing is lost
in the division. -/
theorem forall_range_iff (k : ℕ) : (∀ i < k, i / 8 < k / 8) ↔ 8 ∣ k := by
  constructor
  · intro h
    have hlast := h (8 * (k / 8))
    omega
  · intro h i hi
    omega

/-- The empty set. -/
theorem not_mem_zero : ¬ Mem (Buffer.filled n 0) i := by
  rintro ⟨x, hx, hbit⟩
  obtain rfl : x = 0 := List.eq_of_mem_replicate (List.mem_of_getElem? hx)
  simp at hbit

end Bitmap
