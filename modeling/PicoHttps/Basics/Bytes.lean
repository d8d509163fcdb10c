/-
**Numbers in bytes.**

Network formats write a number as a list of bytes, the most significant one first, and C code
reads it back with shifts and bitwise or.  This module relates the two: `Bytes.beNat` is the value
of a big-endian list, and a disjunction of shifted bytes is a sum.

Main definitions:

* `Bytes.beNat` — the value of a big-endian list of bytes;
* `Bytes.byte` — the byte of a number at a position, as C code extracts it.

Main results:

* `Bytes.shiftLeft_or_byte` — joining a byte below a shifted value is adding it;
* `Bytes.beNat_two`, `Bytes.beNat_eight` — the closed forms of the values of 2 and 8 bytes.
-/

import Mathlib.Data.Nat.Notation
import Mathlib.Tactic.Common
import Mathlib.Tactic.Ring

set_option relaxedAutoImplicit false
set_option autoImplicit false

namespace Bytes

/-- A list of at least two bytes has a first and a second one. -/
theorem exists_two {xs : List UInt8} (h : 2 ≤ xs.length) : ∃ a b ys, xs = a :: b :: ys := by
  rcases xs with _ | ⟨a, _ | ⟨b, ys⟩⟩
  · simp at h
  · simp at h
  · exact ⟨a, b, ys, rfl⟩

/-- The value of a big-endian list of bytes. -/
def beNat (bs : List UInt8) : ℕ := bs.foldl (fun acc b => acc * 256 + b.toNat) 0

@[simp] theorem beNat_nil : beNat [] = 0 := rfl

theorem beNat_two (a b : UInt8) : beNat [a, b] = a.toNat * 256 + b.toNat := by
  simp [beNat]

theorem beNat_eight (a b c d e f g h : UInt8) :
    beNat [a, b, c, d, e, f, g, h] = a.toNat * 2 ^ 56 + b.toNat * 2 ^ 48 + c.toNat * 2 ^ 40 +
      d.toNat * 2 ^ 32 + e.toNat * 2 ^ 24 + f.toNat * 2 ^ 16 + g.toNat * 2 ^ 8 + h.toNat := by
  simp only [beNat, List.foldl_cons, List.foldl_nil]
  ring

theorem toNat_lt (b : UInt8) : b.toNat < 256 := UInt8.toNat_lt b

/-- The byte of `x` that starts at bit `s`: `(x >> s) & 0xff`. -/
def byte (x s : ℕ) : UInt8 := UInt8.ofNat ((x >>> s) &&& 0xff)

theorem toNat_byte (x s : ℕ) : (byte x s).toNat = x / 2 ^ s % 256 := by
  rw [byte, Nat.shiftRight_eq_div_pow, show (0xff : ℕ) = 2 ^ 8 - 1 from rfl,
    Nat.and_two_pow_sub_one_eq_mod, UInt8.toNat_ofNat']
  omega

/-- Joining a byte below a value that was shifted past it is adding it. -/
theorem shiftLeft_or_byte (x s : ℕ) (b : UInt8) :
    x <<< (s + 8) ||| b.toNat <<< s = x * 2 ^ (s + 8) + b.toNat * 2 ^ s := by
  have hb : b.toNat <<< s < 2 ^ (s + 8) := by
    rw [Nat.shiftLeft_eq, Nat.pow_add, Nat.mul_comm]
    exact Nat.mul_lt_mul_of_pos_left (toNat_lt b) (Nat.two_pow_pos s)
  rw [← Nat.shiftLeft_add_eq_or_of_lt hb, Nat.shiftLeft_eq, Nat.shiftLeft_eq]

/-- Two bytes written with shifts. -/
theorem beNat_two_shift (a b : UInt8) : a.toNat <<< 8 ||| b.toNat = beNat [a, b] := by
  have h := shiftLeft_or_byte a.toNat 0 b
  simp only [Nat.zero_add, Nat.shiftLeft_zero, Nat.pow_zero, Nat.mul_one] at h
  rw [h, beNat_two, show (256 : ℕ) = 2 ^ 8 from rfl]

/-- Eight bytes written with shifts. -/
theorem beNat_eight_shift (a b c d e f g h : UInt8) :
    a.toNat <<< 56 ||| b.toNat <<< 48 ||| c.toNat <<< 40 ||| d.toNat <<< 32 ||| e.toNat <<< 24 |||
      f.toNat <<< 16 ||| g.toNat <<< 8 ||| h.toNat = beNat [a, b, c, d, e, f, g, h] := by
  -- each byte is joined below what has been shifted past it
  have join : ∀ (x s t : ℕ) (y : UInt8), t = s + 8 →
      x <<< t ||| y.toNat <<< s = (x * 256 + y.toNat) <<< s := by
    rintro x s _ y rfl
    rw [shiftLeft_or_byte, Nat.shiftLeft_eq, Nat.pow_add]
    ring
  have last : ∀ x : ℕ, x <<< 8 ||| h.toNat = x * 256 + h.toNat := fun x => by
    simpa using join x 0 8 h rfl
  rw [join _ 48 56 _ rfl, join _ 40 48 _ rfl, join _ 32 40 _ rfl, join _ 24 32 _ rfl,
    join _ 16 24 _ rfl, join _ 8 16 _ rfl, last]
  simp only [beNat, List.foldl_cons, List.foldl_nil, Nat.zero_mul, Nat.zero_add]

/-- Splitting a 16-bit number into its two bytes loses nothing. -/
theorem beNat_split (x : ℕ) (hx : x < 65536) : beNat [byte x 8, byte x 0] = x := by
  rw [beNat_two, toNat_byte, toNat_byte]
  omega

/-! ### Little-endian numbers -/

/-- The value of a little-endian list of bytes. -/
def leNat : List UInt8 → ℕ
  | [] => 0
  | b :: bs => b.toNat + 256 * leNat bs

/-- The four bytes of a `uint32_t` in memory. -/
def le32 (x : ℕ) : List UInt8 := [byte x 0, byte x 8, byte x 16, byte x 24]

theorem leNat_le32 (x : ℕ) : leNat (le32 x) = x % 2 ^ 32 := by
  simp only [le32, leNat, toNat_byte]
  omega

theorem leNat_lt (bs : List UInt8) : leNat bs < 256 ^ bs.length := by
  induction bs with
  | nil => exact Nat.one_pos
  | cons b bs ih =>
      have hb := toNat_lt b
      rw [leNat, List.length_cons, Nat.pow_succ]
      omega

end Bytes
