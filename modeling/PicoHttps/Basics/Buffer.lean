/-
**Fixed-size byte buffers.**

A C array of `n` bytes is a list of exactly `n` bytes; whatever the program has not written holds
arbitrary bytes.  Reading or writing past the end is not a value of any kind: the operations
return `none` there, so that a program model that returns `some` has stayed inside its arrays.

Most buffers are filled from the front, so what a program relies on is that the buffer *starts
with* certain bytes, the rest being stale (`Buffer.Holds`).

Main definitions:

* `Buffer`, `Buffer.read`, `Buffer.write`, `Buffer.memcpy` — arrays and their accesses;
* `Buffer.Holds` — the bytes at the front of a buffer;
* `Buffer.snprintf`, `Buffer.slice` — printing into a buffer, and reading a piece of it;
* `Buffer.Cursor` — a buffer that is being filled, with the position of the next byte.

Main results:

* `Buffer.Holds.read` — reading below the filled part;
* `Buffer.Holds.memcpy`, `Buffer.Holds.write` — **appending to the filled part** succeeds exactly
  when there is room;
* `Buffer.Holds.snprintf` — the same for a text that is printed;
* `Buffer.Cursor.Filled.put`, `Buffer.Cursor.Filled.copy` — the same for a cursor.
-/

import Mathlib.Data.Nat.Notation
import Mathlib.Data.List.Basic
import Mathlib.Tactic.Common

set_option relaxedAutoImplicit false
set_option autoImplicit false

/-- An array of `n` bytes. -/
structure Buffer (n : ℕ) where
  bytes : List UInt8
  length_bytes : bytes.length = n
  deriving DecidableEq

namespace Buffer

variable {n : ℕ}

/-- The array in which every byte is `x`. -/
def filled (n : ℕ) (x : UInt8) : Buffer n := ⟨List.replicate n x, by simp⟩

/-- `buf[i]` as a value; `none` when `i` is past the end. -/
def read (b : Buffer n) (i : ℕ) : Option UInt8 := b.bytes[i]?

/-- `memcpy(&buf[off], src, |src|)`; `none` when it would write past the end. -/
def memcpy (b : Buffer n) (off : ℕ) (src : List UInt8) : Option (Buffer n) :=
  if h : off + src.length ≤ n then
    some ⟨b.bytes.take off ++ src ++ b.bytes.drop (off + src.length), by
      simp [b.length_bytes]; omega⟩
  else none

/-- `buf[i] = x`; `none` when `i` is past the end. -/
def write (b : Buffer n) (i : ℕ) (x : UInt8) : Option (Buffer n) := b.memcpy i [x]

/-- The buffer starts with the bytes `xs`. -/
def Holds (b : Buffer n) (xs : List UInt8) : Prop := xs <+: b.bytes

theorem holds_nil (b : Buffer n) : b.Holds [] := List.nil_prefix

theorem Holds.length_le {b : Buffer n} {xs : List UInt8} (h : b.Holds xs) : xs.length ≤ n :=
  b.length_bytes ▸ List.IsPrefix.length_le h

theorem Holds.take_eq {b : Buffer n} {xs : List UInt8} (h : b.Holds xs) :
    b.bytes.take xs.length = xs := (List.prefix_iff_eq_take.1 h).symm

/-- Reading below the filled part gives the byte that was put there. -/
theorem Holds.read {b : Buffer n} {xs : List UInt8} (h : b.Holds xs) {i : ℕ}
    (hi : i < xs.length) : b.read i = some xs[i] := by
  obtain ⟨ys, hys⟩ := h
  rw [Buffer.read, ← hys, List.getElem?_append_left hi, List.getElem?_eq_getElem hi]

/-- **Appending to the filled part.** -/
theorem Holds.memcpy {b : Buffer n} {xs : List UInt8} (h : b.Holds xs) (ys : List UInt8)
    (hroom : xs.length + ys.length ≤ n) :
    ∃ b', b.memcpy xs.length ys = some b' ∧ b'.Holds (xs ++ ys) := by
  refine ⟨_, dif_pos hroom, ?_⟩
  simp only [Holds, h.take_eq]
  exact List.prefix_append _ _

/-- A copy that does not fit is an access past the end. -/
theorem memcpy_eq_none {b : Buffer n} {off : ℕ} {src : List UInt8}
    (h : n < off + src.length) : b.memcpy off src = none :=
  dif_neg (by omega)

theorem memcpy_nil (b : Buffer n) {off : ℕ} (hoff : off ≤ n) : b.memcpy off [] = some b := by
  have hroom : off + ([] : List UInt8).length ≤ n := hoff
  rw [memcpy, dif_pos hroom]
  simp

/-- Copying two pieces one behind the other. -/
theorem memcpy_append (b : Buffer n) (off : ℕ) (xs ys : List UInt8) :
    b.memcpy off (xs ++ ys) = (b.memcpy off xs).bind fun b' => b'.memcpy (off + xs.length) ys := by
  rcases Nat.lt_or_ge n (off + (xs ++ ys).length) with hlt | hle
  · rw [memcpy_eq_none hlt]
    rw [List.length_append] at hlt
    rcases Nat.lt_or_ge n (off + xs.length) with hlt' | hle'
    · rw [memcpy_eq_none hlt']
      rfl
    · rw [memcpy, dif_pos hle']
      exact (memcpy_eq_none (by omega)).symm
  · have hlen := b.length_bytes
    rw [List.length_append] at hle
    have hxs : off + xs.length ≤ n := by omega
    have hys : off + xs.length + ys.length ≤ n := by omega
    rw [memcpy, dif_pos (by rw [List.length_append]; exact hle), memcpy, dif_pos hxs,
      Option.bind_some, memcpy, dif_pos hys]
    have hpre : (b.bytes.take off ++ xs).length = off + xs.length := by
      rw [List.length_append, List.length_take, hlen, Nat.min_eq_left (by omega)]
    have hdrop : List.drop (off + xs.length + ys.length)
        (b.bytes.take off ++ xs ++ b.bytes.drop (off + xs.length)) =
          b.bytes.drop (off + (xs ++ ys).length) := by
      rw [List.drop_append, hpre, List.drop_eq_nil_of_le (by omega), List.nil_append,
        List.drop_drop, List.length_append]
      congr 1
      omega
    congr 2
    rw [List.take_left' hpre, hdrop]
    simp only [List.append_assoc]

/-- What lies in front of the copied piece, and the piece. -/
theorem take_memcpy {b b' : Buffer n} {off : ℕ} {xs : List UInt8} (h : b.memcpy off xs = some b') :
    b'.bytes.take (off + xs.length) = b.bytes.take off ++ xs := by
  rw [memcpy] at h
  split at h
  · rename_i hroom
    obtain rfl := Option.some.inj h
    refine List.take_left' ?_
    rw [List.length_append, List.length_take, b.length_bytes, Nat.min_eq_left (by omega)]
  · cases h

/-- Copying over the whole array. -/
theorem memcpy_all (b : Buffer n) {xs : List UInt8} (hxs : xs.length = n) :
    b.memcpy 0 xs = some ⟨xs, hxs⟩ := by
  have hdrop : b.bytes.drop n = [] := List.drop_eq_nil_of_le (Nat.le_of_eq b.length_bytes)
  rw [memcpy, dif_pos (by omega)]
  simp [hxs, hdrop]

/-- Appending one byte to the filled part. -/
theorem Holds.write {b : Buffer n} {xs : List UInt8} (h : b.Holds xs) (x : UInt8)
    (hroom : xs.length < n) :
    ∃ b', b.write xs.length x = some b' ∧ b'.Holds (xs ++ [x]) :=
  h.memcpy [x] (by simpa using Nat.succ_le_of_lt hroom)

/-! ### Printing into a buffer -/

/-- What `snprintf` returns for a text. -/
def printed (text : List UInt8) : Int := if text.length ≤ 0x7fffffff then text.length else -1

/-- `snprintf(&buf[pos], size, …)`, with the text that the format stands for. -/
def snprintf (b : Buffer n) (pos size : ℕ) (text : List UInt8) : Option (Buffer n × Int) := do
  let b ← if size = 0 then some b else b.memcpy pos (text.take (size - 1) ++ [0])
  return (b, printed text)

/-- Printing in front of the end of the array. -/
theorem exists_snprintf (b : Buffer n) (text : List UInt8) {pos size : ℕ} (hsize : pos + size ≤ n) :
    ∃ b', b.snprintf pos size text = some (b', printed text) := by
  rw [snprintf]
  split
  · exact ⟨b, rfl⟩
  · have hroom : pos + (text.take (size - 1) ++ [0]).length ≤ n := by
      rw [List.length_append, List.length_take, List.length_singleton]
      omega
    rw [memcpy, dif_pos hroom]
    exact ⟨_, rfl⟩

/-- **A text that fits is appended to the filled part**, with a zero byte behind it. -/
theorem Holds.snprintf {b : Buffer n} {xs : List UInt8} (h : b.Holds xs) (text : List UInt8)
    {size : ℕ} (htext : text.length < size) (hsize : xs.length + size ≤ n) :
    ∃ b', b.snprintf xs.length size text = some (b', printed text) ∧
      b'.Holds (xs ++ (text ++ [0])) := by
  have hlen : (text ++ [0]).length = text.length + 1 := by
    rw [List.length_append, List.length_singleton]
  obtain ⟨b', hb', hholds⟩ := h.memcpy (text ++ [0]) (by omega)
  refine ⟨b', ?_, hholds⟩
  rw [Buffer.snprintf, if_neg (by omega), List.take_of_length_le (by omega), hb']
  rfl

/-- The `len` bytes from `off` on; `none` when they reach past the end. -/
def slice (b : Buffer n) (off len : ℕ) : Option (List UInt8) :=
  if off + len ≤ n then some ((b.bytes.drop off).take len) else none

/-- A piece of the filled part. -/
theorem Holds.slice {b : Buffer n} {xs ys zs : List UInt8} (h : b.Holds (xs ++ (ys ++ zs))) :
    b.slice xs.length ys.length = some ys := by
  have hlen := h.length_le
  rw [List.length_append, List.length_append] at hlen
  obtain ⟨rest, hrest⟩ := h
  rw [Buffer.slice, if_pos (by omega), ← hrest, List.append_assoc, List.drop_left,
    List.append_assoc, List.take_left]

/-! ### Filling a buffer from the front -/

/-- A buffer and the position `pos` of the next byte to write. -/
structure Cursor (n : ℕ) where
  buffer : Buffer n
  pos : ℕ

namespace Cursor

/-- `buf[pos++] = x`. -/
def put (c : Cursor n) (x : UInt8) : Option (Cursor n) := do
  let buffer ← c.buffer.write c.pos x
  return ⟨buffer, c.pos + 1⟩

/-- `buf[pos++] = x` for each `x` of a list. -/
def putAll (c : Cursor n) : List UInt8 → Option (Cursor n)
  | [] => some c
  | x :: xs => do
    let c ← c.put x
    putAll c xs

/-- `memcpy(&buf[pos], src, |src|); pos += |src|`. -/
def copy (c : Cursor n) (src : List UInt8) : Option (Cursor n) := do
  let buffer ← c.buffer.memcpy c.pos src
  return ⟨buffer, c.pos + src.length⟩

/-- `buf[pos - 1] |= x`. -/
def orLast (c : Cursor n) (x : UInt8) : Option (Cursor n) := do
  let y ← c.buffer.read (c.pos - 1)
  let buffer ← c.buffer.write (c.pos - 1) (y ||| x)
  return ⟨buffer, c.pos⟩

/-- The first `pos` bytes of the buffer. -/
def written (c : Cursor n) : List UInt8 := c.buffer.bytes.take c.pos

/-- The bytes `xs`, and no others, have been written. -/
structure Filled (c : Cursor n) (xs : List UInt8) : Prop where
  holds : c.buffer.Holds xs
  pos_eq : c.pos = xs.length

theorem filled_start (b : Buffer n) : (⟨b, 0⟩ : Cursor n).Filled [] := ⟨holds_nil b, rfl⟩

namespace Filled

variable {c : Cursor n} {xs : List UInt8}

theorem written_eq (h : c.Filled xs) : c.written = xs := by
  rw [written, h.pos_eq]
  exact h.holds.take_eq

theorem put (h : c.Filled xs) (hroom : xs.length < n) (x : UInt8) :
    ∃ c', c.put x = some c' ∧ c'.Filled (xs ++ [x]) := by
  obtain ⟨b, hb, hholds⟩ := h.holds.write x hroom
  refine ⟨⟨b, c.pos + 1⟩, ?_, hholds, by simp [h.pos_eq]⟩
  rw [Cursor.put, h.pos_eq, hb]
  rfl

theorem copy (h : c.Filled xs) (ys : List UInt8) (hroom : xs.length + ys.length ≤ n) :
    ∃ c', c.copy ys = some c' ∧ c'.Filled (xs ++ ys) := by
  obtain ⟨b, hb, hholds⟩ := h.holds.memcpy ys hroom
  refine ⟨⟨b, c.pos + ys.length⟩, ?_, hholds, by simp [h.pos_eq]⟩
  rw [Cursor.copy, h.pos_eq, hb]
  rfl

theorem putAll (ys : List UInt8) : ∀ {c : Cursor n} {xs : List UInt8}, c.Filled xs →
    xs.length + ys.length ≤ n → ∃ c', c.putAll ys = some c' ∧ c'.Filled (xs ++ ys) := by
  induction ys with
  | nil => intro c xs h _; exact ⟨c, rfl, by rwa [List.append_nil]⟩
  | cons y ys ih =>
      intro c xs h hroom
      rw [List.length_cons] at hroom
      obtain ⟨c₁, hput, h₁⟩ := h.put (by omega) y
      obtain ⟨c₂, hall, h₂⟩ := ih h₁ (by simp; omega)
      refine ⟨c₂, ?_, by simpa using h₂⟩
      rw [Cursor.putAll, hput]
      exact hall

/-- A byte that has been put stands behind the others. -/
theorem of_put {c' : Cursor n} {x : UInt8} (h : c.Filled xs) (hput : c.put x = some c') :
    c'.Filled (xs ++ [x]) := by
  by_cases hroom : xs.length < n
  · obtain ⟨c₁, hput₁, h₁⟩ := h.put hroom x
    obtain rfl := Option.some.inj (hput.symm.trans hput₁)
    exact h₁
  · have hnone : c.buffer.write c.pos x = none :=
      memcpy_eq_none (by rw [h.pos_eq, List.length_singleton]; omega)
    rw [Cursor.put, hnone] at hput
    cases hput

/-- Bytes that have been copied stand behind the others. -/
theorem of_copy {c' : Cursor n} {ys : List UInt8} (h : c.Filled xs) (hcopy : c.copy ys = some c') :
    c'.Filled (xs ++ ys) := by
  by_cases hroom : xs.length + ys.length ≤ n
  · obtain ⟨c₁, hcopy₁, h₁⟩ := h.copy ys hroom
    obtain rfl := Option.some.inj (hcopy.symm.trans hcopy₁)
    exact h₁
  · have hnone : c.buffer.memcpy c.pos ys = none :=
      memcpy_eq_none (by rw [h.pos_eq]; omega)
    rw [Cursor.copy, hnone] at hcopy
    cases hcopy

/-- Changing the last byte that has been written. -/
theorem orLast {y : UInt8} (h : c.Filled (xs ++ [y])) (x : UInt8) :
    ∃ c', c.orLast x = some c' ∧ c'.Filled (xs ++ [y ||| x]) := by
  have hlen : (xs ++ [y]).length = xs.length + 1 := by simp
  have hle := h.holds.length_le
  have hpos : c.pos - 1 = xs.length := by rw [h.pos_eq, hlen, Nat.add_sub_cancel]
  have hread : c.buffer.read xs.length = some y := by
    rw [h.holds.read (show xs.length < (xs ++ [y]).length by omega)]
    simp
  have hpre : c.buffer.Holds xs := (List.prefix_append xs [y]).trans h.holds
  obtain ⟨b, hb, hholds⟩ := hpre.write (y ||| x) (by omega)
  refine ⟨⟨b, c.pos⟩, ?_, hholds, by rw [h.pos_eq, hlen]; simp⟩
  simp only [Cursor.orLast, hpos, hread, hb, Option.bind_eq_bind, Option.bind_some]
  rfl

end Filled

end Cursor

end Buffer
