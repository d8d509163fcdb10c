/-
**Flash memory.**

A flash memory holds a byte at every address.  Erasing a range sets its bytes to `0xFF`;
programming can only clear bits, so it writes the bytes it is given where the memory has been
erased, and the conjunction of old and new elsewhere.

Main definitions:

* `Flash`, `Flash.erase`, `Flash.program`, `Flash.read` — the memory and its operations;
* `Flash.Blank` — an erased range;
* `Flash.Patch`, `Flash.patched` — bytes for a range, and what is left of several of them.

Main results:

* `Flash.erase_outside`, `Flash.program_outside` — what is not touched;
* `Flash.read_program` — **what is programmed on a blank range is read back**;
* `Flash.program_program` — programming the same data again changes nothing;
* `Flash.program_patch` — **what is read back as it was programmed has replaced what was there**.
-/

import PicoHttps.Basics.Bytes

set_option relaxedAutoImplicit false
set_option autoImplicit false

/-- The contents of a flash memory. -/
abbrev Flash := ℕ → UInt8

namespace Flash

/-- The byte of an erased memory. -/
def ERASED : UInt8 := 0xff

/-- Sets the `count` bytes from `offset` on to `0xFF`. -/
def erase (offset count : ℕ) (f : Flash) : Flash :=
  fun a => if offset ≤ a ∧ a < offset + count then ERASED else f a

/-- Clears the bits that are clear in the data, which lies from `offset` on. -/
def program (offset : ℕ) (data : List UInt8) (f : Flash) : Flash :=
  fun a => if offset ≤ a then
    match data[a - offset]? with
    | some x => f a &&& x
    | none => f a
  else f a

/-- The `count` bytes from `offset` on. -/
def read (offset count : ℕ) (f : Flash) : List UInt8 := (List.range count).map fun i => f (offset + i)

/-- The `count` bytes from `offset` on are erased. -/
def Blank (offset count : ℕ) (f : Flash) : Prop :=
  ∀ a, offset ≤ a → a < offset + count → f a = ERASED

variable {offset count a : ℕ} {data : List UInt8} {f : Flash}

theorem erase_inside (h : offset ≤ a) (h' : a < offset + count) :
    f.erase offset count a = ERASED := if_pos ⟨h, h'⟩

theorem erase_outside (h : a < offset ∨ offset + count ≤ a) : f.erase offset count a = f a :=
  if_neg (by omega)

theorem program_outside (h : a < offset ∨ offset + data.length ≤ a) :
    f.program offset data a = f a := by
  rw [program]
  split
  · rw [List.getElem?_eq_none (by omega)]
  · rfl

theorem program_inside {i : ℕ} (hi : i < data.length) :
    f.program offset data (offset + i) = f (offset + i) &&& data[i] := by
  rw [program, if_pos (Nat.le_add_right _ _), Nat.add_sub_cancel_left,
    List.getElem?_eq_getElem hi]

theorem erased_and (x : UInt8) : ERASED &&& x = x := by
  apply UInt8.toBitVec_inj.1
  rw [UInt8.toBitVec_and]
  exact BitVec.allOnes_and

/-- On a blank range a byte is programmed as it is. -/
theorem program_blank (h : f.Blank offset data.length) {i : ℕ} (hi : i < data.length) :
    f.program offset data (offset + i) = data[i] := by
  rw [program_inside hi, h _ (Nat.le_add_right _ _) (by omega), erased_and]

@[simp] theorem length_read : (f.read offset count).length = count := by
  simp [read]

theorem getElem_read {i : ℕ} (hi : i < (f.read offset count).length) :
    (f.read offset count)[i] = f (offset + i) := by
  simp [read]

/-- **What is programmed on a blank range is read back.** -/
theorem read_program (h : f.Blank offset data.length) :
    (f.program offset data).read offset data.length = data := by
  refine List.ext_getElem length_read fun i hi hi' => ?_
  rw [getElem_read, program_blank h hi']

/-! ### Patches -/

/-- Bytes for the addresses from `offset` on. -/
structure Patch where
  offset : ℕ
  data : List UInt8
  deriving DecidableEq, Repr

/-- The byte for the address `a`. -/
def Patch.byte (p : Patch) (a : ℕ) : Option UInt8 :=
  if p.offset ≤ a then p.data[a - p.offset]? else none

/-- The byte that several patches, one after the other, leave at the address `a`: that of the last
one that has a byte for it. -/
def patched (ps : List Patch) (a : ℕ) : Option UInt8 :=
  ps.foldl (fun x p => (p.byte a).or x) none

theorem patched_concat (ps : List Patch) (p : Patch) (a : ℕ) :
    patched (ps ++ [p]) a = (p.byte a).or (patched ps a) := by
  rw [patched, List.foldl_append, ← patched]
  rfl

theorem patched_eq_none {ps : List Patch} {a : ℕ} (h : ∀ p ∈ ps, p.byte a = none) :
    patched ps a = none := by
  rw [patched]
  induction ps with
  | nil => rfl
  | cons p ps ih =>
      rw [List.foldl_cons, h p List.mem_cons_self]
      exact ih fun q hq => h q (List.mem_cons_of_mem _ hq)

theorem Patch.byte_some {p : Patch} {a : ℕ} {x : UInt8} (h : p.byte a = some x) :
    p.offset ≤ a ∧ a < p.offset + p.data.length := by
  rw [Patch.byte] at h
  split at h
  · rename_i hle
    obtain ⟨hlt, -⟩ := List.getElem?_eq_some_iff.1 h
    exact ⟨hle, by omega⟩
  · cases h

theorem program_byte (p : Patch) (f : Flash) (a : ℕ) : f.program p.offset p.data a =
    match p.byte a with
    | some x => f a &&& x
    | none => f a := by
  rw [program, Patch.byte]
  split <;> rfl

/-- Programming the same data again changes nothing. -/
theorem program_program (offset : ℕ) (data : List UInt8) (f : Flash) :
    (f.program offset data).program offset data = f.program offset data := by
  funext a
  rw [program_byte ⟨offset, data⟩, program_byte ⟨offset, data⟩]
  cases (Patch.mk offset data).byte a with
  | none => rfl
  | some x =>
      change f a &&& x &&& x = f a &&& x
      rw [UInt8.and_assoc, UInt8.and_self]

/-- **What is read back as it was programmed has replaced what was there**. -/
theorem program_patch {p : Patch}
    (h : (f.program p.offset p.data).read p.offset p.data.length = p.data) (a : ℕ) :
    f.program p.offset p.data a = (p.byte a).getD (f a) := by
  cases hbyte : p.byte a with
  | none =>
      rw [program_byte, hbyte]
      rfl
  | some x =>
      obtain ⟨hle, hlt⟩ := p.byte_some hbyte
      obtain ⟨i, rfl⟩ := Nat.exists_eq_add_of_le hle
      rw [Patch.byte, if_pos hle, Nat.add_sub_cancel_left] at hbyte
      have hi : i < ((f.program p.offset p.data).read p.offset p.data.length).length := by
        rw [length_read]
        omega
      rw [← getElem_read hi, Option.getD_some]
      refine Option.some.inj (((List.getElem?_eq_getElem hi).symm).trans ?_)
      rw [h]
      exact hbyte

end Flash
