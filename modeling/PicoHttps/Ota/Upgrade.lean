/-
**The upgrade helper.**

The model of `pico_simple_ota/upgrade_helper.cpp` and `uf2.h`: an `UpgradeHelper` that assembles
the blocks of a UF2 file from the data it is given, writes their payloads to a staging area of the
flash memory, and at the end copies the sectors it has written to the beginning of the memory.

A block is the array `m_buffer` read as a `UF2_Block`.  `uint32_t` arithmetic is arithmetic of
natural numbers modulo `2 ^ 32`.  An access outside an array leaves no state: the operations
return `none` there.  Whether `flash_safe_execute` succeeds is up to the system (`Ota.Access`).

Main definitions:

* `Ota.Setup` — the build-time configuration;
* `Ota.UF2Block` — the fields of a block;
* `Ota.UpgradeHelper`, `Ota.World` — the helper, and the helper with the flash memory;
* `Ota.World.storeData`, `Ota.World.clear`, `Ota.World.upgrade` — its methods.
-/

import PicoHttps.Basics.While
import PicoHttps.Basics.Flash
import PicoHttps.Basics.Bitmap

set_option relaxedAutoImplicit false
set_option autoImplicit false

namespace Ota

/-! ### Configuration -/

/-- The size of the unit in which the memory is erased. -/
def FLASH_SECTOR_SIZE : ℕ := 4096

/-- The address at which the flash memory is mapped. -/
def XIP_BASE : ℕ := 0x10000000

/-- The size of a block. -/
def BLOCK_SIZE : ℕ := 512

/-- The build-time configuration: `OTA_FLASH_BUFFER_OFFSET` and `MAX_BINARY_SIZE`. -/
structure Setup where
  offset : ℕ
  maxBinarySize : ℕ
  deriving DecidableEq, Repr

/-- The configuration of `upgrade_helper.h`. -/
def Setup.default : Setup := ⟨0x100000, 256 * 4096⟩

/-- `NUM_REGIONS`. -/
def Setup.numRegions (c : Setup) : ℕ := c.maxBinarySize / FLASH_SECTOR_SIZE

/-- The difference of two `uint32_t`. -/
def sub32 (a b : ℕ) : ℕ := (a + (2 ^ 32 - b % 2 ^ 32)) % 2 ^ 32

/-! ### Blocks -/

namespace UF2Block

def UF2_MAGIC_START0 : ℕ := 0x0A324655
def UF2_MAGIC_START1 : ℕ := 0x9E5D5157
def UF2_MAGIC_END : ℕ := 0x0AB16F30
def UF2_FLAG_NOFLASH : ℕ := 0x00000001
def UF2_FLAG_EXTENSION_TAGS : ℕ := 0x00008000

/-- The `uint32_t` at the position `off` of a block. -/
def word (off : ℕ) (block : List UInt8) : ℕ := Bytes.leNat ((block.drop off).take 4)

def magicStart0 (block : List UInt8) : ℕ := word 0 block
def magicStart1 (block : List UInt8) : ℕ := word 4 block
def flags (block : List UInt8) : ℕ := word 8 block
def targetAddr (block : List UInt8) : ℕ := word 12 block
def payloadSize (block : List UInt8) : ℕ := word 16 block
def data (block : List UInt8) : List UInt8 := (block.drop 32).take 476
def magicEnd (block : List UInt8) : ℕ := word 508 block

/-- The first `payloadSize` bytes of the data; `none` when the data has fewer. -/
def payload (block : List UInt8) : Option (List UInt8) :=
  if payloadSize block ≤ (data block).length then some ((data block).take (payloadSize block))
  else none

end UF2Block

/-- `block->targetAddr = x`. -/
def setTargetAddr (b : Buffer BLOCK_SIZE) (x : ℕ) : Buffer BLOCK_SIZE where
  bytes := b.bytes.take 12 ++ Bytes.le32 x ++ b.bytes.drop 16
  length_bytes := by simp [b.length_bytes, Bytes.le32, BLOCK_SIZE]

/-! ### The helper and the flash memory -/

/-- The fields of `class UpgradeHelper`, with the address of `m_buffer`. -/
structure UpgradeHelper (c : Setup) where
  address : ℕ
  buffer : Buffer BLOCK_SIZE
  regionErased : Buffer (c.numRegions / 8)
  index : ℕ

/-- What `flash_safe_execute` comes to: it runs the function and returns `PICO_OK`, it fails before
it runs the function, or it fails afterwards. -/
inductive Access
  | ok
  | refused
  | late
  deriving DecidableEq, Repr

/-- What is done to the flash memory. -/
inductive FlashOp
  | erase (offset count : ℕ)
  | program (offset : ℕ) (data : List UInt8)
  deriving DecidableEq, Repr

/-- The helper, the flash memory, and how often `flash_safe_execute` has been called. -/
structure World (c : Setup) where
  helper : UpgradeHelper c
  flash : Flash
  accesses : ℕ

variable {c : Setup}

namespace World

/-- Changes the helper. -/
def set (f : UpgradeHelper c → UpgradeHelper c) (w : World c) : World c :=
  { w with helper := f w.helper }

/-- The block in `m_buffer`. -/
def block (w : World c) : List UInt8 := w.helper.buffer.bytes

/-- `UpgradeHelper::clear`. -/
def clear (w : World c) : World c :=
  w.set fun h => { h with regionErased := .filled _ 0, index := 0 }

/-- The sector of the staging area in which the block in `m_buffer` goes, as `region`. -/
def region (w : World c) : ℕ := sub32 (UF2Block.targetAddr w.block) c.offset / FLASH_SECTOR_SIZE

/-- `UpgradeHelper::writeToFlash`. -/
def writeToFlash (w : World c) : List FlashOp × Option (World c) :=
  let targetAddr := UF2Block.targetAddr w.block
  let offset := targetAddr - targetAddr % FLASH_SECTOR_SIZE
  match Bitmap.test w.helper.regionErased w.region, Bitmap.set w.helper.regionErased w.region with
  | some erased, some regionErased =>
    let ops := if erased then [] else [.erase offset FLASH_SECTOR_SIZE]
    let w := if erased then w else
      { w.set fun h => { h with regionErased := regionErased } with
        flash := w.flash.erase offset FLASH_SECTOR_SIZE }
    match UF2Block.payload w.block with
    | some data =>
      (ops ++ [.program targetAddr data],
        some { w with flash := w.flash.program targetAddr data })
    | none => (ops, none)
  | _, _ => ([], none)

/-- The end of the branch for a full block in `storeData`: `flash_safe_execute` of `writeToFlash`,
and the comparison of what has been written.  The value tells whether the loop goes on; if not,
`storeData` returns `false`. -/
def storePayload (access : ℕ → Access) (w : World c) : List FlashOp × Option (Bool × World c) :=
  let w' := { w with accesses := w.accesses + 1 }
  match access w.accesses with
  | .refused => ([], some (false, w'))
  | .late => (w'.writeToFlash.1, w'.writeToFlash.2.map fun w => (false, w))
  | .ok => (w'.writeToFlash.1, w'.writeToFlash.2.bind fun w => do
      let data ← UF2Block.payload w.block
      let written := w.flash.read (UF2Block.targetAddr w.block) data.length
      return (written = data, w))

/-- The branch for a full block in `storeData`. -/
def storeBlock (access : ℕ → Access) (w : World c) : List FlashOp × Option (Bool × World c) :=
  if UF2Block.magicEnd w.block ≠ UF2Block.UF2_MAGIC_END then ([], some (false, w))
  -- ignore not-in-flash segment
  else if UF2Block.flags w.block &&& UF2Block.UF2_FLAG_NOFLASH ≠ 0 then ([], some (true, w))
  else if UF2Block.flags w.block &&& UF2Block.UF2_FLAG_EXTENSION_TAGS ≠ 0 then ([], some (true, w))
  else
    let targetAddr := sub32 (UF2Block.targetAddr w.block) XIP_BASE
    let w := w.set fun h => { h with buffer := setTargetAddr h.buffer targetAddr }
    if targetAddr ≥ c.maxBinarySize then ([], some (false, w))
    else
      let targetAddr := (targetAddr + c.offset) % 2 ^ 32
      let w := w.set fun h => { h with buffer := setTargetAddr h.buffer targetAddr }
      if targetAddr % 256 ≠ 0 then ([], some (false, w))
      else if UF2Block.payloadSize w.block % 256 ≠ 0 then ([], some (false, w))
      else if (w.helper.address + 32) % 2 ^ 32 % 32 ≠ 0 then ([], some (false, w))
      else if w.region ≥ c.numRegions then ([], some (false, w))
      else w.storePayload access

/-- One iteration of `while (len > 0)` in `storeData`.  The loop leaves with the value returned, or
with `none` after an access outside an array. -/
def storeTurn (access : ℕ → Access) :
    While.Body (World c × List UInt8) FlashOp (Option (Bool × World c))
  | (w, data) =>
    if 0 < data.length then
      let available := sub32 BLOCK_SIZE w.helper.index
      let count := if data.length < available then data.length else available
      match w.helper.buffer.memcpy w.helper.index (data.take count) with
      | none => ([], .inr none)
      | some buffer =>
        let index := (w.helper.index + count) % 2 ^ 32
        if index = BLOCK_SIZE then
          match (w.set fun h => { h with buffer := buffer, index := 0 }).storeBlock access with
          | (ops, none) => (ops, .inr none)
          | (ops, some (false, w)) => (ops, .inr (some (false, w)))
          | (ops, some (true, w)) => (ops, .inl (w, data.drop count))
        else
          let w := w.set fun h => { h with buffer := buffer, index := index }
          if index > BLOCK_SIZE then ([], .inr (some (false, w)))
          else ([], .inl (w, data.drop count))
    else ([], .inr (some (true, w)))

/-- `UpgradeHelper::storeData`, with what it does to the flash memory.  Every iteration takes a
byte at least, so there are enough of them (`Ota.World.storeData_eq`). -/
def storeData (access : ℕ → Access) (w : World c) (data : List UInt8) :
    List FlashOp × Option (Bool × World c) :=
  ((While.run (storeTurn access) (data.length + 1) (w, data)).getD ([], none))

/-! ### The upgrade -/

/-- The first loop of `upgrade_binary`, over the sectors `is`: it erases those that are to be
written. -/
def eraseRegions (h : UpgradeHelper c) : List ℕ → Flash → Option Flash
  | [], f => some f
  | i :: is, f => do
    let erased ← Bitmap.test h.regionErased i
    eraseRegions h is (if erased then f.erase (i * FLASH_SECTOR_SIZE) FLASH_SECTOR_SIZE else f)

/-- The second loop of `upgrade_binary`, over the sectors `is`: it copies them from the staging
area. -/
def copyRegions (h : UpgradeHelper c) : List ℕ → Flash → Option Flash
  | [], f => some f
  | i :: is, f => do
    let erased ← Bitmap.test h.regionErased i
    let offset := i * FLASH_SECTOR_SIZE
    copyRegions h is
      (if erased then f.program offset (f.read (c.offset + offset) FLASH_SECTOR_SIZE) else f)

/-- `UpgradeHelper::upgrade`: the flash memory with which the system starts again. -/
def upgrade (w : World c) : Option Flash := do
  let f ← eraseRegions w.helper (List.range c.numRegions) w.flash
  copyRegions w.helper (List.range c.numRegions) f

end World

end Ota
