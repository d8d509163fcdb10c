/-
**The helper takes a stream of blocks.**

`storeData` copies what it is given into `m_buffer`, as much at a time as there is room for, and
acts when the buffer is full.  So it takes the data byte by byte (`Ota.World.storeData_eq`), the
cuts between the calls do not matter, and what a block leads to is decided by the block alone, up
to what the flash memory does (`Ota.World.storeBlock_flash`).

Main definitions:

* `Ota.World.storeByte`, `Ota.World.takeBlock` — taking a byte, and a whole block;
* `Ota.Verdict`, `Ota.verdict` — what the checks of `storeData` say of a block;
* `Ota.World.storeChunks` — calls of `storeData`, up to the first `false`.

Main results:

* `Ota.World.storeData_eq` — **`storeData` takes its data byte by byte**;
* `Ota.World.storeChunks_eq` — the cuts between the calls do not matter;
* `Ota.World.ofStep_blocks` — a list of blocks is taken block by block;
* `Ota.World.storeBlock_skip`, `storeBlock_refuse`, `storeBlock_flash` — what a block leads to.
-/

import PicoHttps.Basics.Chunked
import PicoHttps.Ota.Upgrade

set_option relaxedAutoImplicit false
set_option autoImplicit false

namespace Ota

variable {c : Setup} {access : ℕ → Access}

/-! ### Byte by byte -/

namespace World

/-- What a block leads to, as an event list and the state left; the processing stops when `false`
is returned or after an access outside an array. -/
def outcome : List FlashOp × Option (Bool × World c) → List FlashOp × (World c ⊕ Option (World c))
  | (ops, none) => (ops, .inr none)
  | (ops, some (false, w)) => (ops, .inr (some w))
  | (ops, some (true, w)) => (ops, .inl w)

theorem outcome_fst (r : List FlashOp × Option (Bool × World c)) : (outcome r).1 = r.1 := by
  obtain ⟨ops, _ | ⟨_ | _, w⟩⟩ := r <;> rfl

theorem outcome_none (r : List FlashOp × Option (Bool × World c)) :
    (outcome r).2 = .inr none ↔ r.2 = none := by
  obtain ⟨ops, _ | ⟨_ | _, w⟩⟩ := r <;> simp [outcome]

theorem outcome_false (r : List FlashOp × Option (Bool × World c)) (w' : World c) :
    (outcome r).2 = .inr (some w') ↔ r.2 = some (false, w') := by
  obtain ⟨ops, _ | ⟨_ | _, w⟩⟩ := r <;> simp [outcome]

theorem outcome_true (r : List FlashOp × Option (Bool × World c)) (w' : World c) :
    (outcome r).2 = .inl w' ↔ r.2 = some (true, w') := by
  obtain ⟨ops, _ | ⟨_ | _, w⟩⟩ := r <;> simp [outcome]

/-- What a call returns, from the state left. -/
def returned : List FlashOp × (World c ⊕ Option (World c)) → List FlashOp × Option (Bool × World c)
  | (ops, .inl w) => (ops, some (true, w))
  | (ops, .inr none) => (ops, none)
  | (ops, .inr (some w)) => (ops, some (false, w))

theorem returned_append (ops : List FlashOp) (r : List FlashOp × (World c ⊕ Option (World c))) :
    returned (ops ++ r.1, r.2) = (ops ++ (returned r).1, (returned r).2) := by
  obtain ⟨ops', w | _ | w⟩ := r <;> rfl

/-- Taking one byte. -/
def storeByte (access : ℕ → Access) (w : World c) (x : UInt8) :
    List FlashOp × (World c ⊕ Option (World c)) :=
  match w.helper.buffer.memcpy w.helper.index [x] with
  | none => ([], .inr none)
  | some buffer =>
    if w.helper.index + 1 = BLOCK_SIZE then
      outcome ((w.set fun h => { h with buffer := buffer, index := 0 }).storeBlock access)
    else
      ([], .inl (w.set fun h => { h with buffer := buffer, index := w.helper.index + 1 }))

/-- A byte that does not fill the buffer. -/
theorem storeByte_part (access : ℕ → Access) {w : World c} {x : UInt8} {b : Buffer BLOCK_SIZE}
    (hb : w.helper.buffer.memcpy w.helper.index [x] = some b)
    (hpart : w.helper.index + 1 ≠ BLOCK_SIZE) :
    storeByte access w x =
      ([], .inl (w.set fun h => { h with buffer := b, index := w.helper.index + 1 })) := by
  rw [storeByte, hb]
  exact if_neg hpart

/-- A byte that fills the buffer. -/
theorem storeByte_full (access : ℕ → Access) {w : World c} {x : UInt8} {b : Buffer BLOCK_SIZE}
    (hb : w.helper.buffer.memcpy w.helper.index [x] = some b)
    (hfull : w.helper.index + 1 = BLOCK_SIZE) :
    storeByte access w x =
      outcome ((w.set fun h => { h with buffer := b, index := 0 }).storeBlock access) := by
  rw [storeByte, hb]
  exact if_pos hfull

theorem exists_memcpy (w : World c) (xs : List UInt8)
    (hroom : w.helper.index + xs.length ≤ BLOCK_SIZE) :
    ∃ b, w.helper.buffer.memcpy w.helper.index xs = some b := ⟨_, dif_pos hroom⟩

/-- Bytes that do not fill the buffer. -/
theorem store_part (access : ℕ → Access) {xs : List UInt8} :
    ∀ {w : World c} {b : Buffer BLOCK_SIZE},
    w.helper.index + xs.length < BLOCK_SIZE →
    w.helper.buffer.memcpy w.helper.index xs = some b →
    Chunk.ofStep (storeByte access) w xs =
      ([], .inl (w.set fun h => { h with buffer := b, index := w.helper.index + xs.length })) := by
  induction xs with
  | nil =>
      intro w b hroom hb
      have hle : w.helper.index ≤ BLOCK_SIZE := Nat.le_of_lt hroom
      rw [Buffer.memcpy_nil _ hle] at hb
      obtain rfl := Option.some.inj hb
      rfl
  | cons x xs ih =>
      intro w b hroom hb
      rw [List.length_cons] at hroom
      obtain ⟨b₁, hb₁⟩ := exists_memcpy w [x] (by rw [List.length_singleton]; omega)
      have hbyte := storeByte_part access hb₁ (by omega)
      rw [← List.singleton_append, Buffer.memcpy_append, hb₁] at hb
      rw [Chunk.ofStep_cons_go hbyte]
      have hrest := ih (w := w.set fun h => { h with buffer := b₁, index := w.helper.index + 1 })
        (b := b) (by change w.helper.index + 1 + xs.length < BLOCK_SIZE; omega) hb
      rw [hrest, List.nil_append]
      refine congrArg (fun i => (([] : List FlashOp), Sum.inl (w.set fun h =>
        { h with buffer := b, index := i }))) ?_
      change w.helper.index + 1 + xs.length = w.helper.index + (xs.length + 1)
      omega

/-- Bytes that fill the buffer. -/
theorem store_full (access : ℕ → Access) {xs : List UInt8} {w : World c} {b : Buffer BLOCK_SIZE}
    (hindex : w.helper.index < BLOCK_SIZE) (hfull : w.helper.index + xs.length = BLOCK_SIZE)
    (hb : w.helper.buffer.memcpy w.helper.index xs = some b) :
    Chunk.ofStep (storeByte access) w xs =
      outcome ((w.set fun h => { h with buffer := b, index := 0 }).storeBlock access) := by
  obtain rfl | ⟨ys, x, rfl⟩ := List.eq_nil_or_concat xs
  · rw [List.length_nil] at hfull
    omega
  · rw [List.concat_eq_append, List.length_append, List.length_singleton] at hfull
    rw [List.concat_eq_append, Buffer.memcpy_append] at hb
    obtain ⟨b₁, hb₁, hx⟩ := Option.bind_eq_some_iff.1 hb
    have hpart := store_part access (w := w) (by omega) hb₁
    rw [List.concat_eq_append, Chunk.ofStep_append_go hpart, Chunk.ofStep_singleton,
      List.nil_append, storeByte_full access (b := b) hx]
    · rfl
    · change w.helper.index + ys.length + 1 = BLOCK_SIZE
      omega

end World

/-! ### What a block leads to -/

/-- What the checks of `storeData` say of a block: it is passed over, it is refused, or its payload
is written. -/
inductive Verdict
  | skip
  | refuse
  | flash
  deriving DecidableEq, Repr

/-- Where the payload of a block is staged. -/
def dest (c : Setup) (block : List UInt8) : ℕ :=
  (sub32 (UF2Block.targetAddr block) XIP_BASE + c.offset) % 2 ^ 32

/-- The checks of `storeData`, in their order. -/
def verdict (c : Setup) (block : List UInt8) : Verdict :=
  if UF2Block.magicEnd block ≠ UF2Block.UF2_MAGIC_END then .refuse
  else if UF2Block.flags block &&& UF2Block.UF2_FLAG_NOFLASH ≠ 0 then .skip
  else if UF2Block.flags block &&& UF2Block.UF2_FLAG_EXTENSION_TAGS ≠ 0 then .skip
  else if sub32 (UF2Block.targetAddr block) XIP_BASE ≥ c.maxBinarySize then .refuse
  else if dest c block % 256 ≠ 0 then .refuse
  else if UF2Block.payloadSize block % 256 ≠ 0 then .refuse
  else if sub32 (dest c block) c.offset / FLASH_SECTOR_SIZE ≥ c.numRegions then .refuse
  else .flash

theorem word_lt (off : ℕ) (block : List UInt8) : UF2Block.word off block < 2 ^ 32 := by
  refine Nat.lt_of_lt_of_le (Bytes.leNat_lt _) ?_
  have hlen : ((block.drop off).take 4).length ≤ 4 := List.length_take_le _ _
  exact Nat.le_trans (Nat.pow_le_pow_right (by decide) hlen) (by decide)

section setTargetAddr

variable (b : Buffer BLOCK_SIZE) (x y : ℕ)

theorem bytes_setTargetAddr : (setTargetAddr b x).bytes =
    b.bytes.take 12 ++ Bytes.le32 x ++ b.bytes.drop 16 := rfl

theorem drop_setTargetAddr {off : ℕ} (hoff : 16 ≤ off) :
    (setTargetAddr b x).bytes.drop off = b.bytes.drop off := by
  have hlen : (b.bytes.take 12 ++ Bytes.le32 x).length = 16 := by
    simp [b.length_bytes, Bytes.le32, BLOCK_SIZE]
  rw [bytes_setTargetAddr, List.drop_append, List.drop_eq_nil_of_le (by omega), List.nil_append,
    List.drop_drop, hlen]
  congr 1
  omega

theorem word_setTargetAddr {off : ℕ} (hoff : 16 ≤ off) :
    UF2Block.word off (setTargetAddr b x).bytes = UF2Block.word off b.bytes := by
  rw [UF2Block.word, drop_setTargetAddr b x hoff, UF2Block.word]

@[simp] theorem payloadSize_setTargetAddr :
    UF2Block.payloadSize (setTargetAddr b x).bytes = UF2Block.payloadSize b.bytes :=
  word_setTargetAddr b x (by decide)

@[simp] theorem data_setTargetAddr :
    UF2Block.data (setTargetAddr b x).bytes = UF2Block.data b.bytes := by
  rw [UF2Block.data, drop_setTargetAddr b x (by decide), UF2Block.data]

@[simp] theorem payload_setTargetAddr :
    UF2Block.payload (setTargetAddr b x).bytes = UF2Block.payload b.bytes := by
  rw [UF2Block.payload, payloadSize_setTargetAddr, data_setTargetAddr, UF2Block.payload]

@[simp] theorem targetAddr_setTargetAddr :
    UF2Block.targetAddr (setTargetAddr b x).bytes = x % 2 ^ 32 := by
  have hlen : (b.bytes.take 12).length = 12 := by simp [b.length_bytes, BLOCK_SIZE]
  have hfour : (Bytes.le32 x).length = 4 := rfl
  rw [UF2Block.targetAddr, UF2Block.word, bytes_setTargetAddr, List.append_assoc,
    List.drop_left' hlen, List.take_left' hfour, Bytes.leNat_le32]

@[simp] theorem setTargetAddr_setTargetAddr :
    setTargetAddr (setTargetAddr b x) y = setTargetAddr b y := by
  have hlen : (b.bytes.take 12).length = 12 := by simp [b.length_bytes, BLOCK_SIZE]
  have htake : (setTargetAddr b x).bytes.take 12 = b.bytes.take 12 := by
    rw [bytes_setTargetAddr, List.append_assoc, List.take_left' hlen]
  have hdrop := drop_setTargetAddr b x (Nat.le_refl 16)
  generalize hb' : setTargetAddr b x = b' at htake hdrop
  rw [setTargetAddr, setTargetAddr]
  congr 1
  rw [htake, hdrop]

end setTargetAddr

namespace World

/-- The world in which the payload of the block is written: its target is the place in the staging
area. -/
def aim (w : World c) : World c :=
  w.set fun h => { h with buffer := setTargetAddr h.buffer (dest c w.block) }

theorem dest_lt {block : List UInt8} : dest c block < 2 ^ 32 := Nat.mod_lt _ (by decide)

theorem aim_targetAddr (w : World c) : UF2Block.targetAddr w.aim.block = dest c w.block := by
  rw [aim, block, set, targetAddr_setTargetAddr, Nat.mod_eq_of_lt dest_lt]

@[simp] theorem aim_payload (w : World c) :
    UF2Block.payload w.aim.block = UF2Block.payload w.block := payload_setTargetAddr _ _

theorem storeBlock_skip {w : World c} (h : verdict c w.block = .skip) :
    w.storeBlock access = ([], some (true, w)) := by
  rw [verdict] at h
  split_ifs at h with hmagic hnoflash htags
  · rw [storeBlock, if_neg hmagic, if_pos hnoflash]
  · rw [storeBlock, if_neg hmagic, if_neg hnoflash, if_pos htags]

/-- What is left of `storeBlock` for a block that is meant for the flash memory and in range. -/
theorem storeBlock_aim {w : World c}
    (hmagic : ¬ UF2Block.magicEnd w.block ≠ UF2Block.UF2_MAGIC_END)
    (hnoflash : ¬ UF2Block.flags w.block &&& UF2Block.UF2_FLAG_NOFLASH ≠ 0)
    (htags : ¬ UF2Block.flags w.block &&& UF2Block.UF2_FLAG_EXTENSION_TAGS ≠ 0)
    (hrange : ¬ sub32 (UF2Block.targetAddr w.block) XIP_BASE ≥ c.maxBinarySize) :
    w.storeBlock access =
      if dest c w.block % 256 ≠ 0 then ([], some (false, w.aim))
      else if UF2Block.payloadSize w.block % 256 ≠ 0 then ([], some (false, w.aim))
      else if (w.helper.address + 32) % 2 ^ 32 % 32 ≠ 0 then ([], some (false, w.aim))
      else if sub32 (dest c w.block) c.offset / FLASH_SECTOR_SIZE ≥ c.numRegions then
        ([], some (false, w.aim))
      else w.aim.storePayload access := by
  have haim (x : ℕ) : ((w.set fun h => { h with buffer := setTargetAddr h.buffer x }).set
      fun h => { h with buffer := setTargetAddr h.buffer (dest c w.block) }) = w.aim := by
    simp only [set, aim, setTargetAddr_setTargetAddr]
  have hsize : UF2Block.payloadSize w.aim.block = UF2Block.payloadSize w.block :=
    payloadSize_setTargetAddr _ _
  have hregion : w.aim.region = sub32 (dest c w.block) c.offset / FLASH_SECTOR_SIZE := by
    rw [region, aim_targetAddr]
  rw [storeBlock, if_neg hmagic, if_neg hnoflash, if_neg htags]
  dsimp only
  rw [if_neg hrange, ← dest, haim, hsize, hregion]
  rfl

/-- A refused block leaves the bitmap, the position and the memory as they are. -/
theorem storeBlock_refuse {w : World c} (h : verdict c w.block = .refuse) :
    ∃ b, ∀ access, w.storeBlock access =
      ([], some (false, w.set fun h => { h with buffer := b })) := by
  rw [verdict] at h
  split_ifs at h with hmagic hnoflash htags hrange halign hsize hregion
  · exact ⟨w.helper.buffer, fun _ => by rw [storeBlock, if_pos hmagic]; rfl⟩
  · refine ⟨setTargetAddr w.helper.buffer (sub32 (UF2Block.targetAddr w.block) XIP_BASE),
      fun access => ?_⟩
    rw [storeBlock, if_neg hmagic, if_neg hnoflash, if_neg htags]
    exact if_pos hrange
  · refine ⟨setTargetAddr w.helper.buffer (dest c w.block), fun access => ?_⟩
    rw [storeBlock_aim hmagic hnoflash htags hrange, if_pos halign]
    rfl
  · refine ⟨setTargetAddr w.helper.buffer (dest c w.block), fun access => ?_⟩
    rw [storeBlock_aim hmagic hnoflash htags hrange, if_neg halign, if_pos hsize]
    rfl
  · refine ⟨setTargetAddr w.helper.buffer (dest c w.block), fun access => ?_⟩
    rw [storeBlock_aim hmagic hnoflash htags hrange, if_neg halign, if_neg hsize, if_pos hregion,
      ite_self]
    rfl

theorem storeBlock_flash {w : World c} (h : verdict c w.block = .flash) :
    w.storeBlock access =
      if (w.helper.address + 32) % 2 ^ 32 % 32 ≠ 0 then ([], some (false, w.aim))
      else w.aim.storePayload access := by
  rw [verdict] at h
  split_ifs at h with hmagic hnoflash htags hrange halign hsize hregion
  rw [storeBlock_aim hmagic hnoflash htags hrange, if_neg halign, if_neg hsize, if_neg hregion]

/-- What no block changes: where `m_buffer` lies, and the position in it. -/
structure Kept (w w' : World c) : Prop where
  address : w'.helper.address = w.helper.address
  index : w'.helper.index = w.helper.index

/-- What `writeToFlash` changes. -/
theorem writeToFlash_some {w w' : World c} (h : w.writeToFlash.2 = some w') :
    ∃ map flash, w' = { w.set fun h => { h with regionErased := map } with flash := flash } := by
  rw [writeToFlash] at h
  cases htest : Bitmap.test w.helper.regionErased w.region with
  | none =>
      rw [htest] at h
      cases h
  | some erased =>
      cases hset : Bitmap.set w.helper.regionErased w.region with
      | none =>
          rw [htest, hset] at h
          cases h
      | some map =>
          rw [htest, hset] at h
          dsimp only at h
          split at h
          · obtain rfl := Option.some.inj h
            cases erased with
            | true => exact ⟨w.helper.regionErased, _, rfl⟩
            | false => exact ⟨map, _, rfl⟩
          · cases h

theorem writeToFlash_kept {w w' : World c} (h : w.writeToFlash.2 = some w') : Kept w w' := by
  obtain ⟨map, flash, rfl⟩ := writeToFlash_some h
  exact ⟨rfl, rfl⟩

theorem writeToFlash_block {w w' : World c} (h : w.writeToFlash.2 = some w') :
    w'.block = w.block := by
  obtain ⟨map, flash, rfl⟩ := writeToFlash_some h
  rfl

theorem storePayload_kept {w w' : World c} {go : Bool}
    (h : (w.storePayload access).2 = some (go, w')) : Kept w w' := by
  have hkept (w'' : World c)
      (hw : ({ w with accesses := w.accesses + 1 } : World c).writeToFlash.2 = some w'') :
      Kept w w'' :=
    ⟨(writeToFlash_kept hw).address, (writeToFlash_kept hw).index⟩
  rw [storePayload] at h
  cases haccess : access w.accesses with
  | refused =>
      rw [haccess] at h
      obtain ⟨-, rfl⟩ := Prod.mk.inj (Option.some.inj h)
      exact ⟨rfl, rfl⟩
  | late =>
      rw [haccess] at h
      obtain ⟨w₁, hw₁, heq⟩ := Option.map_eq_some_iff.1 h
      obtain ⟨-, rfl⟩ := Prod.mk.inj heq
      exact hkept w₁ hw₁
  | ok =>
      rw [haccess] at h
      obtain ⟨w₁, hw₁, h⟩ := Option.bind_eq_some_iff.1 h
      obtain ⟨data, -, heq⟩ := Option.bind_eq_some_iff.1 h
      obtain ⟨-, rfl⟩ := Prod.mk.inj (Option.some.inj heq)
      exact hkept w₁ hw₁

theorem storeBlock_kept {w w' : World c} {go : Bool}
    (h : (w.storeBlock access).2 = some (go, w')) : Kept w w' := by
  cases hverdict : verdict c w.block with
  | skip =>
      rw [storeBlock_skip hverdict] at h
      obtain ⟨-, rfl⟩ := Prod.mk.inj (Option.some.inj h)
      exact ⟨rfl, rfl⟩
  | refuse =>
      obtain ⟨b, hb⟩ := storeBlock_refuse hverdict
      rw [hb] at h
      obtain ⟨-, rfl⟩ := Prod.mk.inj (Option.some.inj h)
      exact ⟨rfl, rfl⟩
  | flash =>
      rw [storeBlock_flash hverdict] at h
      split at h
      · obtain ⟨-, rfl⟩ := Prod.mk.inj (Option.some.inj h)
        exact ⟨rfl, rfl⟩
      · have hkept := storePayload_kept h
        exact ⟨hkept.address, hkept.index⟩

/-! ### `storeData` -/

/-- What the loop makes of a full block. -/
def continued (ys : List UInt8) : List FlashOp × Option (Bool × World c) →
    List FlashOp × ((World c × List UInt8) ⊕ Option (Bool × World c))
  | (ops, none) => (ops, .inr none)
  | (ops, some (false, w)) => (ops, .inr (some (false, w)))
  | (ops, some (true, w)) => (ops, .inl (w, ys))

theorem continued_fst (ys : List UInt8) (r : List FlashOp × Option (Bool × World c)) :
    (continued ys r).1 = r.1 := by
  obtain ⟨ops, _ | ⟨_ | _, w⟩⟩ := r <;> rfl

theorem available_eq {w : World c} (hindex : w.helper.index < BLOCK_SIZE) :
    sub32 BLOCK_SIZE w.helper.index = BLOCK_SIZE - w.helper.index := by
  rw [BLOCK_SIZE] at hindex ⊢
  rw [sub32]
  omega

/-- A turn that does not fill the buffer. -/
theorem storeTurn_part {w : World c} {data : List UInt8} {b : Buffer BLOCK_SIZE}
    (hdata : data ≠ []) (hroom : w.helper.index + data.length < BLOCK_SIZE)
    (hb : w.helper.buffer.memcpy w.helper.index data = some b) :
    storeTurn access (w, data) = ([], .inl (w.set fun h =>
      { h with buffer := b, index := w.helper.index + data.length }, [])) := by
  have hpos : 0 < data.length := List.length_pos_iff.2 hdata
  have hindex : (w.helper.index + data.length) % 2 ^ 32 = w.helper.index + data.length := by
    rw [BLOCK_SIZE] at hroom
    omega
  rw [storeTurn, if_pos hpos, available_eq (by omega)]
  dsimp only
  rw [if_pos (by omega), List.take_length, hb, List.drop_length]
  dsimp only
  rw [hindex, if_neg (by omega), if_neg (by omega)]

/-- A turn that takes `count` bytes and fills the buffer with them. -/
theorem storeTurn_count (access : ℕ → Access) {w : World c} {data : List UInt8} {count : ℕ}
    {b : Buffer BLOCK_SIZE} (hdata : 0 < data.length)
    (hcount : (if data.length < sub32 BLOCK_SIZE w.helper.index then data.length
      else sub32 BLOCK_SIZE w.helper.index) = count)
    (hb : w.helper.buffer.memcpy w.helper.index (data.take count) = some b)
    (hfull : (w.helper.index + count) % 2 ^ 32 = BLOCK_SIZE) :
    storeTurn access (w, data) = continued (data.drop count)
      ((w.set fun h => { h with buffer := b, index := 0 }).storeBlock access) := by
  rw [storeTurn, if_pos hdata]
  dsimp only
  rw [hcount, hb]
  dsimp only
  rw [if_pos hfull]
  obtain ⟨ops, _ | ⟨_ | _, w'⟩⟩ :=
    (w.set fun h => { h with buffer := b, index := 0 }).storeBlock access <;> rfl

/-- A turn that fills the buffer. -/
theorem storeTurn_full (access : ℕ → Access) {w : World c} {xs : List UInt8}
    (ys : List UInt8) {b : Buffer BLOCK_SIZE}
    (hindex : w.helper.index < BLOCK_SIZE) (hfull : w.helper.index + xs.length = BLOCK_SIZE)
    (hb : w.helper.buffer.memcpy w.helper.index xs = some b) :
    storeTurn access (w, xs ++ ys) =
      continued ys ((w.set fun h => { h with buffer := b, index := 0 }).storeBlock access) := by
  have hlen : (xs ++ ys).length = xs.length + ys.length := List.length_append
  have hmod : (w.helper.index + xs.length) % 2 ^ 32 = BLOCK_SIZE := by
    rw [hfull]
    rfl
  have hcount : (if (xs ++ ys).length < sub32 BLOCK_SIZE w.helper.index then (xs ++ ys).length
      else sub32 BLOCK_SIZE w.helper.index) = xs.length := by
    rw [available_eq hindex]
    split <;> omega
  rw [storeTurn_count access (by omega) hcount (by rw [List.take_left]; exact hb) hmod,
    List.drop_left]

theorem run_storeTurn (n : ℕ) : ∀ (w : World c) (data : List UInt8),
    w.helper.index < BLOCK_SIZE → data.length < n →
      While.run (storeTurn access) n (w, data) =
        some (returned (Chunk.ofStep (storeByte access) w data)) := by
  induction n with
  | zero =>
      intro w data _ hn
      omega
  | succ n ih =>
      intro w data hindex hn
      rcases eq_or_ne data [] with rfl | hdata
      · exact While.run_leave rfl n
      have hpos : 0 < data.length := List.length_pos_iff.2 hdata
      rcases Nat.lt_or_ge (w.helper.index + data.length) BLOCK_SIZE with hpart | hfull
      · obtain ⟨b, hb⟩ := exists_memcpy w data (Nat.le_of_lt hpart)
        have hnil : ([] : List UInt8).length < n := by
          rw [List.length_nil]
          omega
        rw [While.run_turn (storeTurn_part hdata hpart hb), ih _ _ hpart hnil,
          store_part access hpart hb]
        rfl
      · obtain ⟨xs, ys, rfl, hxs⟩ : ∃ xs ys, data = xs ++ ys ∧
            w.helper.index + xs.length = BLOCK_SIZE := by
          refine ⟨_, _, (List.take_append_drop (BLOCK_SIZE - w.helper.index) data).symm, ?_⟩
          rw [List.length_take]
          omega
        obtain ⟨b, hb⟩ := exists_memcpy w xs (Nat.le_of_eq hxs)
        have hturn := storeTurn_full access ys hindex hxs hb
        have hstep := store_full access hindex hxs hb
        rw [List.length_append] at hn
        rcases hr : (w.set fun h => { h with buffer := b, index := 0 }).storeBlock access
          with ⟨ops, _ | ⟨_ | _, w'⟩⟩
        · rw [hr] at hturn hstep
          rw [While.run_leave hturn, Chunk.ofStep_append_stop hstep]
          rfl
        · rw [hr] at hturn hstep
          rw [While.run_leave hturn, Chunk.ofStep_append_stop hstep]
          rfl
        · rw [hr] at hturn hstep
          have hkept := storeBlock_kept (congrArg Prod.snd hr)
          have hindex' : w'.helper.index < BLOCK_SIZE := by
            rw [hkept.index]
            exact Nat.lt_of_le_of_lt (Nat.zero_le _) hindex
          rw [While.run_turn hturn, ih w' ys hindex' (by omega), Chunk.ofStep_append_go hstep,
            returned_append]
          rfl

/-- **`storeData` takes its data byte by byte.** -/
theorem storeData_eq {w : World c} (hindex : w.helper.index < BLOCK_SIZE) (data : List UInt8) :
    w.storeData access data = returned (Chunk.ofStep (storeByte access) w data) := by
  rw [storeData, run_storeTurn _ w data hindex (Nat.lt_succ_self _)]
  rfl

/-! ### Chunks -/

/-- Storing chunks one after the other, up to the first `false`; `none` as soon as an access is
outside an array. -/
def storeChunks (access : ℕ → Access) : World c → List (List UInt8) → Option (Bool × World c)
  | w, [] => some (true, w)
  | w, chunk :: chunks =>
    match (w.storeData access chunk).2 with
    | some (true, w') => storeChunks access w' chunks
    | out => out

theorem storeByte_index {w w' : World c} {x : UInt8} {ops : List FlashOp}
    (hindex : w.helper.index < BLOCK_SIZE) (h : storeByte access w x = (ops, .inl w')) :
    w'.helper.index < BLOCK_SIZE := by
  obtain ⟨b, hb⟩ := exists_memcpy w [x] hindex
  rcases eq_or_ne (w.helper.index + 1) BLOCK_SIZE with hfull | hpart
  · rw [storeByte_full access hb hfull] at h
    have hgo := (outcome_true _ w').1 (congrArg Prod.snd h)
    rw [(storeBlock_kept hgo).index]
    exact Nat.lt_of_le_of_lt (Nat.zero_le _) hindex
  · rw [storeByte_part access hb hpart] at h
    cases h
    exact Nat.lt_of_le_of_ne hindex hpart

theorem bytes_index (data : List UInt8) : ∀ {w w' : World c} {ops : List FlashOp},
    w.helper.index < BLOCK_SIZE → Chunk.ofStep (storeByte access) w data = (ops, .inl w') →
      w'.helper.index < BLOCK_SIZE := by
  induction data with
  | nil =>
      intro w w' ops hindex h
      cases h
      exact hindex
  | cons x data ih =>
      intro w w' ops hindex h
      rcases hx : storeByte access w x with ⟨ops', w₁ | out⟩
      · rw [Chunk.ofStep_cons_go hx] at h
        exact ih (storeByte_index hindex hx) (Prod.ext rfl (Prod.mk.inj h).2)
      · rw [Chunk.ofStep_cons_stop hx] at h
        cases h

/-- The calls feed the bytes of the chunks. -/
theorem storeChunks_feed (chunks : List (List UInt8)) : ∀ {w : World c},
    w.helper.index < BLOCK_SIZE → w.storeChunks access chunks =
      (returned (Chunk.feed (Chunk.ofStep (storeByte access)) w chunks)).2 := by
  induction chunks with
  | nil => exact fun _ => rfl
  | cons chunk chunks ih =>
      intro w hindex
      rw [storeChunks, storeData_eq hindex]
      rcases hchunk : Chunk.ofStep (storeByte access) w chunk with ⟨ops, w₁ | out⟩
      · rw [Chunk.feed_cons_go hchunk, returned_append]
        exact ih (bytes_index chunk hindex hchunk)
      · rw [Chunk.feed_cons_stop hchunk]
        cases out <;> rfl

/-- **The cuts between the calls do not matter.** -/
theorem storeChunks_eq (chunks : List (List UInt8)) {w : World c}
    (hindex : w.helper.index < BLOCK_SIZE) : w.storeChunks access chunks =
      (returned (Chunk.ofStep (storeByte access) w chunks.flatten)).2 := by
  rw [storeChunks_feed chunks hindex, Chunk.feed_ofStep]

/-! ### Whole blocks -/

/-- Taking a whole block, when the buffer is empty. -/
def takeBlock (access : ℕ → Access) (w : World c) (block : Buffer BLOCK_SIZE) :
    List FlashOp × (World c ⊕ Option (World c)) :=
  outcome ((w.set fun h => { h with buffer := block }).storeBlock access)

theorem takeBlock_index {w w' : World c} {block : Buffer BLOCK_SIZE} {ops : List FlashOp}
    (h : takeBlock access w block = (ops, .inl w')) : w'.helper.index = w.helper.index := by
  rw [takeBlock] at h
  exact (storeBlock_kept ((outcome_true _ w').1 (congrArg Prod.snd h))).index

/-- An empty buffer is filled by a whole block. -/
theorem memcpy_block {w : World c} (hindex : w.helper.index = 0) (block : Buffer BLOCK_SIZE) :
    w.helper.index < BLOCK_SIZE ∧ w.helper.index + block.bytes.length = BLOCK_SIZE ∧
      w.helper.buffer.memcpy w.helper.index block.bytes = some block := by
  rw [hindex, block.length_bytes]
  exact ⟨by decide, Nat.zero_add _, Buffer.memcpy_all _ block.length_bytes⟩

theorem ofStep_block (access : ℕ → Access) {w : World c} (hindex : w.helper.index = 0)
    (block : Buffer BLOCK_SIZE) :
    Chunk.ofStep (storeByte access) w block.bytes = takeBlock access w block := by
  obtain ⟨hlt, hfull, hb⟩ := memcpy_block hindex block
  rw [store_full access hlt hfull hb, takeBlock, set, set, ← hindex]

/-- **A list of blocks is taken block by block.** -/
theorem ofStep_blocks (blocks : List (Buffer BLOCK_SIZE)) : ∀ {w : World c}, w.helper.index = 0 →
    Chunk.ofStep (storeByte access) w (blocks.flatMap Buffer.bytes) =
      Chunk.ofStep (takeBlock access) w blocks := by
  induction blocks with
  | nil => exact fun _ => rfl
  | cons block blocks ih =>
      intro w hindex
      have hblock := ofStep_block access hindex block
      rw [List.flatMap_cons]
      rcases hr : takeBlock access w block with ⟨ops, w' | out⟩
      · rw [hr] at hblock
        have hindex' : w'.helper.index = 0 := (takeBlock_index hr).trans hindex
        rw [Chunk.ofStep_append_go hblock, Chunk.ofStep_cons_go hr, ih hindex']
      · rw [hr] at hblock
        rw [Chunk.ofStep_append_stop hblock, Chunk.ofStep_cons_stop hr]

end World

end Ota
