/-
**Which blocks are flashed.**

A UF2 block begins with two magic numbers and ends with a third.  `storeData` looks at the one at
the end only: a block that begins with anything else, but ends with the right number and passes the
other checks, is written to the flash memory, or passed over if its flags say so.

Main definitions:

* `Ota.Genuine` — a block with its three magic numbers that is meant for the flash memory;
* `Ota.programs`, `Ota.programOf` — what is programmed, and what a block has programmed;
* `Ota.OnlyGenuine` — the calls for a stream program genuine blocks only, and return `false` for a
  block with a wrong magic number;
* `Ota.StartsRight` — no block that is taken begins with wrong numbers.

Main results:

* `Ota.World.takeBlock_skip`, `Ota.World.takeBlock_rejected`, `Ota.World.takeBlock_flash`,
  `Ota.World.takeBlock_overruns` — what is programmed for a block;
* `Ota.World.storeData_completed` — a call takes the blocks that it completes;
* `Ota.onlyGenuine_iff` — **only genuine blocks are flashed, if and only if no block that is taken
  begins with wrong numbers**;
* `Ota.flashes_any_start` — a block of another format that is flashed.
-/

import PicoHttps.Ota.Reception

set_option relaxedAutoImplicit false
set_option autoImplicit false

namespace Ota

variable {c : Setup} {access : ℕ → Access}

/-! ### The property -/

namespace UF2Block

/-- The block begins with the two magic numbers. -/
def StartMagics (block : List UInt8) : Prop :=
  magicStart0 block = UF2_MAGIC_START0 ∧ magicStart1 block = UF2_MAGIC_START1

/-- The block carries the three magic numbers. -/
def Magics (block : List UInt8) : Prop := StartMagics block ∧ magicEnd block = UF2_MAGIC_END

instance (block : List UInt8) : Decidable (Magics block) :=
  inferInstanceAs (Decidable ((_ ∧ _) ∧ _))

end UF2Block

/-- **A genuine block** carries the three magic numbers, and its flags do not keep it from the flash
memory. -/
structure Genuine (block : List UInt8) : Prop where
  magics : UF2Block.Magics block
  noflash : UF2Block.flags block &&& UF2Block.UF2_FLAG_NOFLASH = 0
  tags : UF2Block.flags block &&& UF2Block.UF2_FLAG_EXTENSION_TAGS = 0

/-- Bytes are programmed. -/
def FlashOp.isProgram : FlashOp → Bool
  | .erase _ _ => false
  | .program _ _ => true

/-- What is programmed. -/
def programs (ops : List FlashOp) : List FlashOp := ops.filter FlashOp.isProgram

/-- What a block has programmed: its payload, where it is staged. -/
def programOf (c : Setup) (block : List UInt8) : Option FlashOp :=
  (UF2Block.payload block).map (.program (dest c block))

/-- The blocks that a call completes, when the bytes `before` have been stored. -/
def completed (before data : List UInt8) : List (List UInt8) :=
  (blocksOf [] (before ++ data)).drop (blocksOf [] before).length

/-- **Only genuine blocks are flashed**: each call programs what some genuine blocks among those it
completes have programmed, in order and each once; and it returns `false` if one of those it
completes has a wrong magic number. -/
structure OnlyGenuine (access : ℕ → Access) (w : World c) (chunks : List (List UInt8)) : Prop where
  flashed : ∀ before chunk after w₁, chunks = before ++ chunk :: after →
    w.storeChunks access before = some (true, w₁) →
      ∃ blocks : List (List UInt8), blocks.Sublist (completed before.flatten chunk) ∧
        (∀ b ∈ blocks, Genuine b) ∧
        (programs (w₁.storeData access chunk).1).map some = blocks.map (programOf c)
  rejects : ∀ before chunk after w₁, chunks = before ++ chunk :: after →
    w.storeChunks access before = some (true, w₁) →
      (∃ b ∈ completed before.flatten chunk, ¬ UF2Block.Magics b) →
        ∃ w₂, (w₁.storeData access chunk).2 = some (false, w₂)

theorem programs_append (ops ops' : List FlashOp) :
    programs (ops ++ ops') = programs ops ++ programs ops' := List.filter_append ..

/-- What has been programmed is what some genuine blocks among these have programmed. -/
def Programmed (c : Setup) (blocks : List (List UInt8)) (ops : List FlashOp) : Prop :=
  ∃ genuine : List (List UInt8), genuine.Sublist blocks ∧ (∀ b ∈ genuine, Genuine b) ∧
    (programs ops).map some = genuine.map (programOf c)

theorem Programmed.nothing (blocks : List (List UInt8)) {ops : List FlashOp}
    (h : programs ops = []) : Programmed c blocks ops :=
  ⟨[], List.nil_sublist _, fun _ hb => absurd hb List.not_mem_nil, by rw [h]; rfl⟩

/-- A block is passed over. -/
theorem Programmed.skip {blocks : List (List UInt8)} {ops : List FlashOp}
    (h : Programmed c blocks ops) (b : List UInt8) : Programmed c (b :: blocks) ops := by
  obtain ⟨genuine, hsub, hall, hprograms⟩ := h
  exact ⟨genuine, hsub.cons b, hall, hprograms⟩

/-- A genuine block is programmed. -/
theorem Programmed.flash {blocks : List (List UInt8)} {ops ops' : List FlashOp} {op : FlashOp}
    {b : List UInt8} (h : Programmed c blocks ops') (hgenuine : Genuine b)
    (hop : programOf c b = some op) (hops : programs ops = [op]) :
    Programmed c (b :: blocks) (ops ++ ops') := by
  obtain ⟨genuine, hsub, hall, hprograms⟩ := h
  refine ⟨b :: genuine, hsub.cons_cons b, ?_, ?_⟩
  · intro b' hb'
    rcases List.mem_cons.1 hb' with rfl | hb'
    · exact hgenuine
    · exact hall b' hb'
  · rw [programs_append, hops, List.map_append, hprograms]
    exact congrArg (· :: genuine.map (programOf c)) hop.symm

/-! ### The condition -/

/-- The block is rejected before anything is written, by one of the checks that are made, or by
`flash_safe_execute`. -/
def Rejected (access : ℕ → Access) (w : World c) (block : List UInt8) : Prop :=
  verdict c block = .refuse ∨ verdict c block = .flash ∧
    ((w.helper.address + 32) % 2 ^ 32 % 32 ≠ 0 ∨ access w.accesses = .refused)

/-- The payload lies in the block, and the sector has a bit in the bitmap. -/
def Contained (c : Setup) (block : List UInt8) : Prop :=
  UF2Block.payloadSize block ≤ 476 ∧
    sub32 (dest c block) c.offset / FLASH_SECTOR_SIZE / 8 < c.numRegions / 8

/-- Writing the block leaves the arrays. -/
def Overruns (access : ℕ → Access) (w : World c) (block : List UInt8) : Prop :=
  verdict c block = .flash ∧ ¬ Rejected access w block ∧ ¬ Contained c block

/-- **The condition**: every block of the stream that the helper comes to begins with the two magic
numbers or is rejected for another reason; and no block after one whose payload leaves the block has
a wrong magic number. -/
def StartsRight (access : ℕ → Access) (w : World c) (stream : List UInt8) : Prop :=
  ∀ before b after w₀, blocksOf [] stream = before ++ b :: after →
    w.storeChunks access before = some (true, w₀) →
      (UF2Block.StartMagics b ∨ Rejected access w₀ b) ∧
        (Overruns access w₀ b → ∀ b' ∈ after, UF2Block.Magics b')

/-! ### One block -/

theorem magicEnd_of_verdict {block : List UInt8} (h : verdict c block ≠ .refuse) :
    UF2Block.magicEnd block = UF2Block.UF2_MAGIC_END := by
  refine not_not.1 fun hmagic => h ?_
  rw [verdict, if_pos hmagic]

/-- A block that passes the checks carries the magic number at its end, and flags that do not keep
it from the flash memory. -/
theorem genuine_of_flash {block : List UInt8} (h : verdict c block = .flash)
    (hstart : UF2Block.StartMagics block) : Genuine block := by
  refine ⟨⟨hstart, magicEnd_of_verdict (c := c) (by rw [h]; exact Verdict.noConfusion)⟩, ?_, ?_⟩
  · rw [verdict] at h
    split_ifs at h with hmagic hnoflash htags
    exact not_not.1 hnoflash
  · rw [verdict] at h
    split_ifs at h with hmagic hnoflash htags
    exact not_not.1 htags

namespace World

variable {w w' : World c} {block : Buffer BLOCK_SIZE}

/-- The world in which a block has been received. -/
theorem takeBlock_eq (access : ℕ → Access) (w : World c) (block : Buffer BLOCK_SIZE) :
    ∃ w₁ : World c, w₁.block = block.bytes ∧ w₁.helper.address = w.helper.address ∧
      w₁.accesses = w.accesses ∧ takeBlock access w block = outcome (w₁.storeBlock access) :=
  ⟨w.set fun h => { h with buffer := block }, rfl, rfl, rfl, rfl⟩

/-- A block that is passed over. -/
theorem takeBlock_skip (access : ℕ → Access) (w : World c) (h : verdict c block.bytes = .skip) :
    ∃ w', takeBlock access w block = ([], .inl w') := by
  obtain ⟨w₁, hblock, -, -, htake⟩ := takeBlock_eq access w block
  rw [htake, storeBlock_skip (by rw [hblock]; exact h)]
  exact ⟨w₁, rfl⟩

/-- **A block that is rejected** has nothing programmed, and `false` is returned. -/
theorem takeBlock_rejected (h : Rejected access w block.bytes) :
    ∃ w', takeBlock access w block = ([], .inr (some w')) := by
  obtain ⟨w₁, hblock, haddress, haccesses, htake⟩ := takeBlock_eq access w block
  rw [htake]
  rcases h with hrefuse | ⟨hflash, hwhy⟩
  · obtain ⟨b, hb⟩ := storeBlock_refuse (by rw [hblock]; exact hrefuse)
    rw [hb]
    exact ⟨_, rfl⟩
  · rw [storeBlock_flash (by rw [hblock]; exact hflash), haddress]
    split
    · exact ⟨_, rfl⟩
    · rename_i haligned
      have hrefused : access w₁.aim.accesses = .refused := by
        rcases hwhy with hmisaligned | hrefused
        · exact absurd hmisaligned haligned
        · exact haccesses.symm ▸ hrefused
      rw [storePayload, hrefused]
      exact ⟨_, rfl⟩

/-- `writeToFlash` does not return for a sector without a bit, or a payload that leaves the block;
then nothing is programmed. -/
theorem writeToFlash_none (h : ¬ (w.region / 8 < c.numRegions / 8 ∧
      (UF2Block.payload w.block).isSome)) :
    w.writeToFlash.2 = none ∧ programs w.writeToFlash.1 = [] := by
  rw [writeToFlash]
  by_cases hregion : w.region / 8 < c.numRegions / 8
  · obtain ⟨erased, htest, -⟩ := Bitmap.test_eq (b := w.helper.regionErased) hregion
    obtain ⟨map, hset, -⟩ := Bitmap.set_eq (b := w.helper.regionErased) hregion
    have hnone : UF2Block.payload w.block = none := by
      refine Option.eq_none_iff_forall_not_mem.2 fun data hdata => h ⟨hregion, ?_⟩
      rw [Option.mem_def.1 hdata]
      rfl
    rw [htest, hset]
    cases erased with
    | true =>
        dsimp only
        rw [if_pos rfl, if_pos rfl, hnone]
        exact ⟨rfl, rfl⟩
    | false =>
        dsimp only
        rw [if_neg Bool.false_ne_true, if_neg Bool.false_ne_true]
        split
        · rename_i data hdata
          cases hdata.symm.trans hnone
        · exact ⟨rfl, rfl⟩
  · rw [Bitmap.test_eq_none (Nat.le_of_not_lt hregion)]
    exact ⟨rfl, rfl⟩

/-- The end of `storeData` for a full block, when `flash_safe_execute` runs `writeToFlash`. -/
theorem storePayload_run (hrun : access w.accesses ≠ .refused) :
    ∃ w₁ : World c, w₁.block = w.block ∧ (w.storePayload access).1 = w₁.writeToFlash.1 ∧
      ((w.storePayload access).2 = none ↔ w₁.writeToFlash.2 = none) := by
  refine ⟨{ w with accesses := w.accesses + 1 }, rfl, ?_⟩
  rw [storePayload]
  cases haccess : access w.accesses with
  | refused => exact absurd haccess hrun
  | late => exact ⟨rfl, Option.map_eq_none_iff⟩
  | ok =>
      refine ⟨rfl, fun hnone => ?_, fun hnone => by rw [hnone]; rfl⟩
      refine Option.eq_none_iff_forall_not_mem.2 fun w₂ hw₂ => ?_
      have hsome : (UF2Block.payload w₂.block).isSome := by
        rw [writeToFlash_block (Option.mem_def.1 hw₂)]
        by_contra hpayload
        exact Option.some_ne_none w₂ ((Option.mem_def.1 hw₂).symm.trans
          (writeToFlash_none fun h => hpayload h.2).1)
      obtain ⟨data, hdata⟩ := Option.isSome_iff_exists.1 hsome
      rw [Option.mem_def.1 hw₂, Option.bind_some, hdata] at hnone
      cases hnone

/-- A block that passes the checks and is not rejected is handed to `writeToFlash`. -/
theorem takeBlock_write (hflash : verdict c block.bytes = .flash)
    (hgoes : ¬ Rejected access w block.bytes) :
    ∃ w₁ : World c, UF2Block.targetAddr w₁.block = dest c block.bytes ∧
      UF2Block.payload w₁.block = UF2Block.payload block.bytes ∧
      (takeBlock access w block).1 = w₁.writeToFlash.1 ∧
      ((takeBlock access w block).2 = .inr none ↔ w₁.writeToFlash.2 = none) := by
  obtain ⟨w₁, hblock, haddress, haccesses, htake⟩ := takeBlock_eq access w block
  have haligned : ¬ (w₁.helper.address + 32) % 2 ^ 32 % 32 ≠ 0 := fun hne =>
    hgoes (.inr ⟨hflash, .inl (haddress ▸ hne)⟩)
  have hrun : access w₁.aim.accesses ≠ .refused := fun hrefused =>
    hgoes (.inr ⟨hflash, .inr (haccesses ▸ hrefused)⟩)
  obtain ⟨w₂, hsame, hops, hreturns⟩ := storePayload_run hrun
  rw [htake, storeBlock_flash (by rw [hblock]; exact hflash), if_neg haligned, outcome_fst,
    outcome_none]
  refine ⟨w₂, ?_, ?_, hops, hreturns⟩
  · rw [hsame, aim_targetAddr, hblock]
  · rw [hsame, aim_payload, hblock]

theorem payload_isSome_iff : (UF2Block.payload block.bytes).isSome ↔
    UF2Block.payloadSize block.bytes ≤ 476 := by
  have hlen : (UF2Block.data block.bytes).length = 476 := by
    rw [UF2Block.data, List.length_take, List.length_drop, block.length_bytes]
    rfl
  rw [UF2Block.payload, hlen]
  split
  · rename_i hsize
    exact ⟨fun _ => hsize, fun _ => rfl⟩
  · rename_i hsize
    exact ⟨fun h => absurd h Bool.false_ne_true, fun h => absurd h hsize⟩

/-- **A block that is written has its payload programmed.** -/
theorem takeBlock_flash (hflash : verdict c block.bytes = .flash)
    (hgoes : ¬ Rejected access w block.bytes) (hcontained : Contained c block.bytes) :
    ∃ op, programOf c block.bytes = some op ∧ programs (takeBlock access w block).1 = [op] ∧
      (takeBlock access w block).2 ≠ .inr none := by
  obtain ⟨w₁, htarget, hpayload, hops, hreturns⟩ := takeBlock_write hflash hgoes
  obtain ⟨data, hdata⟩ := Option.isSome_iff_exists.1 (payload_isSome_iff.2 hcontained.1)
  have hregion : w₁.region / 8 < c.numRegions / 8 := by
    rw [region, htarget]
    exact hcontained.2
  obtain ⟨erased, w₂, -, hwrite, -⟩ := writeToFlash_spec hregion (hpayload.trans hdata)
  refine ⟨.program (dest c block.bytes) data, by rw [programOf, hdata]; rfl, ?_, fun hnone => ?_⟩
  · rw [hops, hwrite, htarget]
    cases erased <;> rfl
  · rw [hreturns, hwrite] at hnone
    cases hnone

/-- A block whose writing leaves the arrays has nothing programmed, and the call does not return. -/
theorem takeBlock_overruns (h : Overruns access w block.bytes) :
    ∃ ops, takeBlock access w block = (ops, .inr none) ∧ programs ops = [] := by
  obtain ⟨hflash, hgoes, hoverruns⟩ := h
  obtain ⟨w₁, htarget, hpayload, hops, hreturns⟩ := takeBlock_write hflash hgoes
  have hleaves : ¬ (w₁.region / 8 < c.numRegions / 8 ∧ (UF2Block.payload w₁.block).isSome) := by
    rw [hpayload, region, htarget]
    exact fun hfits => hoverruns ⟨payload_isSome_iff.1 hfits.2, hfits.1⟩
  obtain ⟨hnone, hnothing⟩ := writeToFlash_none hleaves
  exact ⟨_, Prod.ext rfl (hreturns.2 hnone), (congrArg programs hops).trans hnothing⟩

end World

/-! ### The blocks that a call completes -/

/-- More bytes complete more blocks. -/
theorem blocksOf_prefix (xs ys : List UInt8) : ∀ {pend : List UInt8},
    blocksOf pend xs <+: blocksOf pend (xs ++ ys) := by
  induction xs with
  | nil => exact List.nil_prefix
  | cons x xs ih =>
      intro pend
      rw [List.cons_append, blocksOf, blocksOf]
      split
      · exact List.cons_prefix_cons.2 ⟨rfl, ih⟩
      · exact ih

theorem blocksOf_blocks (blocks : List (Buffer BLOCK_SIZE)) {tail : List UInt8}
    (htail : tail.length < BLOCK_SIZE) :
    blocksOf [] (blocks.flatMap Buffer.bytes ++ tail) = blocks.map Buffer.bytes := by
  induction blocks with
  | nil => exact blocksOf_part tail (by rwa [List.length_nil, Nat.zero_add])
  | cons block blocks ih =>
      have hfull : ([] : List UInt8).length + block.bytes.length = BLOCK_SIZE := by
        rw [List.length_nil, Nat.zero_add, block.length_bytes]
      rw [List.flatMap_cons, List.append_assoc, blocksOf_full _ _ (by decide) hfull, ih,
        List.nil_append, List.map_cons]

/-- The blocks of some bytes, and those that more bytes complete. -/
theorem exists_completed (before data : List UInt8) :
    ∃ (done new : List (Buffer BLOCK_SIZE)) (tail tail' : List UInt8),
      tail.length < BLOCK_SIZE ∧ tail'.length < BLOCK_SIZE ∧
      before = done.flatMap Buffer.bytes ++ tail ∧
      before ++ data = (done ++ new).flatMap Buffer.bytes ++ tail' ∧
      blocksOf [] before = done.map Buffer.bytes ∧
      completed before data = new.map Buffer.bytes := by
  obtain ⟨done, tail, htail, hbefore, hdone⟩ := exists_blocksOf _ before (Nat.lt_succ_self _)
  obtain ⟨all, tail', htail', hall, hblocks⟩ :=
    exists_blocksOf _ (before ++ data) (Nat.lt_succ_self _)
  have hprefix : blocksOf [] before <+: blocksOf [] (before ++ data) := blocksOf_prefix before data
  obtain ⟨rest, hrest⟩ := hprefix
  rw [hdone, hblocks] at hrest
  obtain ⟨done', new, rfl, hdone', rfl⟩ := List.map_eq_append_iff.1 hrest.symm
  have hinj : Function.Injective (Buffer.bytes : Buffer BLOCK_SIZE → List UInt8) := by
    rintro ⟨b, hb⟩ ⟨b', hb'⟩ rfl
    rfl
  obtain rfl := List.map_injective_iff.2 hinj hdone'
  refine ⟨done', new, tail, tail', htail, htail', hbefore, hall, hdone, ?_⟩
  rw [completed, hblocks, hdone, List.map_append, List.drop_left]

namespace World

/-- Calls that have returned `true` have taken all their bytes. -/
theorem taken_of_storeChunks {w w₁ : World c} {chunks : List (List UInt8)}
    (hindex : w.helper.index < BLOCK_SIZE) (h : w.storeChunks access chunks = some (true, w₁)) :
    ∃ ops, Chunk.ofStep (storeByte access) w chunks.flatten = (ops, .inl w₁) := by
  rw [storeChunks_eq chunks hindex] at h
  rcases hr : Chunk.ofStep (storeByte access) w chunks.flatten with ⟨ops, w' | _ | w'⟩
  · rw [hr] at h
    cases h
    exact ⟨ops, rfl⟩
  · rw [hr] at h; cases h
  · rw [hr] at h; cases h

/-- **A call takes the blocks that it completes**: it does to the flash memory what they lead to,
and stops where they stop. -/
theorem storeData_completed {w w₁ : World c} {chunks : List (List UInt8)}
    (hindex : w.helper.index = 0) (h : w.storeChunks access chunks = some (true, w₁))
    (data : List UInt8) :
    ∃ (done new : List (Buffer BLOCK_SIZE)) (tail : List UInt8) (ops : List FlashOp) (w' : World c),
      tail.length < BLOCK_SIZE ∧
      chunks.flatten ++ data = (done ++ new).flatMap Buffer.bytes ++ tail ∧
      completed chunks.flatten data = new.map Buffer.bytes ∧
      Chunk.ofStep (takeBlock access) w done = (ops, .inl w') ∧
      (w₁.storeData access data).1 = (Chunk.ofStep (takeBlock access) w' new).1 ∧
      ∀ out, (Chunk.ofStep (takeBlock access) w' new).2 = .inr out →
        (w₁.storeData access data).2 = out.map (Prod.mk false) := by
  have hlt : w.helper.index < BLOCK_SIZE := by rw [hindex]; decide
  obtain ⟨ops, hbefore⟩ := taken_of_storeChunks hlt h
  obtain ⟨done, new, tail, tail', htail, htail', hflatten, hall, -, hcompleted⟩ :=
    exists_completed chunks.flatten data
  rcases ofStep_stream access done htail hindex with
    ⟨ops', w', w'', hdone, hbytes⟩ | ⟨ops', out, -, hbytes⟩
  · rw [← hflatten, hbefore] at hbytes
    obtain ⟨rfl, -⟩ := Prod.mk.inj hbytes
    refine ⟨done, new, tail', ops, w', htail', hall, hcompleted, hdone, ?_⟩
    -- both take the whole of it, and have done the same so far
    have hbytes' := Chunk.ofStep_append_go hbefore data
    have hblocks := Chunk.ofStep_append_go hdone new
    rw [storeData_eq (bytes_index _ hlt hbefore)]
    rw [hall] at hbytes'
    rcases ofStep_stream access (done ++ new) htail' hindex with
      ⟨ops', w₂, w₃, hblocks', hbytes₂⟩ | ⟨ops', out, hblocks', hbytes₂⟩
    · rw [hblocks] at hblocks'
      rw [hbytes'] at hbytes₂
      obtain ⟨hops, hout⟩ := Prod.mk.inj hblocks'
      obtain ⟨hops', hout'⟩ := Prod.mk.inj hbytes₂
      refine ⟨?_, fun out hstop => by rw [hstop] at hout; cases hout⟩
      have hsame := List.append_cancel_left (hops'.trans hops.symm)
      rw [← hsame]
      rcases hq : Chunk.ofStep (storeByte access) w₁ data with ⟨es, w₄ | out⟩
      · rfl
      · rw [hq] at hout'
        cases hout'
    · rw [hblocks] at hblocks'
      rw [hbytes'] at hbytes₂
      obtain ⟨hops, hout⟩ := Prod.mk.inj hblocks'
      obtain ⟨hops', hout'⟩ := Prod.mk.inj hbytes₂
      have hsame := List.append_cancel_left (hops'.trans hops.symm)
      rw [← hsame, hout]
      rcases hq : Chunk.ofStep (storeByte access) w₁ data with ⟨es, w₄ | out'⟩
      · rw [hq] at hout'
        cases hout'
      · rw [hq] at hout'
        cases hout'
        refine ⟨by cases out <;> rfl, fun out' hout' => ?_⟩
        cases hout'
        cases out <;> rfl
  · rw [← hflatten, hbefore] at hbytes
    cases hbytes

/-- **Blocks that keep to the condition** have genuine blocks programmed only, and end in `false` if
one of them has a wrong magic number. -/
theorem ofStep_genuine (blocks : List (Buffer BLOCK_SIZE)) : ∀ {w : World c},
    (∀ before b after ops w₀, blocks = before ++ b :: after →
      Chunk.ofStep (takeBlock access) w before = (ops, .inl w₀) →
        (UF2Block.StartMagics b.bytes ∨ Rejected access w₀ b.bytes) ∧
          (Overruns access w₀ b.bytes → ∀ b' ∈ after, UF2Block.Magics b'.bytes)) →
    Programmed c (blocks.map Buffer.bytes) (Chunk.ofStep (takeBlock access) w blocks).1 ∧
    ((∃ b ∈ blocks, ¬ UF2Block.Magics b.bytes) →
      ∃ w₂, (Chunk.ofStep (takeBlock access) w blocks).2 = .inr (some w₂)) := by
  induction blocks with
  | nil => exact fun _ => ⟨.nothing [] rfl, fun ⟨_, hb, _⟩ => absurd hb List.not_mem_nil⟩
  | cons block blocks ih =>
      intro w hcond
      obtain ⟨hstart, hoverruns⟩ := hcond [] block blocks [] w rfl rfl
      by_cases hrejected : Rejected access w block.bytes
      · obtain ⟨w', htake⟩ := takeBlock_rejected hrejected
        rw [Chunk.ofStep_cons_stop htake]
        exact ⟨.nothing _ rfl, fun _ => ⟨w', rfl⟩⟩
      have hmagics : UF2Block.Magics block.bytes := by
        refine ⟨hstart.resolve_right hrejected, magicEnd_of_verdict (c := c) fun hrefuse => ?_⟩
        exact hrejected (.inl hrefuse)
      -- a block with a wrong magic number is among those that follow
      have hlater : (∃ b ∈ block :: blocks, ¬ UF2Block.Magics b.bytes) →
          ∃ b ∈ blocks, ¬ UF2Block.Magics b.bytes := by
        rintro ⟨b, hb, hwrong⟩
        rcases List.mem_cons.1 hb with rfl | hb
        · exact absurd hmagics hwrong
        · exact ⟨b, hb, hwrong⟩
      -- the rest, from the world in which the block has been taken
      have hrest : ∀ {ops w'}, takeBlock access w block = (ops, .inl w') → _ :=
        fun {ops w'} htake => ih (w := w') fun before b after ops' w₀ hsplit hbefore =>
          hcond (block :: before) b after (ops ++ ops') w₀ (by rw [hsplit]; rfl)
            (by rw [Chunk.ofStep_cons_go htake, hbefore])
      cases hverdict : verdict c block.bytes with
      | refuse => exact absurd (.inl hverdict) hrejected
      | skip =>
          obtain ⟨w', htake⟩ := takeBlock_skip access w hverdict
          obtain ⟨hprogrammed, hrejects⟩ := hrest htake
          rw [Chunk.ofStep_cons_go htake]
          exact ⟨hprogrammed.skip _, fun hwrong => hrejects (hlater hwrong)⟩
      | flash =>
          by_cases hcontained : Contained c block.bytes
          · obtain ⟨op, hop, hops, hreturns⟩ := takeBlock_flash hverdict hrejected hcontained
            have hgenuine := genuine_of_flash hverdict hmagics.1
            rcases htake : takeBlock access w block with ⟨ops', w' | _ | w'⟩
            · rw [htake] at hops
              obtain ⟨hprogrammed, hrejects⟩ := hrest htake
              rw [Chunk.ofStep_cons_go htake]
              exact ⟨hprogrammed.flash hgenuine hop hops, fun hwrong => hrejects (hlater hwrong)⟩
            · rw [htake] at hreturns
              exact absurd rfl hreturns
            · rw [htake] at hops
              have hnone : Programmed c (blocks.map Buffer.bytes) [] := .nothing _ rfl
              have hprogrammed := hnone.flash hgenuine hop hops
              rw [Chunk.ofStep_cons_stop htake]
              rw [List.append_nil] at hprogrammed
              exact ⟨hprogrammed, fun _ => ⟨w', rfl⟩⟩
          · obtain ⟨ops, htake, hnothing⟩ := takeBlock_overruns ⟨hverdict, hrejected, hcontained⟩
            rw [Chunk.ofStep_cons_stop htake]
            refine ⟨.nothing _ hnothing, fun hwrong => ?_⟩
            obtain ⟨b, hb, hwrong⟩ := hlater hwrong
            exact absurd (hoverruns ⟨hverdict, hrejected, hcontained⟩ b hb) hwrong

end World

/-! ### The property of a stream -/

/-- A stream that keeps to the condition, in any chunks. -/
theorem onlyGenuine_of_startsRight {w : World c} (hindex : w.helper.index = 0)
    {chunks : List (List UInt8)} (h : StartsRight access w chunks.flatten) :
    OnlyGenuine access w chunks := by
  -- what a call leads to
  have hcall : ∀ before chunk after w₁, chunks = before ++ chunk :: after →
      w.storeChunks access before = some (true, w₁) →
        Programmed c (completed before.flatten chunk) (w₁.storeData access chunk).1 ∧
        ((∃ b ∈ completed before.flatten chunk, ¬ UF2Block.Magics b) →
          ∃ w₂, (w₁.storeData access chunk).2 = some (false, w₂)) := by
    rintro before chunk after w₁ rfl hbefore
    obtain ⟨done, new, tail, ops, w', htail, hall, hcompleted, hdone, hops, hstops⟩ :=
      World.storeData_completed hindex hbefore chunk
    have hindex' : w'.helper.index = 0 := (World.takeBlocks_index done hdone).trans hindex
    have hblocks : (done ++ new).map Buffer.bytes <+:
        blocksOf [] (before ++ chunk :: after).flatten := by
      rw [← blocksOf_blocks (done ++ new) htail, ← hall, List.flatten_append, List.flatten_cons,
        ← List.append_assoc]
      exact blocksOf_prefix _ _
    obtain ⟨rest, hrest⟩ := hblocks
    obtain ⟨hflashed, hrejects⟩ := World.ofStep_genuine new (w := w')
      fun before' b after' ops' w₀ hsplit hbefore' => by
        have htaken := Chunk.ofStep_append_go hdone before'
        rw [hbefore'] at htaken
        have hstored : w.storeChunks access ((done ++ before').map Buffer.bytes) =
            some (true, w₀) := by
          rw [World.storeChunks_blocks access _ hindex, htaken]
          rfl
        have hstream : blocksOf [] (before ++ chunk :: after).flatten =
            (done ++ before').map Buffer.bytes ++ b.bytes :: (after'.map Buffer.bytes ++ rest) := by
          rw [← hrest, hsplit, ← List.append_assoc, List.map_append, List.map_cons,
            List.append_assoc, List.cons_append]
        obtain ⟨hstart, hoverruns⟩ := h _ _ _ w₀ hstream hstored
        exact ⟨hstart, fun hover b' hb' =>
          hoverruns hover b'.bytes (List.mem_append_left _ (List.mem_map_of_mem hb'))⟩
    refine ⟨?_, fun hwrong => ?_⟩
    · rw [hops, hcompleted]
      exact hflashed
    · rw [hcompleted] at hwrong
      obtain ⟨b, hb, hwrong⟩ := hwrong
      obtain ⟨block, hblock, rfl⟩ := List.mem_map.1 hb
      obtain ⟨w₂, hw₂⟩ := hrejects ⟨block, hblock, hwrong⟩
      exact ⟨w₂, hstops _ hw₂⟩
  exact ⟨fun _ _ _ _ hsplit hbefore => (hcall _ _ _ _ hsplit hbefore).1,
    fun _ _ _ _ hsplit hbefore => (hcall _ _ _ _ hsplit hbefore).2⟩

/-- The blocks of a stream, each in a call of its own. -/
theorem completed_blocks (done new : List (Buffer BLOCK_SIZE)) :
    completed (done.map Buffer.bytes).flatten (new.flatMap Buffer.bytes) =
      new.map Buffer.bytes := by
  have hnil : ([] : List UInt8).length < BLOCK_SIZE := by decide
  have hdone := blocksOf_blocks done hnil
  have hall := blocksOf_blocks (done ++ new) hnil
  rw [List.append_nil] at hdone hall
  rw [List.flatMap_append] at hall
  rw [completed, ← List.flatMap_def, hdone, hall, List.map_append, List.drop_left]

/-- A block that is taken, though it begins with wrong numbers, breaks the property where it has a
call of its own. -/
theorem startsRight_block {w w₀ : World c} {done : List (Buffer BLOCK_SIZE)}
    {block : Buffer BLOCK_SIZE} {after : List (List UInt8)}
    (hdone : w.storeChunks access (done.map Buffer.bytes) = some (true, w₀))
    (hindex₀ : w₀.helper.index = 0)
    (h : OnlyGenuine access w (done.map Buffer.bytes ++ block.bytes :: after)) :
    UF2Block.StartMagics block.bytes ∨ Rejected access w₀ block.bytes := by
  by_contra hwrong
  obtain ⟨hstart, hrejected⟩ := not_or.1 hwrong
  have hcompleted : completed (done.map Buffer.bytes).flatten block.bytes = [block.bytes] := by
    have hone := completed_blocks done [block]
    rwa [List.flatMap_singleton] at hone
  have hdata : w₀.storeData access block.bytes =
      World.returned (World.takeBlock access w₀ block) := by
    rw [World.storeData_eq (by rw [hindex₀]; decide), World.ofStep_block access hindex₀]
  obtain ⟨w₂, hfalse⟩ := h.rejects _ _ _ w₀ rfl hdone
    ⟨block.bytes, by rw [hcompleted]; exact List.mem_singleton_self _, fun hm => hstart hm.1⟩
  rw [hdata] at hfalse
  cases hverdict : verdict c block.bytes with
  | refuse => exact hrejected (.inl hverdict)
  | skip =>
      obtain ⟨w', htake⟩ := World.takeBlock_skip access w₀ hverdict
      rw [htake] at hfalse
      cases hfalse
  | flash =>
      by_cases hcontained : Contained c block.bytes
      · obtain ⟨op, -, hops, -⟩ := World.takeBlock_flash hverdict hrejected hcontained
        obtain ⟨genuine, hsub, hall, hprograms⟩ := h.flashed _ _ _ w₀ rfl hdone
        have hops' : programs (w₀.storeData access block.bytes).1 = [op] := by
          rw [hdata, ← hops]
          rcases World.takeBlock access w₀ block with ⟨ops, w' | _ | w'⟩ <;> rfl
        rw [hcompleted] at hsub
        rw [hops'] at hprograms
        -- what has been programmed is the block's
        rcases genuine with _ | ⟨b, genuine⟩
        · cases hprograms
        · obtain rfl := List.mem_singleton.1 (hsub.subset List.mem_cons_self)
          exact hstart (hall _ List.mem_cons_self).magics.1
      · obtain ⟨ops, htake, -⟩ := World.takeBlock_overruns ⟨hverdict, hrejected, hcontained⟩
        rw [htake] at hfalse
        cases hfalse

/-- A stream whose chunks all keep the property. -/
theorem startsRight_of_onlyGenuine {w : World c} (hindex : w.helper.index = 0) {stream : List UInt8}
    (h : ∀ chunks : List (List UInt8), chunks.flatten = stream → OnlyGenuine access w chunks) :
    StartsRight access w stream := by
  intro before b after w₀ hsplit hstored
  obtain ⟨blocks, tail, htail, hstream, hblocks⟩ := exists_blocksOf _ stream (Nat.lt_succ_self _)
  rw [hblocks] at hsplit
  obtain ⟨done, rest', rfl, rfl, hrest'⟩ := List.map_eq_append_iff.1 hsplit
  obtain ⟨block, rest, rfl, rfl, rfl⟩ := List.map_eq_cons_iff.1 hrest'
  obtain ⟨ops, hdone⟩ : ∃ ops, Chunk.ofStep (World.takeBlock access) w done = (ops, .inl w₀) := by
    rw [World.storeChunks_blocks access done hindex] at hstored
    rcases hr : Chunk.ofStep (World.takeBlock access) w done with ⟨ops, w' | _ | w'⟩
    · rw [hr] at hstored
      cases hstored
      exact ⟨ops, rfl⟩
    · rw [hr] at hstored; cases hstored
    · rw [hr] at hstored; cases hstored
  have hindex₀ : w₀.helper.index = 0 := (World.takeBlocks_index done hdone).trans hindex
  constructor
  · refine startsRight_block hstored hindex₀ (h (_ ++ _ :: (rest.map Buffer.bytes ++ [tail])) ?_)
    rw [hstream]
    simp [List.flatMap_def, List.append_assoc]
  · -- in one call, nothing that comes after an overrun is returned
    intro hoverruns b' hb'
    by_contra hwrong
    have hmem : b' ∈ completed [] stream := by
      have hall : completed [] stream = blocksOf [] stream := rfl
      rw [hall, hblocks, hsplit]
      exact List.mem_append_right _ (List.mem_cons_of_mem _ hb')
    obtain ⟨w₂, hfalse⟩ :=
      (h [stream] List.flatten_singleton).rejects [] stream [] w rfl rfl ⟨b', hmem, hwrong⟩
    obtain ⟨ops', htake, -⟩ := World.takeBlock_overruns hoverruns
    have hall := Chunk.ofStep_append_go hdone (block :: rest)
    rw [Chunk.ofStep_cons_stop htake] at hall
    rw [World.storeData_eq (by rw [hindex]; decide)] at hfalse
    rcases World.ofStep_stream access (done ++ block :: rest) htail hindex with
      ⟨_, _, _, hblocks', -⟩ | ⟨_, _, hblocks', hbytes⟩
    · rw [hall] at hblocks'
      cases hblocks'
    · rw [hall] at hblocks'
      cases hblocks'
      rw [hstream, hbytes] at hfalse
      cases hfalse

/-- **Only genuine blocks are flashed, if and only if no block that is taken begins with wrong
numbers**, for every stream, in all chunks of it. -/
theorem onlyGenuine_iff (access : ℕ → Access) (w : World c) (hindex : w.helper.index = 0)
    (stream : List UInt8) :
    (∀ chunks : List (List UInt8), chunks.flatten = stream → OnlyGenuine access w chunks) ↔
      StartsRight access w stream := by
  constructor
  · exact fun h => startsRight_of_onlyGenuine hindex h
  · rintro h chunks rfl
    exact onlyGenuine_of_startsRight hindex h

/-- A genuine block, in two chunks. -/
theorem onlyGenuine_iff_example :
    OnlyGenuine (fun _ => .ok) (World.start Setup.default 0 fun _ => 0)
      [(sampleBlock XIP_BASE 256 7).take 100, (sampleBlock XIP_BASE 256 7).drop 100] := by
  refine (onlyGenuine_iff (fun _ => .ok) (World.start Setup.default 0 fun _ => 0) rfl
    (sampleBlock XIP_BASE 256 7)).2 ?_ _ ?_
  · have hblocks : blocksOf [] ([(⟨sampleBlock XIP_BASE 256 7, length_sampleBlock _ _ _⟩ :
        Buffer BLOCK_SIZE)].flatMap Buffer.bytes ++ []) = [sampleBlock XIP_BASE 256 7] :=
      blocksOf_blocks _ (by decide)
    rw [List.append_nil, List.flatMap_singleton] at hblocks
    intro before b after w₀ hsplit _
    rw [hblocks] at hsplit
    obtain ⟨rfl, rfl, rfl⟩ : before = [] ∧ b = sampleBlock XIP_BASE 256 7 ∧ after = [] := by
      rcases before with _ | ⟨b', before⟩
      · obtain ⟨rfl, rfl⟩ := List.cons.inj hsplit
        exact ⟨rfl, rfl, rfl⟩
      · obtain ⟨-, hnil⟩ := List.cons.inj hsplit
        exact absurd hnil.symm (List.append_ne_nil_of_right_ne_nil _ (List.cons_ne_nil _ _))
    exact ⟨.inl ⟨by decide +kernel, by decide +kernel⟩, fun _ _ hb' => absurd hb' List.not_mem_nil⟩
  · rw [List.flatten_cons, List.flatten_singleton, List.take_append_drop]

/-- **A block that begins with zeros is flashed**, if it ends with the right number. -/
theorem flashes_any_start :
    ¬ ∀ (access : ℕ → Access) (w : World Setup.default) (chunks : List (List UInt8)),
      w.helper.index = 0 → OnlyGenuine access w chunks := by
  intro hall
  have h := hall (fun _ => .ok) (World.start Setup.default 0 fun _ => 0)
    [List.replicate 8 0 ++ (sampleBlock XIP_BASE 256 7).drop 8] rfl
  obtain ⟨w₂, hfalse⟩ := h.rejects [] _ [] _ rfl rfl (by decide +kernel)
  have htrue : ((World.start Setup.default 0 fun _ => 0).storeData (fun _ => .ok)
      (List.replicate 8 0 ++ (sampleBlock XIP_BASE 256 7).drop 8)).2.map (·.1) = some true := by
    decide +kernel
  rw [hfalse] at htrue
  cases htrue

end Ota
