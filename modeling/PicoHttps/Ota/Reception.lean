/-
**The reception of a stream of blocks.**

A UF2 file comes in over the network in pieces, and `storeData` is called with each of them.  When
`flash_safe_execute` succeeds and no block announces more bytes than its data has, the pieces do
not matter: what the calls return, up to the first `false`, and what they leave depends on the
bytes alone.  A block that makes them return `false` leaves the flash memory and the bitmap as the
blocks before it have left them, unless the comparison of what has been written fails.

Main definitions:

* `Ota.ReadBackFails` — the comparison of `storeData` fails for a block.

Main results:

* `Ota.exists_blocksOf` — a stream is its blocks, and what is left over;
* `Ota.World.takeBlock_returns` — no access is outside an array;
* `Ota.World.takeBlock_rejects` — **a block that is rejected leaves everything as it is**;
* `Ota.reception_unchunked` — the property of a whole stream.
-/

import PicoHttps.Ota.Staging

set_option relaxedAutoImplicit false
set_option autoImplicit false

namespace Ota

variable {c : Setup} {access : ℕ → Access}

/-! ### The blocks of a stream -/

theorem blocksOf_part (data : List UInt8) : ∀ {pend : List UInt8},
    pend.length + data.length < BLOCK_SIZE → blocksOf pend data = [] := by
  induction data with
  | nil => exact fun _ => rfl
  | cons x data ih =>
      intro pend hlt
      rw [List.length_cons] at hlt
      rw [blocksOf, if_neg (by omega)]
      refine ih ?_
      rw [List.length_append, List.length_singleton]
      omega

theorem blocksOf_full (xs : List UInt8) (rest : List UInt8) : ∀ {pend : List UInt8},
    pend.length < BLOCK_SIZE → pend.length + xs.length = BLOCK_SIZE →
      blocksOf pend (xs ++ rest) = (pend ++ xs) :: blocksOf [] rest := by
  induction xs with
  | nil =>
      intro pend hlt hfull
      rw [List.length_nil] at hfull
      omega
  | cons x xs ih =>
      intro pend hlt hfull
      rw [List.length_cons] at hfull
      rw [List.cons_append, blocksOf]
      cases xs with
      | nil =>
          rw [List.length_nil] at hfull
          rw [if_pos (by omega), List.nil_append]
      | cons y ys =>
          rw [List.length_cons] at hfull
          have hlen : (pend ++ [x]).length = pend.length + 1 := by
            rw [List.length_append, List.length_singleton]
          rw [if_neg (by omega), ih (by omega) (by rw [hlen, List.length_cons]; omega),
            List.append_assoc, List.singleton_append]

/-- **A stream is its blocks, and less than a block.** -/
theorem exists_blocksOf (n : ℕ) : ∀ stream : List UInt8, stream.length < n →
    ∃ (blocks : List (Buffer BLOCK_SIZE)) (tail : List UInt8), tail.length < BLOCK_SIZE ∧
      stream = blocks.flatMap Buffer.bytes ++ tail ∧
      blocksOf [] stream = blocks.map Buffer.bytes := by
  induction n with
  | zero =>
      intro stream hn
      omega
  | succ n ih =>
      intro stream hn
      rcases Nat.lt_or_ge stream.length BLOCK_SIZE with hpart | hfull
      · refine ⟨[], stream, hpart, rfl, blocksOf_part stream ?_⟩
        rwa [List.length_nil, Nat.zero_add]
      · have hlen : (stream.take BLOCK_SIZE).length = BLOCK_SIZE := by
          rw [List.length_take]
          omega
        have hrest : (stream.drop BLOCK_SIZE).length < n := by
          rw [List.length_drop]
          rw [BLOCK_SIZE] at hfull ⊢
          omega
        obtain ⟨blocks, tail, htail, hstream, hblocks⟩ := ih (stream.drop BLOCK_SIZE) hrest
        refine ⟨⟨stream.take BLOCK_SIZE, hlen⟩ :: blocks, tail, htail, ?_, ?_⟩
        · rw [List.flatMap_cons, List.append_assoc, ← hstream, List.take_append_drop]
        · have hlen' : ([] : List UInt8).length + (stream.take BLOCK_SIZE).length = BLOCK_SIZE := by
            rw [hlen, List.length_nil, Nat.zero_add]
          have hsplit := blocksOf_full (stream.take BLOCK_SIZE) (stream.drop BLOCK_SIZE)
            (by decide) hlen'
          rw [List.take_append_drop, List.nil_append] at hsplit
          rw [hsplit, hblocks, List.map_cons]

/-! ### One block -/

/-- The comparison at the end of `storeData` fails for a block: it passes all the checks, and in
the world that is left its payload is not where it should be. -/
def ReadBackFails (w : World c) (block : List UInt8) : Prop :=
  verdict c block = .flash ∧ (w.helper.address + 32) % 2 ^ 32 % 32 = 0 ∧
    ∃ data, UF2Block.payload block = some data ∧ w.flash.read (dest c block) data.length ≠ data

namespace World

/-- When `flash_safe_execute` succeeds, `false` is returned only by the comparison. -/
theorem storePayload_false {w w' : World c}
    (h : (w.storePayload fun _ => .ok).2 = some (false, w')) :
    w'.helper.address = w.helper.address ∧ ∃ data, UF2Block.payload w.block = some data ∧
      w'.flash.read (UF2Block.targetAddr w.block) data.length ≠ data := by
  rw [storePayload] at h
  obtain ⟨w₁, hwrite, h⟩ := Option.bind_eq_some_iff.1 h
  obtain ⟨data, hdata, h⟩ := Option.bind_eq_some_iff.1 h
  obtain ⟨hread, rfl⟩ := Prod.mk.inj (Option.some.inj h)
  have hblock : w₁.block = w.block :=
    writeToFlash_block (w := { w with accesses := w.accesses + 1 }) hwrite
  rw [hblock] at hdata hread
  exact ⟨(writeToFlash_kept hwrite).address, data, hdata, of_decide_eq_false hread⟩

/-- **A block that is rejected leaves the memory and the bitmap as they are**, unless the
comparison has failed. -/
theorem takeBlock_rejects {w w' : World c} {block : Buffer BLOCK_SIZE} {ops : List FlashOp}
    (h : takeBlock (fun _ => .ok) w block = (ops, .inr (some w')))
    (hread : ¬ ReadBackFails w' block.bytes) :
    w'.flash = w.flash ∧ w'.helper.regionErased = w.helper.regionErased := by
  have hreturn : ((w.set fun h => { h with buffer := block }).storeBlock fun _ => .ok).2 =
      some (false, w') := (outcome_false _ w').1 (congrArg Prod.snd h)
  generalize hw₀ : (w.set fun h => { h with buffer := block }) = w₀ at hreturn
  have hblock : w₀.block = block.bytes := by rw [← hw₀]; rfl
  have hsame : w₀.flash = w.flash ∧ w₀.helper.regionErased = w.helper.regionErased := by
    rw [← hw₀]
    exact ⟨rfl, rfl⟩
  cases hverdict : verdict c w₀.block with
  | skip =>
      rw [storeBlock_skip hverdict] at hreturn
      cases hreturn
  | refuse =>
      obtain ⟨b, hb⟩ := storeBlock_refuse hverdict
      rw [hb] at hreturn
      obtain ⟨-, rfl⟩ := Prod.mk.inj (Option.some.inj hreturn)
      exact hsame
  | flash =>
      rw [storeBlock_flash hverdict] at hreturn
      split at hreturn
      · obtain ⟨-, rfl⟩ := Prod.mk.inj (Option.some.inj hreturn)
        exact hsame
      · rename_i haligned
        obtain ⟨haddress, data, hdata, hne⟩ := storePayload_false hreturn
        rw [aim_payload] at hdata
        rw [aim_targetAddr] at hne
        -- all the checks have been passed
        refine absurd ⟨hblock ▸ hverdict, ?_, data, hblock ▸ hdata, hblock ▸ hne⟩ hread
        rw [haddress]
        exact Decidable.of_not_not haligned

/-- The sector of a block that passes the checks has its number in the staging area. -/
theorem region_aim {w : World c} (h : verdict c w.block = .flash) :
    w.aim.region < c.numRegions := by
  rw [verdict] at h
  split_ifs at h with hmagic hnoflash htags hrange halign hsize hregion
  rw [region, aim_targetAddr]
  exact Nat.lt_of_not_le hregion

/-- **Taking a block returns**, if the number of sectors is a multiple of eight and the payload is
inside the block. -/
theorem takeBlock_returns (height : 8 ∣ c.numRegions) {w : World c} {block : Buffer BLOCK_SIZE}
    (hsize : UF2Block.payloadSize block.bytes ≤ 476) (ops : List FlashOp) :
    takeBlock (fun _ => .ok) w block ≠ (ops, .inr none) := by
  intro h
  have hnone : ((w.set fun h => { h with buffer := block }).storeBlock fun _ => .ok).2 = none :=
    (outcome_none _).1 (congrArg Prod.snd h)
  generalize hw₀ : (w.set fun h => { h with buffer := block }) = w₀ at hnone
  have hblock : w₀.block = block.bytes := by rw [← hw₀]; rfl
  cases hverdict : verdict c w₀.block with
  | skip =>
      rw [storeBlock_skip hverdict] at hnone
      cases hnone
  | refuse =>
      obtain ⟨b, hb⟩ := storeBlock_refuse hverdict
      rw [hb] at hnone
      cases hnone
  | flash =>
      rw [storeBlock_flash hverdict] at hnone
      split at hnone
      · cases hnone
      · have hdata : UF2Block.payload w₀.aim.block =
            some ((UF2Block.data w₀.block).take (UF2Block.payloadSize w₀.block)) := by
          rw [aim_payload, UF2Block.payload, if_pos (by rw [length_data, hblock]; exact hsize)]
        have hbit : w₀.aim.region / 8 < c.numRegions / 8 :=
          (Bitmap.forall_range_iff _).2 height _ (region_aim hverdict)
        obtain ⟨erased, w', -, hwrite, hwritten⟩ :=
          writeToFlash_spec (w := { w₀.aim with accesses := w₀.aim.accesses + 1 }) hbit hdata
        have hdata' : UF2Block.payload w'.block = _ := hwritten.block ▸ hdata
        rw [storePayload, hwrite] at hnone
        dsimp only at hnone
        rw [Option.bind_some, hdata'] at hnone
        cases hnone

/-! ### Blocks -/

theorem takeBlocks_index (blocks : List (Buffer BLOCK_SIZE)) : ∀ {w w' : World c}
    {ops : List FlashOp}, Chunk.ofStep (takeBlock access) w blocks = (ops, .inl w') →
      w'.helper.index = w.helper.index := by
  induction blocks with
  | nil =>
      intro w w' ops h
      cases h
      rfl
  | cons block blocks ih =>
      intro w w' ops h
      rcases hblock : takeBlock access w block with ⟨ops', w₁ | out⟩
      · rw [Chunk.ofStep_cons_go hblock] at h
        exact (ih (Prod.ext rfl (Prod.mk.inj h).2)).trans (takeBlock_index hblock)
      · rw [Chunk.ofStep_cons_stop hblock] at h
        cases h

/-- Blocks, each in a call of its own. -/
theorem storeChunks_blocks (access : ℕ → Access) (blocks : List (Buffer BLOCK_SIZE)) {w : World c}
    (hindex : w.helper.index = 0) : w.storeChunks access (blocks.map Buffer.bytes) =
      (returned (Chunk.ofStep (takeBlock access) w blocks)).2 := by
  rw [storeChunks_eq _ (by rw [hindex]; decide), ← List.flatMap_def, ofStep_blocks blocks hindex]

theorem storeChunks_block (access : ℕ → Access) (block : Buffer BLOCK_SIZE) {w : World c}
    (hindex : w.helper.index = 0) :
    w.storeChunks access [block.bytes] = (returned (takeBlock access w block)).2 := by
  have hone := storeChunks_blocks access [block] hindex
  rwa [Chunk.ofStep_singleton] at hone

/-- **A stream is taken as its blocks are**: what is left over changes neither what is returned nor
whether it is. -/
theorem ofStep_stream (access : ℕ → Access) (blocks : List (Buffer BLOCK_SIZE)) {tail : List UInt8}
    (htail : tail.length < BLOCK_SIZE) {w : World c} (hindex : w.helper.index = 0) :
    (∃ ops w' w'', Chunk.ofStep (takeBlock access) w blocks = (ops, .inl w') ∧
      Chunk.ofStep (storeByte access) w (blocks.flatMap Buffer.bytes ++ tail) = (ops, .inl w'')) ∨
    ∃ ops out, Chunk.ofStep (takeBlock access) w blocks = (ops, .inr out) ∧
      Chunk.ofStep (storeByte access) w (blocks.flatMap Buffer.bytes ++ tail) =
        (ops, .inr out) := by
  have hblocks : Chunk.ofStep (storeByte access) w _ = _ := ofStep_blocks blocks hindex
  rcases htake : Chunk.ofStep (takeBlock access) w blocks with ⟨ops, w' | out⟩
  · rw [htake] at hblocks
    have hroom : w'.helper.index + tail.length < BLOCK_SIZE := by
      rwa [takeBlocks_index blocks htake, hindex, Nat.zero_add]
    obtain ⟨b, hb⟩ := exists_memcpy w' tail (Nat.le_of_lt hroom)
    have hrest := store_part access hroom hb
    have hstream := Chunk.ofStep_append_go hblocks tail
    rw [hrest, List.append_nil] at hstream
    exact .inl ⟨ops, w', _, rfl, hstream⟩
  · rw [htake] at hblocks
    exact .inr ⟨ops, out, rfl, Chunk.ofStep_append_stop hblocks tail⟩

end World

/-! ### The property of a stream -/

/-- **The reception of a stream does not depend on the pieces and rejects cleanly**, when
`flash_safe_execute` succeeds and the payloads are inside the blocks. -/
theorem reception_unchunked (w : World c) (hindex : w.helper.index = 0) (stream : List UInt8)
    (hsize : ∀ block ∈ blocksOf [] stream, UF2Block.payloadSize block ≤ 476)
    (cs ds : List (List UInt8)) (hcs : cs.flatten = stream) (hds : ds.flatten = stream) :
    w.storeChunks (fun _ => .ok) cs = w.storeChunks (fun _ => .ok) ds ∧
      (8 ∣ c.numRegions → (w.storeChunks (fun _ => .ok) cs).isSome) ∧
      ∀ w₁, w.storeChunks (fun _ => .ok) cs = some (false, w₁) →
        ∃ before block after w₀, blocksOf [] stream = before ++ block :: after ∧
          w.storeChunks (fun _ => .ok) before = some (true, w₀) ∧
          w₀.storeChunks (fun _ => .ok) [block] = some (false, w₁) ∧
          (¬ ReadBackFails w₁ block →
            w₁.flash = w₀.flash ∧ w₁.helper.regionErased = w₀.helper.regionErased) := by
  have hlt : w.helper.index < BLOCK_SIZE := by rw [hindex]; decide
  -- both runs take the same bytes
  rw [World.storeChunks_eq cs hlt, World.storeChunks_eq ds hlt, hcs, hds]
  refine ⟨rfl, ?_⟩
  obtain ⟨blocks, tail, htail, rfl, hblocks⟩ := exists_blocksOf _ stream (Nat.lt_succ_self _)
  rw [hblocks] at hsize
  rw [hblocks]
  rcases World.ofStep_stream (fun _ => .ok) blocks htail hindex with
    ⟨ops, w', w'', -, hstream⟩ | ⟨ops, out, htake, hstream⟩
  · rw [hstream]
    exact ⟨fun _ => rfl, nofun⟩
  · rw [hstream]
    obtain ⟨before, block, after, ops₀, w₀, ops₁, rfl, hbefore, hblock⟩ :=
      Chunk.ofStep_stop htake
    cases out with
    | none =>
        refine ⟨fun height => ?_, nofun⟩
        exact absurd hblock (World.takeBlock_returns height
          (hsize _ (List.mem_map_of_mem (by simp))) ops₁)
    | some w₁ =>
        refine ⟨fun _ => rfl, ?_⟩
        rintro w₁' h
        cases h
        have hindex₀ := (World.takeBlocks_index before hbefore).trans hindex
        refine ⟨before.map Buffer.bytes, block.bytes, after.map Buffer.bytes, w₀, ?_, ?_, ?_,
          World.takeBlock_rejects hblock⟩
        · rw [List.map_append, List.map_cons]
        · rw [World.storeChunks_blocks _ before hindex, hbefore]
          rfl
        · rw [World.storeChunks_block _ block hindex₀, hblock]
          rfl

/-- A block that is written and one that is rejected, in two pieces and in one. -/
theorem reception_unchunked_example :
    (World.start Setup.default 0 fun _ => 0).storeChunks (fun _ => .ok)
        [sampleBlock XIP_BASE 256 7 ++ (sampleBlock 0 256 7).take 100,
          (sampleBlock 0 256 7).drop 100] =
      (World.start Setup.default 0 fun _ => 0).storeChunks (fun _ => .ok)
        [sampleBlock XIP_BASE 256 7 ++ sampleBlock 0 256 7] ∧
    ((World.start Setup.default 0 fun _ => 0).storeChunks (fun _ => .ok)
      [sampleBlock XIP_BASE 256 7 ++ (sampleBlock 0 256 7).take 100,
        (sampleBlock 0 256 7).drop 100]).isSome := by
  have hblocks : blocksOf [] (sampleBlock XIP_BASE 256 7 ++ (sampleBlock 0 256 7 ++ [])) =
      [sampleBlock XIP_BASE 256 7, sampleBlock 0 256 7] := by
    have hfull (targetAddr : ℕ) :
        ([] : List UInt8).length + (sampleBlock targetAddr 256 7).length = BLOCK_SIZE := by
      rw [length_sampleBlock, List.length_nil, Nat.zero_add]
    rw [blocksOf_full _ _ (by decide) (hfull _), blocksOf_full _ _ (by decide) (hfull _)]
    rfl
  rw [List.append_nil] at hblocks
  have h := reception_unchunked (World.start Setup.default 0 fun _ => 0) rfl
    (sampleBlock XIP_BASE 256 7 ++ sampleBlock 0 256 7) (by rw [hblocks]; decide +kernel)
    [sampleBlock XIP_BASE 256 7 ++ (sampleBlock 0 256 7).take 100, (sampleBlock 0 256 7).drop 100]
    [sampleBlock XIP_BASE 256 7 ++ sampleBlock 0 256 7]
    (by rw [List.flatten_cons, List.flatten_singleton, List.append_assoc, List.take_append_drop])
    (List.flatten_singleton)
  exact ⟨h.1, h.2.1 (by decide)⟩

end Ota
