/-
**The sectors and their bits.**

`MAX_BINARY_SIZE` is meant to be set by each project.  The size of the bitmap, the checks of
`storeData` and the loops of `upgrade_binary` divide it, in different orders and rounding down.
They agree if and only if the number of sectors is a multiple of eight: the bitmap has
`NUM_REGIONS / 8` bytes, and the sectors that are left over in the last division have no bit.

Main definitions:

* `Ota.World.Accepts` — an iteration of `storeData` hands a block to `flash_safe_execute`;
* `Ota.Setup.CoversStored`, `CoversLoops`, `CoversMarks` — the bitmap has a bit for what
  `storeData` accepts, for what the loops look up, and for each sector one of its own;
* `Ota.Setup.Covers` — the bitmap covers the configuration.

Main results:

* `Ota.World.storeTurn_cases` — what an iteration of `storeData` does with `flash_safe_execute`;
* `Ota.World.aim_of_accepts` — **what is accepted has passed the checks**;
* `Ota.coversStored_iff`, `Ota.coversLoops_iff`, `Ota.coversMarks_iff` — the three parts;
* `Ota.covers_iff` — **when the bitmap covers the configuration**.
-/

import PicoHttps.Ota.Install
import PicoHttps.Ota.Genuine

set_option relaxedAutoImplicit false
set_option autoImplicit false

namespace Ota

variable {c : Setup}

/-! ### What is asked of the bitmap -/

/-- The iteration of the loop of `storeData` on `data` completes a block that passes the checks:
whatever `flash_safe_execute` comes to, the iteration is what follows it in the world `w₁`. -/
def World.Accepts (w : World c) (data : List UInt8) (w₁ : World c) : Prop :=
  ∃ rest, ∀ access, World.storeTurn access (w, data) =
    World.continued rest (w₁.storePayload access)

/-- The sector of a target address that `storeData` accepts has its byte in the bitmap. -/
def Setup.CoversStored (c : Setup) : Prop :=
  ∀ (w : World c) (data : List UInt8) (w₁ : World c), w.Accepts data w₁ →
    w₁.region / 8 < c.numRegions / 8

/-- Both loops of `upgrade_binary` read the bitmap inside its bounds. -/
def Setup.CoversLoops (c : Setup) : Prop :=
  ∀ (h : UpgradeHelper c) (f : Flash),
    (World.eraseRegions h (List.range c.numRegions) f).isSome ∧
      (World.copyRegions h (List.range c.numRegions) f).isSome

/-- Marking a sector sets a bit of the bitmap that is not the bit of any other sector. -/
def Setup.CoversMarks (c : Setup) : Prop :=
  ∀ b : Buffer (c.numRegions / 8), ∀ i < c.numRegions, ∃ b', Bitmap.set b i = some b' ∧
    Bitmap.test b' i = some true ∧
    ∀ j < c.numRegions, j ≠ i → ∃ m, Bitmap.test b j = some m ∧ Bitmap.test b' j = some m

/-- **The bitmap covers the configuration.** -/
structure Setup.Covers (c : Setup) : Prop where
  stored : c.CoversStored
  loops : c.CoversLoops
  marks : c.CoversMarks

namespace World

/-! ### What is accepted -/

/-- A `writeToFlash` that returns has programmed the payload. -/
theorem writeToFlash_ne_nil {w w' : World c} (h : w.writeToFlash.2 = some w') :
    w.writeToFlash.1 ≠ [] := by
  by_cases hfits : w.region / 8 < c.numRegions / 8 ∧ (UF2Block.payload w.block).isSome
  · obtain ⟨data, hdata⟩ := Option.isSome_iff_exists.1 hfits.2
    obtain ⟨erased, w₁, -, hwrite, -⟩ := writeToFlash_spec hfits.1 hdata
    rw [hwrite]
    exact List.append_ne_nil_of_right_ne_nil _ (List.cons_ne_nil _ _)
  · rw [(writeToFlash_none hfits).1] at h
    cases h

/-- `flash_safe_execute` makes a difference: a payload is programmed if the call succeeds, and not
if it is refused. -/
theorem storePayload_depends (w : World c) (rest : List UInt8)
    (out : (World c × List UInt8) ⊕ Option (Bool × World c)) :
    ¬ ∀ access, continued rest (w.storePayload access) = ([], out) := by
  intro h
  have hrefused := (Prod.mk.inj (h fun _ => .refused)).2
  have hok := h fun _ => .ok
  have hnil := congrArg Prod.fst hok
  rw [continued_fst] at hnil
  cases hwrite : ({ w with accesses := w.accesses + 1 } : World c).writeToFlash.2 with
  | none =>
      rw [storePayload] at hok
      dsimp only at hok
      rw [hwrite, ← hrefused] at hok
      cases (Prod.mk.inj hok).2
  | some w' => exact writeToFlash_ne_nil hwrite hnil

/-- A full block leads to the same whatever `flash_safe_execute` comes to, or it has passed the
checks and its payload is to be staged. -/
theorem storeBlock_cases (w : World c) : (∃ r, ∀ access, w.storeBlock access = ([], r)) ∨
    verdict c w.block = .flash ∧ ∀ access, w.storeBlock access = w.aim.storePayload access := by
  cases hverdict : verdict c w.block with
  | skip => exact .inl ⟨_, fun _ => storeBlock_skip hverdict⟩
  | refuse =>
      obtain ⟨b, hb⟩ := storeBlock_refuse hverdict
      exact .inl ⟨_, hb⟩
  | flash =>
      by_cases hmisaligned : (w.helper.address + 32) % 2 ^ 32 % 32 ≠ 0
      · refine .inl ⟨some (false, w.aim), fun access => ?_⟩
        rw [storeBlock_flash hverdict, if_pos hmisaligned]
      · refine .inr ⟨rfl, fun access => ?_⟩
        rw [storeBlock_flash hverdict, if_neg hmisaligned]

/-- **What an iteration of `storeData` does with `flash_safe_execute`**: nothing, or it has a block
that has passed the checks staged. -/
theorem storeTurn_cases (w : World c) (data : List UInt8) :
    (∃ out, ∀ access, storeTurn access (w, data) = ([], out)) ∨
      ∃ (w' : World c) (rest : List UInt8), verdict c w'.block = .flash ∧
        ∀ access, storeTurn access (w, data) = continued rest (w'.aim.storePayload access) := by
  by_cases hdata : 0 < data.length
  · generalize hcount : (if data.length < sub32 BLOCK_SIZE w.helper.index then data.length
      else sub32 BLOCK_SIZE w.helper.index) = count
    cases hb : w.helper.buffer.memcpy w.helper.index (data.take count) with
    | none =>
        refine .inl ⟨.inr none, fun access => ?_⟩
        rw [storeTurn, if_pos hdata]
        dsimp only
        rw [hcount, hb]
    | some b =>
        by_cases hfull : (w.helper.index + count) % 2 ^ 32 = BLOCK_SIZE
        · have hturn (access : ℕ → Access) := storeTurn_count access hdata hcount hb hfull
          rcases storeBlock_cases (w.set fun h => { h with buffer := b, index := 0 }) with
            ⟨r, hr⟩ | ⟨hverdict, hstage⟩
          · refine .inl ⟨(continued (data.drop count) ([], r)).2, fun access => ?_⟩
            rw [hturn, hr]
            exact Prod.ext (continued_fst _ _) rfl
          · refine .inr ⟨_, data.drop count, hverdict, fun access => ?_⟩
            rw [hturn, hstage]
        · refine .inl ⟨if (w.helper.index + count) % 2 ^ 32 > BLOCK_SIZE then
            .inr (some (false, w.set fun h =>
              { h with buffer := b, index := (w.helper.index + count) % 2 ^ 32 }))
            else .inl (w.set fun h =>
              { h with buffer := b, index := (w.helper.index + count) % 2 ^ 32 },
                data.drop count), fun access => ?_⟩
          rw [storeTurn, if_pos hdata]
          dsimp only
          rw [hcount, hb]
          dsimp only
          rw [if_neg hfull]
          split <;> rfl
  · refine .inl ⟨.inr (some (true, w)), fun access => ?_⟩
    rw [storeTurn, if_neg hdata]

/-- **What is accepted has passed the checks**, and its target is the place in the staging area. -/
theorem aim_of_accepts {w w₁ : World c} {data : List UInt8} (h : w.Accepts data w₁) :
    ∃ w' : World c, verdict c w'.block = .flash ∧ w₁ = w'.aim := by
  obtain ⟨rest, hrest⟩ := h
  rcases storeTurn_cases w data with ⟨out, hout⟩ | ⟨w', ys, hverdict, hturn⟩
  · exact absurd (fun access => (hrest access).symm.trans (hout access))
      (storePayload_depends w₁ rest out)
  · refine ⟨w', hverdict, ?_⟩
    -- the world in which the call is made is seen when it is refused
    have hrefused := (hrest fun _ => .refused).symm.trans (hturn fun _ => .refused)
    obtain ⟨helper, flash, accesses⟩ := w₁
    generalize w'.aim = w₂ at hrefused ⊢
    obtain ⟨helper', flash', accesses'⟩ := w₂
    cases hrefused
    rfl

/-- A whole block that passes the checks is accepted, if `m_buffer` is empty and aligned. -/
theorem accepts_block {w : World c} (hindex : w.helper.index = 0)
    (haddress : 32 ∣ w.helper.address) (block : Buffer BLOCK_SIZE)
    (hverdict : verdict c block.bytes = .flash) :
    ∃ w₁ : World c, w.Accepts block.bytes w₁ ∧
      UF2Block.targetAddr w₁.block = dest c block.bytes := by
  obtain ⟨hlt, hfull, hb⟩ := memcpy_block hindex block
  refine ⟨(w.set fun h => { h with buffer := block, index := 0 }).aim, ⟨[], fun access => ?_⟩,
    aim_targetAddr _⟩
  have haligned : ¬ (w.helper.address + 32) % 2 ^ 32 % 32 ≠ 0 := by omega
  rw [← List.append_nil block.bytes, storeTurn_full access [] hlt hfull hb,
    storeBlock_flash hverdict]
  exact congrArg _ (if_neg haligned)

/-- The second loop looks up every sector, too. -/
theorem copyRegions_isSome {h : UpgradeHelper c} (is : List ℕ) (f : Flash) :
    (copyRegions h is f).isSome ↔ ∀ i ∈ is, i / 8 < c.numRegions / 8 :=
  Bitmap.isSome_loop
    (fun i marked f => if marked then f.program (i * FLASH_SECTOR_SIZE)
      (f.read (c.offset + i * FLASH_SECTOR_SIZE) FLASH_SECTOR_SIZE) else f)
    (fun _ => rfl) (fun _ _ _ => rfl) is f

end World

/-! ### Addresses for every sector -/

section sampleBlock

variable (t s : ℕ) (x : UInt8)

theorem flags_sampleBlock : UF2Block.flags (sampleBlock t s x) = 0 := rfl

theorem targetAddr_sampleBlock : UF2Block.targetAddr (sampleBlock t s x) = t % 2 ^ 32 :=
  Bytes.leNat_le32 t

theorem payloadSize_sampleBlock : UF2Block.payloadSize (sampleBlock t s x) = s % 2 ^ 32 :=
  Bytes.leNat_le32 s

theorem magicEnd_sampleBlock :
    UF2Block.magicEnd (sampleBlock t s x) = UF2Block.UF2_MAGIC_END := by
  rw [UF2Block.magicEnd, UF2Block.word, sampleBlock, List.drop_left']
  · rfl
  · simp only [List.length_append, List.length_replicate, Bytes.le32, List.length_cons,
      List.length_nil]

end sampleBlock

/-- **An address below `MAX_BINARY_SIZE` is accepted**, if its place in the staging area is aligned
and its sector is not the partial one at the end. -/
theorem accepts_sample (hfits : c.maxBinarySize ≤ 2 ^ 32) {t : ℕ} (ht : t < c.maxBinarySize)
    (halign : (t + c.offset) % 256 = 0) (hregion : t / FLASH_SECTOR_SIZE < c.numRegions)
    (flash : Flash) : ∃ w₁ : World c,
      (World.start c 0 flash).Accepts (sampleBlock ((XIP_BASE + t) % 2 ^ 32) 256 7) w₁ ∧
        w₁.region = t / FLASH_SECTOR_SIZE := by
  generalize hblock : sampleBlock ((XIP_BASE + t) % 2 ^ 32) 256 7 = block
  have hlen : block.length = BLOCK_SIZE := hblock ▸ length_sampleBlock _ _ _
  have htarget : sub32 (UF2Block.targetAddr block) XIP_BASE = t := by
    rw [← hblock, targetAddr_sampleBlock, sub32, XIP_BASE]
    omega
  have hdest : dest c block = (t + c.offset) % 2 ^ 32 := by rw [dest, htarget]
  have hplace : sub32 (dest c block) c.offset = t := by
    rw [hdest, sub32]
    omega
  have hverdict : verdict c block = .flash := by
    rw [verdict, htarget, hplace, hdest, ← hblock, magicEnd_sampleBlock, flags_sampleBlock,
      payloadSize_sampleBlock, if_neg (not_not.2 rfl), if_neg (by decide), if_neg (by decide),
      if_neg (Nat.not_le_of_lt ht), if_neg (by omega), if_neg (by decide),
      if_neg (Nat.not_le_of_lt hregion)]
  obtain ⟨w₁, haccepts, hw₁⟩ := World.accepts_block (w := World.start c 0 flash) rfl
    (Nat.dvd_zero 32) ⟨block, hlen⟩ hverdict
  refine ⟨w₁, haccepts, ?_⟩
  rw [World.region, hw₁, hplace]

/-- Every sector is that of an address that is accepted. -/
theorem exists_accepts (hfits : c.maxBinarySize ≤ 2 ^ 32) {i : ℕ} (hi : i < c.numRegions) :
    ∃ (w : World c) (data : List UInt8) (w₁ : World c), w.Accepts data w₁ ∧ w₁.region = i := by
  -- the first address of the sector whose place in the staging area is aligned
  obtain ⟨t, hlt, hsector, halign⟩ : ∃ t < c.maxBinarySize, t / FLASH_SECTOR_SIZE = i ∧
      (t + c.offset) % 256 = 0 := by
    rw [Setup.numRegions, FLASH_SECTOR_SIZE] at hi
    rw [FLASH_SECTOR_SIZE]
    refine ⟨i * 4096 + (256 - c.offset % 256) % 256, ?_, ?_, ?_⟩ <;> omega
  obtain ⟨w₁, haccepts, hregion⟩ := accepts_sample hfits hlt halign (hsector ▸ hi) fun _ => 0
  exact ⟨_, _, w₁, haccepts, hregion.trans hsector⟩

/-! ### When the bitmap is large enough -/

theorem coversStored_of (height : 8 ∣ c.numRegions) : c.CoversStored := by
  intro w data w₁ haccepts
  obtain ⟨w', hverdict, rfl⟩ := World.aim_of_accepts haccepts
  exact (Bitmap.forall_range_iff _).2 height _ (World.region_aim hverdict)

/-- The addresses that `storeData` accepts. -/
theorem coversStored_iff (hfits : c.maxBinarySize ≤ 2 ^ 32) :
    c.CoversStored ↔ 8 ∣ c.numRegions := by
  refine ⟨fun h => (Bitmap.forall_range_iff _).1 fun i hi => ?_, coversStored_of⟩
  obtain ⟨w, data, w₁, haccepts, rfl⟩ := exists_accepts hfits hi
  exact h w data w₁ haccepts

/-- The loops of `upgrade_binary`. -/
theorem coversLoops_iff : c.CoversLoops ↔ 8 ∣ c.numRegions := by
  rw [← Bitmap.forall_range_iff]
  constructor
  · intro h i hi
    have herase := (h (World.start c 0 fun _ => 0).helper fun _ => 0).1
    exact (World.eraseRegions_isSome _ _).1 herase i (List.mem_range.2 hi)
  · intro h helper f
    have hrange : ∀ i ∈ List.range c.numRegions, i / 8 < c.numRegions / 8 :=
      fun i hi => h i (List.mem_range.1 hi)
    exact ⟨(World.eraseRegions_isSome _ _).2 hrange, (World.copyRegions_isSome _ _).2 hrange⟩

/-- The marks of the sectors. -/
theorem coversMarks_iff : c.CoversMarks ↔ 8 ∣ c.numRegions := by
  rw [← Bitmap.forall_range_iff]
  constructor
  · intro h i hi
    obtain ⟨b', hset, -⟩ := h (.filled _ 0) i hi
    exact Bitmap.isSome_set.1 (Option.isSome_iff_exists.2 ⟨b', hset⟩)
  · intro h b i hi
    obtain ⟨b', hset, -⟩ := Bitmap.set_eq (b := b) (h i hi)
    refine ⟨b', hset, ?_, fun j hj hne => ?_⟩
    · rw [Bitmap.test_set hset, if_pos rfl]
    · obtain ⟨m, hm, -⟩ := Bitmap.test_eq (b := b) (h j hj)
      refine ⟨m, hm, ?_⟩
      rw [Bitmap.test_set hset, if_neg hne, hm]

/-- **The bitmap covers a configuration if and only if the number of its sectors is a multiple of
eight.** -/
theorem covers_iff (c : Setup) : c.Covers ↔ 8 ∣ c.numRegions := by
  constructor
  · intro h
    exact coversLoops_iff.1 h.loops
  · intro height
    exact ⟨coversStored_of height, coversLoops_iff.2 height, coversMarks_iff.2 height⟩

/-- **With twelve sectors, the ninth has no bit**, and `storeData` accepts a block for it. -/
theorem covers_not_twelve : ¬ ∀ c : Setup, 0 < c.maxBinarySize →
    FLASH_SECTOR_SIZE ∣ c.maxBinarySize → c.Covers := by
  intro hall
  have hcovers := hall ⟨0x100000, 12 * 4096⟩ (by decide) (by decide)
  obtain ⟨w₁, haccepts, hregion⟩ := accepts_sample (c := ⟨0x100000, 12 * 4096⟩)
    (t := 8 * 4096) (by decide) (by decide) (by decide) (by decide) fun _ => 0
  have hbyte := hcovers.stored _ _ w₁ haccepts
  rw [hregion] at hbyte
  revert hbyte
  decide

end Ota
