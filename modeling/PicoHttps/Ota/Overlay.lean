/-
**What any upload installs.**

The blocks of an upload need not be those of an image: places may be written twice, and sectors in
part.  A payload that is written over another one is accepted only if it is read back, and then it
has replaced it, since programming cannot set a bit.  So the staging area holds the payloads of the
blocks stored so far, the later ones over the earlier ones, and the upgrade lays them over the
program area.

Main definitions:

* `Ota.home`, `Ota.patches` — where the payload of a block goes, and the payloads of an upload;
* `Ota.overlay` — the program area with the payloads of an upload over it;
* `Ota.World.Overlaid` — the staging area holds the payloads stored so far;
* `Ota.Uploaded` — the two ways of uploading blocks.

Main results:

* `Ota.World.overlaid_stored` — storing a block;
* `Ota.upgrade_overlay` — **the upgrade lays the upload over the program area**.
-/

import PicoHttps.Ota.Retry

set_option relaxedAutoImplicit false
set_option autoImplicit false

namespace Ota

variable {c : Setup} {access : ℕ → Access}

/-! ### Payloads over a memory -/

/-- The place of the program area for which a block is meant. -/
def home (block : List UInt8) : ℕ := sub32 (UF2Block.targetAddr block) XIP_BASE

/-- The payload of a block, for its place. -/
def patch (block : List UInt8) : Flash.Patch :=
  ⟨home block, (UF2Block.data block).take (UF2Block.payloadSize block)⟩

/-- The payloads of the blocks that are flashed. -/
def patches (c : Setup) (blocks : List (Buffer BLOCK_SIZE)) : List Flash.Patch :=
  (blocks.filter fun b => verdict c b.bytes = .flash).map fun b => patch b.bytes

/-- A block goes in the sector `i`. -/
def Touched (c : Setup) (blocks : List (Buffer BLOCK_SIZE)) (i : ℕ) : Prop :=
  ∃ b ∈ blocks, verdict c b.bytes = .flash ∧ i = home b.bytes / FLASH_SECTOR_SIZE

instance (blocks : List (Buffer BLOCK_SIZE)) (i : ℕ) : Decidable (Touched c blocks i) :=
  inferInstanceAs (Decidable (∃ b ∈ blocks, _))

/-- **A memory with an upload over it**: the last payload for an address, `0xFF` where a sector has
none, and what was there before in the other sectors. -/
def overlay (c : Setup) (before : Flash) (blocks : List (Buffer BLOCK_SIZE)) : Flash := fun a =>
  (Flash.patched (patches c blocks) a).getD
    (if Touched c blocks (a / FLASH_SECTOR_SIZE) then Flash.ERASED else before a)

/-- The place of a block that is flashed. -/
theorem flash_home (hc : c.Separate) {block : List UInt8} (h : verdict c block = .flash) :
    home block < c.maxBinarySize ∧ dest c block = home block + c.offset ∧
      (home block + c.offset) % 256 = 0 ∧ UF2Block.payloadSize block % 256 = 0 ∧
      home block / FLASH_SECTOR_SIZE < c.numRegions := by
  obtain ⟨t, ht, heq, hdest, halign, hsize, hregion⟩ := flash_spec hc.fits h
  rw [home, ← heq]
  exact ⟨ht, hdest, halign, hsize, hregion⟩

theorem touched_concat {blocks : List (Buffer BLOCK_SIZE)} {b : Buffer BLOCK_SIZE} {i : ℕ} :
    Touched c (blocks ++ [b]) i ↔ Touched c blocks i ∨
      verdict c b.bytes = .flash ∧ i = home b.bytes / FLASH_SECTOR_SIZE := by
  simp only [Touched, List.mem_append, List.mem_singleton, or_and_right, exists_or, exists_eq_left]

theorem patches_concat_flash {blocks : List (Buffer BLOCK_SIZE)} {b : Buffer BLOCK_SIZE}
    (h : verdict c b.bytes = .flash) :
    patches c (blocks ++ [b]) = patches c blocks ++ [patch b.bytes] := by
  rw [patches, List.filter_append, List.map_append, ← patches, List.filter_singleton,
    decide_eq_true h]
  rfl

theorem patches_concat_skip {blocks : List (Buffer BLOCK_SIZE)} {b : Buffer BLOCK_SIZE}
    (h : verdict c b.bytes = .skip) : patches c (blocks ++ [b]) = patches c blocks := by
  have hnot : ¬ verdict c b.bytes = .flash := by rw [h]; decide
  rw [patches, List.filter_append, List.map_append, ← patches, List.filter_singleton,
    decide_eq_false hnot]
  exact List.append_nil _

namespace World

/-- The payloads of a list of blocks lie in the blocks. -/
def Fitting (blocks : List (Buffer BLOCK_SIZE)) (c : Setup) : Prop :=
  ∀ b ∈ blocks, verdict c b.bytes = .flash → UF2Block.payloadSize b.bytes ≤ 476

/-- **The staging area holds the payloads of the blocks stored so far**, in the sectors that the
bitmap marks; outside of it nothing has changed. -/
structure Overlaid (before : Flash) (done : List (Buffer BLOCK_SIZE)) (w : World c) : Prop where
  fitting : Fitting done c
  regions : ∀ i, Bitmap.Mem w.helper.regionErased i ↔ Touched c done i
  staged : ∀ a, Touched c done (a / FLASH_SECTOR_SIZE) →
    w.flash (c.offset + a) = (Flash.patched (patches c done) a).getD Flash.ERASED
  kept : ∀ a, a < c.offset ∨ c.offset + c.maxBinarySize ≤ a → w.flash a = before a

/-- A payload does not leave its sector. -/
theorem patch_sector (hc : c.Separate) {b : Buffer BLOCK_SIZE} {a : ℕ} {x : UInt8}
    (hflash : verdict c b.bytes = .flash) (hsize : UF2Block.payloadSize b.bytes ≤ 476)
    (h : (patch b.bytes).byte a = some x) : a / FLASH_SECTOR_SIZE =
      home b.bytes / FLASH_SECTOR_SIZE := by
  obtain ⟨-, -, halign, hmod, -⟩ := flash_home hc hflash
  obtain ⟨k, hk⟩ := hc.aligned
  obtain ⟨hle, hlt⟩ := Flash.Patch.byte_some h
  have hlen := List.length_take_le (UF2Block.payloadSize b.bytes) (UF2Block.data b.bytes)
  dsimp only [patch] at hle hlt
  rw [FLASH_SECTOR_SIZE] at hk ⊢
  omega

/-- There is no payload in a sector that is not touched. -/
theorem patched_untouched (hc : c.Separate) {done : List (Buffer BLOCK_SIZE)} {a : ℕ}
    (hfitting : Fitting done c) (h : ¬ Touched c done (a / FLASH_SECTOR_SIZE)) :
    Flash.patched (patches c done) a = none := by
  refine Flash.patched_eq_none fun p hp => ?_
  obtain ⟨b, hb, rfl⟩ := List.mem_map.1 hp
  obtain ⟨hmem, hflash⟩ := List.mem_filter.1 hb
  have hflash := of_decide_eq_true hflash
  refine Option.eq_none_iff_forall_not_mem.2 fun x hx => h ⟨b, hmem, hflash, ?_⟩
  exact patch_sector hc hflash (hfitting b hmem hflash) hx

/-- A patch in the staging area. -/
theorem byte_add (offset home : ℕ) (data : List UInt8) (a : ℕ) :
    (Flash.Patch.mk (home + offset) data).byte (offset + a) =
      (Flash.Patch.mk home data).byte a := by
  rw [Flash.Patch.byte, Flash.Patch.byte]
  dsimp only
  by_cases hle : home ≤ a
  · rw [if_pos hle, if_pos (by omega)]
    congr 1
    omega
  · rw [if_neg hle, if_neg (by omega)]

variable {before : Flash} {done : List (Buffer BLOCK_SIZE)} {w w' : World c}
  {b : Buffer BLOCK_SIZE}

theorem fitting_concat (h : Fitting done c)
    (hb : verdict c b.bytes = .flash → UF2Block.payloadSize b.bytes ≤ 476) :
    Fitting (done ++ [b]) c := by
  intro b' hb' hflash
  rcases List.mem_append.1 hb' with hb' | hb'
  · exact h b' hb' hflash
  · obtain rfl := List.mem_singleton.1 hb'
    exact hb hflash

/-- A block that is passed over. -/
theorem Overlaid.skip (h : Overlaid before done w) (hskip : verdict c b.bytes = .skip)
    (hsame : Same w w') : Overlaid before (done ++ [b]) w' := by
  have hnot : ¬ verdict c b.bytes = .flash := by rw [hskip]; decide
  have htouched (i : ℕ) : Touched c (done ++ [b]) i ↔ Touched c done i := by
    rw [touched_concat]
    exact or_iff_left fun hb => hnot hb.1
  refine ⟨fitting_concat h.fitting fun hflash => absurd hflash hnot, fun i => ?_, fun a ha => ?_,
    fun a ha => ?_⟩
  · rw [hsame.regions, htouched]
    exact h.regions i
  · rw [hsame.flash, patches_concat_skip hskip]
    exact h.staged a ((htouched _).1 ha)
  · rw [hsame.flash]
    exact h.kept a ha

/-- **What storing a block does that is flashed**: its sector is marked, and its payload replaces
what was there when the sector had been prepared. -/
structure Laid (b : Buffer BLOCK_SIZE) (erased : Bool) (w w' : World c) : Prop where
  fits : UF2Block.payloadSize b.bytes ≤ 476
  marked : erased = true ↔ Bitmap.Mem w.helper.regionErased (home b.bytes / FLASH_SECTOR_SIZE)
  regions : ∀ i, Bitmap.Mem w'.helper.regionErased i ↔
    i = home b.bytes / FLASH_SECTOR_SIZE ∨ Bitmap.Mem w.helper.regionErased i
  flash : ∀ a, w'.flash a =
    (Flash.Patch.byte ⟨home b.bytes + c.offset, (patch b.bytes).data⟩ a).getD
      (prepared c erased (home b.bytes) w.flash a)

theorem exists_laid (hc : c.Separate) (height : 8 ∣ c.numRegions)
    (hflash : verdict c b.bytes = .flash) {w₁ : World c} {data : List UInt8}
    (hwrite : (w.received b).writeToFlash.2 = some w₁)
    (hdata : UF2Block.payload b.bytes = some data)
    (hread : w₁.flash.read (dest c b.bytes) data.length = data) (hsame : Same w₁ w') :
    ∃ erased, Laid b erased w w' := by
  obtain ⟨hhome, hdest, -, -, hregion⟩ := flash_home hc hflash
  obtain ⟨k, hk⟩ := hc.aligned
  have hfits := hc.fits
  obtain rfl : (UF2Block.data b.bytes).take (UF2Block.payloadSize b.bytes) = data := by
    rw [UF2Block.payload] at hdata
    split at hdata
    · exact Option.some.inj hdata
    · cases hdata
  have hregion' : (w.received b).region = home b.bytes / FLASH_SECTOR_SIZE := by
    rw [region, targetAddr_received, hdest, sub32_add (by omega)]
  have hbit : (w.received b).region / 8 < c.numRegions / 8 := by
    rw [hregion']
    exact (Bitmap.forall_range_iff _).2 height _ hregion
  obtain ⟨erased, w₂, herased, hwrite', hwritten⟩ :=
    writeToFlash_spec hbit (payload_received.trans hdata)
  obtain rfl : w₂ = w₁ := Option.some.inj (by rw [← hwrite, hwrite'])
  have hsector : home b.bytes + c.offset - (home b.bytes + c.offset) % FLASH_SECTOR_SIZE =
      c.offset + home b.bytes / FLASH_SECTOR_SIZE * FLASH_SECTOR_SIZE := by
    rw [FLASH_SECTOR_SIZE] at hk ⊢
    omega
  have hflash₂ := hwritten.flash
  rw [targetAddr_received, hdest, hsector] at hflash₂
  refine ⟨erased, payload_isSome_iff.1 (by rw [hdata]; rfl), by rw [herased, hregion']; rfl,
    fun i => ?_, fun a => ?_⟩
  · rw [hsame.regions, hwritten.regions, hregion']
    rfl
  · rw [hdest, hflash₂] at hread
    rw [hsame.flash, hflash₂]
    exact Flash.program_patch (p := ⟨home b.bytes + c.offset, (patch b.bytes).data⟩) hread a

variable {erased : Bool}

/-- What is there before the payload is programmed. -/
theorem Overlaid.prepared_eq (hc : c.Separate) (h : Overlaid before done w) {p a : ℕ}
    (hmarked : erased = true ↔ Bitmap.Mem w.helper.regionErased (p / FLASH_SECTOR_SIZE))
    (ha : Touched c done (a / FLASH_SECTOR_SIZE) ∨ a / FLASH_SECTOR_SIZE = p / FLASH_SECTOR_SIZE) :
    prepared c erased p w.flash (c.offset + a) =
      (Flash.patched (patches c done) a).getD Flash.ERASED := by
  rw [h.regions] at hmarked
  cases erased with
  | true =>
      rw [prepared_marked]
      refine h.staged a (ha.elim id fun hin => ?_)
      rw [hin]
      exact hmarked.1 rfl
  | false =>
      by_cases hin : a / FLASH_SECTOR_SIZE = p / FLASH_SECTOR_SIZE
      · have huntouched : ¬ Touched c done (a / FLASH_SECTOR_SIZE) := by
          rw [hin]
          exact fun htouched => Bool.false_ne_true (hmarked.2 htouched)
        rw [prepared_erased hin, patched_untouched hc h.fitting huntouched, Option.getD_none]
      · rw [prepared_other hin]
        exact h.staged a (ha.resolve_right hin)

/-- The staging area. -/
theorem Overlaid.staged_laid (hc : c.Separate) (h : Overlaid before done w)
    (hflash : verdict c b.bytes = .flash) (hlaid : Laid b erased w w') {a : ℕ}
    (ha : Touched c (done ++ [b]) (a / FLASH_SECTOR_SIZE)) :
    w'.flash (c.offset + a) = (Flash.patched (patches c (done ++ [b])) a).getD Flash.ERASED := by
  have hbefore := h.prepared_eq hc hlaid.marked ((touched_concat.1 ha).imp_right And.right)
  rw [hlaid.flash, byte_add, hbefore, patches_concat_flash hflash, Flash.patched_concat]
  have hpatch : Flash.Patch.mk (home b.bytes) (patch b.bytes).data = patch b.bytes := rfl
  rw [hpatch]
  cases (patch b.bytes).byte a with
  | some x => rfl
  | none => rw [Option.none_or, Option.getD_none]

/-- What is outside of the staging area. -/
theorem Overlaid.kept_laid (hc : c.Separate) (h : Overlaid before done w)
    (hflash : verdict c b.bytes = .flash) (hlaid : Laid b erased w w') {a : ℕ}
    (ha : a < c.offset ∨ c.offset + c.maxBinarySize ≤ a) : w'.flash a = before a := by
  have hregion := (flash_home hc hflash).2.2.2.2
  have hnone : Flash.Patch.byte ⟨home b.bytes + c.offset, (patch b.bytes).data⟩ a = none := by
    refine Option.eq_none_iff_forall_not_mem.2 fun x hx => ?_
    have hle := (Flash.Patch.byte_some hx).1
    obtain ⟨i, rfl⟩ : ∃ i, a = c.offset + i := Nat.exists_eq_add_of_le (by dsimp only at hle; omega)
    rw [byte_add] at hx
    have hin := patch_sector hc hflash hlaid.fits hx
    rw [← hin, Setup.numRegions, FLASH_SECTOR_SIZE] at hregion
    omega
  rw [hlaid.flash, hnone, Option.getD_none, ← h.kept a ha]
  exact ha.elim (fun ha => prepared_below ha) fun ha => prepared_above hregion ha

/-- **Storing a block** lays its payload over the others. -/
theorem overlaid_stored (hc : c.Separate) (height : 8 ∣ c.numRegions)
    (h : Overlaid before done w) (hstored : Stored b w w') : Overlaid before (done ++ [b]) w' := by
  rcases hstored with ⟨hskip, hsame⟩ | ⟨hflash, -, w₁, data, hwrite, hdata, hread, hsame⟩
  · exact h.skip hskip hsame
  · obtain ⟨erased, hlaid⟩ := exists_laid hc height hflash hwrite hdata hread hsame
    refine ⟨fitting_concat h.fitting fun _ => hlaid.fits, fun i => ?_,
      fun a ha => h.staged_laid hc hflash hlaid ha, fun a ha => h.kept_laid hc hflash hlaid ha⟩
    rw [hlaid.regions, h.regions, touched_concat, and_iff_right hflash]
    exact or_comm

theorem overlaid_storedAll (hc : c.Separate) (height : 8 ∣ c.numRegions)
    (bs : List (Buffer BLOCK_SIZE)) : ∀ {done : List (Buffer BLOCK_SIZE)} {w : World c},
      Overlaid before done w → StoredAll bs w w' → Overlaid before (done ++ bs) w' := by
  induction bs with
  | nil =>
      intro done w h hsame
      rw [List.append_nil]
      exact ⟨h.fitting, fun i => by rw [hsame.regions]; exact h.regions i,
        fun a ha => by rw [hsame.flash]; exact h.staged a ha,
        fun a ha => by rw [hsame.flash]; exact h.kept a ha⟩
  | cons b bs ih =>
      rintro done w h ⟨w₁, hstored, hrest⟩
      have hall := ih (overlaid_stored hc height h hstored) hrest
      rwa [List.append_assoc] at hall

theorem overlaid_clear (w : World c) : Overlaid w.flash [] w.clear :=
  ⟨nofun, fun _ => ⟨fun h => absurd h Bitmap.not_mem_zero, nofun⟩, nofun, fun _ _ => rfl⟩

end World

/-! ### The property -/

/-- **The blocks have been uploaded**: each has been repeated until it was taken, or the bytes of
all have been stored in some chunks, each with the result `true`. -/
def Uploaded (access : ℕ → Access) (w : World c) (blocks : List (Buffer BLOCK_SIZE))
    (w' : World c) : Prop :=
  World.Resent access w blocks w' ∨
    ∃ chunks : List (List UInt8), chunks.flatten = blocks.flatMap Buffer.bytes ∧
      w.storeAll access chunks = some w'

theorem storedAll_of_uploaded {w w' : World c} {blocks : List (Buffer BLOCK_SIZE)}
    (hindex : w.helper.index = 0) (h : Uploaded access w blocks w') :
    World.StoredAll blocks w w' := by
  rcases h with hresent | ⟨chunks, hchunks, hstored⟩
  · exact World.storedAll_of_resent hresent hindex
  · obtain ⟨ops, htake⟩ := (World.storeAll_iff chunks (by rw [hindex]; decide)).1 hstored
    rw [hchunks, World.ofStep_blocks blocks hindex] at htake
    exact World.storedAll_of_take blocks htake

/-- **The upgrade lays the upload over the program area**, and changes nothing outside of it and of
the staging area. -/
theorem upgrade_overlay (hc : c.Separate) (height : 8 ∣ c.numRegions) (access : ℕ → Access)
    (w : World c) (blocks : List (Buffer BLOCK_SIZE)) (w' : World c)
    (h : Uploaded access w.clear blocks w') :
    ∃ f', w'.upgrade = some f' ∧ ∀ a, a < c.offset ∨ c.offset + c.maxBinarySize ≤ a →
      f' a = overlay c w.flash blocks a := by
  have hover := World.overlaid_storedAll hc height blocks (World.overlaid_clear w)
    (storedAll_of_uploaded (by rfl) h)
  rw [List.nil_append] at hover
  obtain ⟨f', hupgrade, hcopied, hsame⟩ := World.upgrade_spec hc (w := w') height
  refine ⟨f', hupgrade, fun a ha => ?_⟩
  rw [overlay]
  by_cases htouched : Touched c blocks (a / FLASH_SECTOR_SIZE)
  · have hregion : a / FLASH_SECTOR_SIZE < c.numRegions := by
      obtain ⟨b, -, hflash, hin⟩ := htouched
      rw [hin]
      exact (flash_home hc hflash).2.2.2.2
    rw [if_pos htouched, hcopied a hregion ((hover.regions _).2 htouched)]
    exact hover.staged a htouched
  · rw [if_neg htouched, World.patched_untouched hc hover.fitting htouched, Option.getD_none,
      hsame a fun hmem => htouched ((hover.regions _).1 hmem.2)]
    exact hover.kept a ha

/-- A place that is written twice, with a payload that clears more bits. -/
theorem upgrade_overlay_example : ∃ w' f',
    (World.start Setup.default 0 fun _ => 0).clear.storeAll (fun _ => .ok)
      [sampleBlock XIP_BASE 256 7 ++ sampleBlock XIP_BASE 256 3] = some w' ∧
    w'.upgrade = some f' ∧ f' 0 = 3 := by
  have hsome : ((World.start Setup.default 0 fun _ => 0).clear.storeAll (fun _ => .ok)
      [sampleBlock XIP_BASE 256 7 ++ sampleBlock XIP_BASE 256 3]).isSome := by
    decide +kernel
  obtain ⟨w', hstored⟩ := Option.isSome_iff_exists.1 hsome
  obtain ⟨f', hupgrade, hover⟩ := upgrade_overlay separate_default ⟨32, rfl⟩ (fun _ => .ok)
    (World.start Setup.default 0 fun _ => 0)
    [⟨sampleBlock XIP_BASE 256 7, length_sampleBlock ..⟩,
      ⟨sampleBlock XIP_BASE 256 3, length_sampleBlock ..⟩] w'
    (.inr ⟨_, by rw [List.flatten_singleton, List.flatMap_cons, List.flatMap_singleton], hstored⟩)
  refine ⟨w', f', hstored, hupgrade, ?_⟩
  rw [hover 0 (.inl (by decide))]
  decide +kernel

end Ota
