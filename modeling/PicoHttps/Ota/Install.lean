/-
**What an upgrade installs.**

An image is a list of blocks for distinct places of the program area.  Storing them stages every
payload in a sector that has been erased before, and the upgrade copies the staged sectors: the
program area then holds the payloads, `0xFF` around them, and what it held before in the sectors
without a payload.  The bitmap of the sectors has `NUM_REGIONS / 8` bytes, so this needs the number
of sectors to be a multiple of eight.

Main definitions:

* `Ota.Wanted`, `Ota.place` — the blocks that are flashed, and where their payloads go;
* `Ota.Image` — the blocks of an image;
* `Ota.Installed` — the program area holds the image;
* `Ota.World.storeAll` — storing chunks, as long as `storeData` returns `true`;
* `Ota.World.Staged` — the staging area holds the blocks stored so far;
* `Ota.World.Rewritten` — what a loop over the sectors changes.

Main results:

* `Ota.World.staged_block` — storing a block of the image;
* `Ota.World.upgrade_spec` — what `upgrade` leaves;
* `Ota.installed_iff` — **the image is installed**, however the stream is cut, if and only if every
  sector has a bit.
-/

import PicoHttps.Ota.Staging

set_option relaxedAutoImplicit false
set_option autoImplicit false

namespace Ota

variable {c : Setup} {access : ℕ → Access}

/-! ### Images -/

/-- The block is flagged neither as not meant for the flash memory nor as carrying extension
tags. -/
def Wanted (block : List UInt8) : Prop :=
  UF2Block.flags block &&& UF2Block.UF2_FLAG_NOFLASH = 0 ∧
    UF2Block.flags block &&& UF2Block.UF2_FLAG_EXTENSION_TAGS = 0

instance (block : List UInt8) : Decidable (Wanted block) := inferInstanceAs (Decidable (_ ∧ _))

/-- Where the payload of a block goes. -/
def place (block : List UInt8) : ℕ := UF2Block.targetAddr block - XIP_BASE

/-- **The blocks of an image**: all have the right magics, and those that are flashed bring 256
bytes for distinct aligned places of the program area. -/
structure Image (c : Setup) (blocks : List (List UInt8)) : Prop where
  length : ∀ b ∈ blocks, b.length = BLOCK_SIZE
  magic : ∀ b ∈ blocks, UF2Block.magicStart0 b = UF2Block.UF2_MAGIC_START0 ∧
    UF2Block.magicStart1 b = UF2Block.UF2_MAGIC_START1 ∧
    UF2Block.magicEnd b = UF2Block.UF2_MAGIC_END
  size : ∀ b ∈ blocks, Wanted b → UF2Block.payloadSize b = 256
  target : ∀ b ∈ blocks, Wanted b → XIP_BASE ≤ UF2Block.targetAddr b ∧
    UF2Block.targetAddr b < XIP_BASE + c.maxBinarySize ∧ UF2Block.targetAddr b % 256 = 0
  distinct : (blocks.filter Wanted).Pairwise fun b b' =>
    UF2Block.targetAddr b ≠ UF2Block.targetAddr b'

/-- **The program area holds the image**: the payloads, `0xFF` in the rest of their sectors, and
what was there before in the sectors without a payload. -/
structure Installed (c : Setup) (blocks : List (List UInt8)) (before after : Flash) : Prop where
  payload : ∀ b ∈ blocks, Wanted b → after.read (place b) 256 = (UF2Block.data b).take 256
  blank : ∀ a, (∃ b ∈ blocks, Wanted b ∧ a / FLASH_SECTOR_SIZE = place b / FLASH_SECTOR_SIZE) →
    (∀ b ∈ blocks, Wanted b → a < place b ∨ place b + 256 ≤ a) → after a = Flash.ERASED
  others : ∀ a < c.maxBinarySize,
    (∀ b ∈ blocks, Wanted b → a / FLASH_SECTOR_SIZE ≠ place b / FLASH_SECTOR_SIZE) →
      after a = before a

/-- The configurations of which the upgrade is meant to work. -/
structure Setup.Separate (c : Setup) : Prop where
  aligned : FLASH_SECTOR_SIZE ∣ c.offset
  room : c.maxBinarySize ≤ c.offset
  fits : c.offset + c.maxBinarySize ≤ 2 ^ 32

namespace World

/-- Storing chunks one after the other; `none` as soon as `storeData` does not return `true`. -/
def storeAll (access : ℕ → Access) : World c → List (List UInt8) → Option (World c)
  | w, [] => some w
  | w, chunk :: chunks =>
    match (w.storeData access chunk).2 with
    | some (true, w') => storeAll access w' chunks
    | _ => none

/-! ### The chunks and the blocks -/

theorem storeAll_eq_some (chunks : List (List UInt8)) : ∀ {w w' : World c},
    w.storeAll access chunks = some w' ↔ w.storeChunks access chunks = some (true, w') := by
  induction chunks with
  | nil =>
      intro w w'
      simp [storeAll, storeChunks]
  | cons chunk chunks ih =>
      intro w w'
      rw [storeAll, storeChunks]
      rcases (w.storeData access chunk).2 with _ | ⟨_ | _, w₁⟩
      · constructor
        · intro h; cases h
        · intro h; cases h
      · constructor
        · intro h; cases h
        · intro h; cases h
      · exact ih

/-- **The cuts do not matter**: the chunks are stored if and only if the bytes are taken. -/
theorem storeAll_iff (chunks : List (List UInt8)) {w w' : World c}
    (hindex : w.helper.index < BLOCK_SIZE) : w.storeAll access chunks = some w' ↔
      ∃ ops, Chunk.ofStep (storeByte access) w chunks.flatten = (ops, .inl w') := by
  rw [storeAll_eq_some, storeChunks_eq chunks hindex]
  constructor
  · intro h
    rcases hr : Chunk.ofStep (storeByte access) w chunks.flatten with ⟨ops, w₁ | _ | w₁⟩
    · rw [hr] at h
      cases h
      exact ⟨ops, rfl⟩
    · rw [hr] at h
      cases h
    · rw [hr] at h
      cases h
  · rintro ⟨ops, h⟩
    rw [h]
    rfl

end World

/-! ### Storing the image -/

theorem le_target {b : List UInt8} (h : XIP_BASE ≤ UF2Block.targetAddr b) :
    sub32 (UF2Block.targetAddr b) XIP_BASE = place b := by
  have hlt : UF2Block.targetAddr b < 2 ^ 32 := word_lt 12 b
  rw [sub32, place]
  rw [XIP_BASE] at h ⊢
  omega

/-- A block of the image that is not flashed is passed over. -/
theorem verdict_skip {b : List UInt8} (hmagic : UF2Block.magicEnd b = UF2Block.UF2_MAGIC_END)
    (hwanted : ¬ Wanted b) : verdict c b = .skip := by
  rw [verdict, if_neg (not_not.2 hmagic)]
  split
  · rfl
  · rename_i hnoflash
    rw [if_pos fun htags => hwanted ⟨not_not.1 hnoflash, htags⟩]

/-- A block of the image that is flashed, if its sector is in the bitmap's range. -/
theorem verdict_wanted (hc : c.Separate) {b : List UInt8}
    (hmagic : UF2Block.magicEnd b = UF2Block.UF2_MAGIC_END) (hwanted : Wanted b)
    (hsize : UF2Block.payloadSize b = 256)
    (htarget : XIP_BASE ≤ UF2Block.targetAddr b ∧
      UF2Block.targetAddr b < XIP_BASE + c.maxBinarySize ∧ UF2Block.targetAddr b % 256 = 0) :
    dest c b = place b + c.offset ∧ place b < c.maxBinarySize ∧ place b % 256 = 0 ∧
      verdict c b = if place b / FLASH_SECTOR_SIZE < c.numRegions then .flash else .refuse := by
  obtain ⟨hge, hlt, halign⟩ := htarget
  obtain ⟨k, hk⟩ := hc.aligned
  have hfits := hc.fits
  have hplace : place b < c.maxBinarySize := by
    rw [place]
    omega
  have halign' : place b % 256 = 0 := by
    rw [place, XIP_BASE]
    omega
  have hsub := le_target hge
  have hdest : dest c b = place b + c.offset := by
    rw [dest, hsub]
    omega
  refine ⟨hdest, hplace, halign', ?_⟩
  have hdest' : dest c b % 256 = 0 := by
    rw [FLASH_SECTOR_SIZE] at hk
    omega
  rw [verdict, if_neg (not_not.2 hmagic), if_neg (not_not.2 hwanted.1),
    if_neg (not_not.2 hwanted.2), hsub, if_neg (Nat.not_le.2 hplace), if_neg (not_not.2 hdest'),
    hsize, if_neg (by decide), hdest, sub32_add (by omega)]
  rcases Nat.lt_or_ge (place b / FLASH_SECTOR_SIZE) c.numRegions with hlt | hge
  · rw [if_neg (Nat.not_le.2 hlt), if_pos hlt]
  · rw [if_pos hge, if_neg (Nat.not_lt.2 hge)]

namespace World

/-- **The staging area holds the blocks stored so far**, in the sectors that the bitmap marks. -/
structure Staged (before : Flash) (done : List (List UInt8)) (w : World c) : Prop where
  address : 32 ∣ w.helper.address
  index : w.helper.index = 0
  regions : ∀ i, Bitmap.Mem w.helper.regionErased i ↔
    ∃ b ∈ done, Wanted b ∧ i = place b / FLASH_SECTOR_SIZE
  payload : ∀ b ∈ done, Wanted b →
    w.flash.read (c.offset + place b) 256 = (UF2Block.data b).take 256
  blank : ∀ a, (∃ b ∈ done, Wanted b ∧ a / FLASH_SECTOR_SIZE = place b / FLASH_SECTOR_SIZE) →
    (∀ b ∈ done, Wanted b → a < place b ∨ place b + 256 ≤ a) →
      w.flash (c.offset + a) = Flash.ERASED
  below : ∀ a < c.offset, w.flash a = before a

/-- A block that is passed over. -/
theorem Staged.skip {before : Flash} {done : List (List UInt8)} {w w' : World c} {b : List UInt8}
    (h : Staged before done w) (hwanted : ¬ Wanted b)
    (haddress : w'.helper.address = w.helper.address) (hindex : w'.helper.index = w.helper.index)
    (hregions : w'.helper.regionErased = w.helper.regionErased) (hflash : w'.flash = w.flash) :
    Staged before (done ++ [b]) w' := by
  have hmem (p : List UInt8 → Prop) :
      (∃ b' ∈ done ++ [b], Wanted b' ∧ p b') ↔ ∃ b' ∈ done, Wanted b' ∧ p b' := by
    constructor
    · rintro ⟨b', hb', hw, hp⟩
      rcases List.mem_append.1 hb' with hb' | hb'
      · exact ⟨b', hb', hw, hp⟩
      · obtain rfl := List.mem_singleton.1 hb'
        exact absurd hw hwanted
    · rintro ⟨b', hb', hw, hp⟩
      exact ⟨b', List.mem_append_left _ hb', hw, hp⟩
  refine ⟨haddress ▸ h.address, hindex.trans h.index, ?_, ?_, ?_, ?_⟩
  · intro i
    rw [hregions, hmem]
    exact h.regions i
  · intro b' hb' hw
    rcases List.mem_append.1 hb' with hb' | hb'
    · rw [hflash]
      exact h.payload b' hb' hw
    · obtain rfl := List.mem_singleton.1 hb'
      exact absurd hw hwanted
  · intro a ha hout
    rw [hflash]
    exact h.blank a ((hmem _).1 ha) fun b' hb' => hout b' (List.mem_append_left _ hb')
  · rw [hflash]
    exact h.below

theorem sector_add {p i : ℕ} (hp : p % 256 = 0) (hi : i < 256) :
    (p + i) / FLASH_SECTOR_SIZE = p / FLASH_SECTOR_SIZE := by
  rw [FLASH_SECTOR_SIZE]
  omega

theorem sector_iff {a k : ℕ} : a / FLASH_SECTOR_SIZE = k ↔
    k * FLASH_SECTOR_SIZE ≤ a ∧ a < k * FLASH_SECTOR_SIZE + FLASH_SECTOR_SIZE := by
  rw [FLASH_SECTOR_SIZE]
  omega

/-- Outside a sector that is erased or left alone. -/
theorem erase_sector_outside {f : Flash} {i a : ℕ} {marked : Bool}
    (h : marked = true → a / FLASH_SECTOR_SIZE ≠ i) :
    (if marked then f.erase (i * FLASH_SECTOR_SIZE) FLASH_SECTOR_SIZE else f) a = f a := by
  split
  · rename_i hmarked
    have hne := h hmarked
    rw [ne_eq, sector_iff] at hne
    exact Flash.erase_outside (by omega)
  · rfl

/-- Outside a sector that is programmed or left alone. -/
theorem program_sector_outside {f : Flash} {data : List UInt8} {i a : ℕ} {marked : Bool}
    (hdata : data.length = FLASH_SECTOR_SIZE) (h : marked = true → a / FLASH_SECTOR_SIZE ≠ i) :
    (if marked then f.program (i * FLASH_SECTOR_SIZE) data else f) a = f a := by
  split
  · rename_i hmarked
    have hne := h hmarked
    rw [ne_eq, sector_iff] at hne
    exact Flash.program_outside (by rw [hdata]; omega)
  · rfl

section stage

variable {before f : Flash} {done : List (List UInt8)} {w w' : World c} {b : List UInt8}

/-- The flash before a payload is programmed at the place `p` of the staging area: its sector is
erased, unless the bitmap marks it. -/
def prepared (c : Setup) (erased : Bool) (p : ℕ) (f : Flash) : Flash :=
  if erased then f
  else f.erase (c.offset + p / FLASH_SECTOR_SIZE * FLASH_SECTOR_SIZE) FLASH_SECTOR_SIZE

variable {erased : Bool} {p : ℕ}

theorem prepared_marked : prepared c true p f = f := if_pos rfl

theorem prepared_fresh : prepared c false p f =
    f.erase (c.offset + p / FLASH_SECTOR_SIZE * FLASH_SECTOR_SIZE) FLASH_SECTOR_SIZE :=
  if_neg Bool.false_ne_true

theorem prepared_below {a : ℕ} (ha : a < c.offset) : prepared c erased p f a = f a := by
  cases erased with
  | true => rw [prepared_marked]
  | false =>
      rw [prepared_fresh]
      exact Flash.erase_outside (.inl (by omega))

theorem prepared_above {a : ℕ} (hregion : p / FLASH_SECTOR_SIZE < c.numRegions)
    (ha : c.offset + c.maxBinarySize ≤ a) : prepared c erased p f a = f a := by
  cases erased with
  | true => rw [prepared_marked]
  | false =>
      rw [prepared_fresh]
      refine Flash.erase_outside (.inr ?_)
      rw [Setup.numRegions, FLASH_SECTOR_SIZE] at hregion
      rw [FLASH_SECTOR_SIZE]
      omega

/-- The other sectors of the staging area. -/
theorem prepared_other {a : ℕ} (ha : a / FLASH_SECTOR_SIZE ≠ p / FLASH_SECTOR_SIZE) :
    prepared c erased p f (c.offset + a) = f (c.offset + a) := by
  cases erased with
  | true => rw [prepared_marked]
  | false =>
      rw [prepared_fresh]
      refine Flash.erase_outside ?_
      rw [ne_eq, sector_iff] at ha
      omega

/-- The sector itself, when it has not been marked. -/
theorem prepared_erased {a : ℕ} (ha : a / FLASH_SECTOR_SIZE = p / FLASH_SECTOR_SIZE) :
    prepared c false p f (c.offset + a) = Flash.ERASED := by
  have hmem := sector_iff.1 ha
  rw [prepared_fresh]
  exact Flash.erase_inside (by omega) (by omega)

/-- What has been staged before is not erased. -/
theorem prepared_done (h : Staged before done w)
    (herased : erased = true ↔ Bitmap.Mem w.helper.regionErased (place b / FLASH_SECTOR_SIZE))
    {a : ℕ} (ha : ∃ b' ∈ done, Wanted b' ∧ a / FLASH_SECTOR_SIZE = place b' / FLASH_SECTOR_SIZE) :
    prepared c erased (place b) w.flash (c.offset + a) = w.flash (c.offset + a) := by
  cases erased with
  | true => rw [prepared_marked]
  | false =>
      refine prepared_other fun heq => ?_
      have hmem := (h.regions _).2 ha
      rw [heq] at hmem
      exact Bool.false_ne_true (herased.2 hmem)

/-- The rest of the sector is erased. -/
theorem prepared_blank (h : Staged before done w)
    (herased : erased = true ↔ Bitmap.Mem w.helper.regionErased (place b / FLASH_SECTOR_SIZE))
    {a : ℕ} (ha : a / FLASH_SECTOR_SIZE = place b / FLASH_SECTOR_SIZE)
    (hout : ∀ b' ∈ done, Wanted b' → a < place b' ∨ place b' + 256 ≤ a) :
    prepared c erased (place b) w.flash (c.offset + a) = Flash.ERASED := by
  cases erased with
  | true =>
      rw [prepared_marked]
      refine h.blank a ?_ hout
      rw [ha]
      exact (h.regions _).1 (herased.1 rfl)
  | false => exact prepared_erased ha

/-- **Storing a block of the image.** -/
theorem staged_block (h : Staged before done w)
    (herased : erased = true ↔ Bitmap.Mem w.helper.regionErased (place b / FLASH_SECTOR_SIZE))
    (halign : place b % 256 = 0) (hwanted : Wanted b)
    (hlen : ((UF2Block.data b).take 256).length = 256)
    (hdone : ∀ b' ∈ done, Wanted b' → place b' % 256 = 0 ∧ place b' ≠ place b)
    (haddress : w'.helper.address = w.helper.address) (hindex : w'.helper.index = w.helper.index)
    (hregions : ∀ i, Bitmap.Mem w'.helper.regionErased i ↔
      i = place b / FLASH_SECTOR_SIZE ∨ Bitmap.Mem w.helper.regionErased i)
    (hflash : w'.flash = (prepared c erased (place b) w.flash).program (c.offset + place b)
      ((UF2Block.data b).take 256)) :
    Staged before (done ++ [b]) w' := by
  have hmem (p : List UInt8 → Prop) :
      (∃ b' ∈ done ++ [b], Wanted b' ∧ p b') ↔ (∃ b' ∈ done, Wanted b' ∧ p b') ∨ p b := by
    constructor
    · rintro ⟨b', hb', hw, hp⟩
      rcases List.mem_append.1 hb' with hb' | hb'
      · exact .inl ⟨b', hb', hw, hp⟩
      · obtain rfl := List.mem_singleton.1 hb'
        exact .inr hp
    · rintro (⟨b', hb', hw, hp⟩ | hp)
      · exact ⟨b', List.mem_append_left _ hb', hw, hp⟩
      · exact ⟨b, List.mem_append_right _ (List.mem_singleton.2 rfl), hwanted, hp⟩
  have houtside {a : ℕ} (ha : a < place b ∨ place b + 256 ≤ a) :
      w'.flash (c.offset + a) = prepared c erased (place b) w.flash (c.offset + a) := by
    rw [hflash]
    exact Flash.program_outside (by rw [hlen]; omega)
  refine ⟨haddress ▸ h.address, hindex.trans h.index, fun i => ?_, fun b' hb' hw => ?_,
    fun a ha hout => ?_, fun a ha => ?_⟩
  · rw [hregions, h.regions, hmem]
    exact or_comm
  · rcases List.mem_append.1 hb' with hb' | hb'
    · obtain ⟨halign', hne⟩ := hdone b' hb' hw
      rw [← h.payload b' hb' hw]
      refine List.map_congr_left fun i hi => ?_
      have hi := List.mem_range.1 hi
      rw [Nat.add_assoc, houtside (by omega)]
      exact prepared_done h herased ⟨b', hb', hw, sector_add halign' hi⟩
    · obtain rfl := List.mem_singleton.1 hb'
      -- nothing has been programmed there: other blocks have other places
      have hblank : Flash.Blank (c.offset + place b') ((UF2Block.data b').take 256).length
          (prepared c erased (place b') w.flash) := by
        intro a ha ha'
        rw [hlen] at ha'
        obtain ⟨i, rfl⟩ := Nat.exists_eq_add_of_le ha
        rw [Nat.add_assoc]
        refine prepared_blank h herased (sector_add halign (by omega)) fun b'' hb'' hw'' => ?_
        obtain ⟨halign'', hne⟩ := hdone b'' hb'' hw''
        omega
      have hread := Flash.read_program hblank
      rw [hlen] at hread
      rw [hflash, hread]
  · have hout' : ∀ b' ∈ done, Wanted b' → a < place b' ∨ place b' + 256 ≤ a :=
      fun b' hb' => hout b' (List.mem_append_left _ hb')
    rw [houtside (hout b (List.mem_append_right _ (List.mem_singleton.2 rfl)) hwanted)]
    rcases (hmem _).1 ha with ha | ha
    · rw [prepared_done h herased ha]
      exact h.blank a ha hout'
    · exact prepared_blank h herased ha hout'
  · rw [hflash, Flash.program_outside (.inl (by omega)), prepared_below ha]
    exact h.below a ha

end stage

/-- Every sector in which a block of the image falls has a bit in the bitmap, and there is a bit
for every sector. -/
def Covered (c : Setup) (blocks : List (List UInt8)) : Prop :=
  8 ∣ c.numRegions ∧ ∀ b ∈ blocks, Wanted b → place b / FLASH_SECTOR_SIZE < c.numRegions

theorem storePayload_ok {w w' : World c} {ops : List FlashOp} {data : List UInt8}
    (hwrite : ({ w with accesses := w.accesses + 1 } : World c).writeToFlash = (ops, some w'))
    (hdata : UF2Block.payload w'.block = some data)
    (hread : w'.flash.read (UF2Block.targetAddr w'.block) data.length = data) :
    w.storePayload (fun _ => .ok) = (ops, some (true, w')) := by
  rw [storePayload, hwrite]
  dsimp only
  rw [Option.bind_some, hdata, Option.bind_eq_bind, Option.bind_some, hread, decide_eq_true rfl]
  rfl

/-- Taking a block of the image that is flashed. -/
theorem take_wanted (hc : c.Separate) {before : Flash} {done : List (List UInt8)} {w : World c}
    {b : Buffer BLOCK_SIZE} (h : Staged before done w)
    (hmagic : UF2Block.magicEnd b.bytes = UF2Block.UF2_MAGIC_END) (hwanted : Wanted b.bytes)
    (hsize : UF2Block.payloadSize b.bytes = 256)
    (htarget : XIP_BASE ≤ UF2Block.targetAddr b.bytes ∧
      UF2Block.targetAddr b.bytes < XIP_BASE + c.maxBinarySize ∧
      UF2Block.targetAddr b.bytes % 256 = 0)
    (height : 8 ∣ c.numRegions) (hregion : place b.bytes / FLASH_SECTOR_SIZE < c.numRegions)
    (hdone : ∀ b' ∈ done, Wanted b' → place b' % 256 = 0 ∧ place b' ≠ place b.bytes) :
    ∃ ops w', takeBlock (fun _ => .ok) w b = (ops, .inl w') ∧
      Staged before (done ++ [b.bytes]) w' := by
  obtain ⟨hdest, hplace, halign, hverdict⟩ := verdict_wanted hc hmagic hwanted hsize htarget
  rw [if_pos hregion] at hverdict
  have hfits := hc.fits
  have haddress : ¬ ((w.helper.address + 32) % 2 ^ 32 % 32 ≠ 0) := by
    obtain ⟨k, hk⟩ := h.address
    omega
  -- the world in which `writeToFlash` runs
  let w₂ : World c := { (w.set fun h => { h with buffer := b }).aim with
    accesses := w.accesses + 1 }
  have htarget₂ : UF2Block.targetAddr w₂.block = place b.bytes + c.offset :=
    (aim_targetAddr _).trans hdest
  have hlen : (UF2Block.data b.bytes).length = 476 :=
    length_data (w.set fun h => { h with buffer := b })
  have hdata₂ : UF2Block.payload w₂.block = some ((UF2Block.data b.bytes).take 256) := by
    refine (aim_payload _).trans ?_
    change UF2Block.payload b.bytes = _
    rw [UF2Block.payload, if_pos (by omega), hsize]
  have hregion₂ : w₂.region = place b.bytes / FLASH_SECTOR_SIZE := by
    rw [region, htarget₂, sub32_add (by omega)]
  obtain ⟨erased, w', herased, hwrite, hwritten⟩ :=
    writeToFlash_spec (w := w₂) (by rw [hregion₂]; omega) hdata₂
  have hsector : place b.bytes + c.offset - (place b.bytes + c.offset) % FLASH_SECTOR_SIZE =
      c.offset + place b.bytes / FLASH_SECTOR_SIZE * FLASH_SECTOR_SIZE := by
    obtain ⟨k, hk⟩ := hc.aligned
    rw [FLASH_SECTOR_SIZE] at hk ⊢
    omega
  have hflash := hwritten.flash
  have hregions := hwritten.regions
  rw [htarget₂, hsector, Nat.add_comm (place b.bytes)] at hflash
  rw [hregion₂] at hregions herased
  have hstaged : Staged before (done ++ [b.bytes]) w' :=
    staged_block h herased halign hwanted (by rw [List.length_take, hlen]; rfl) hdone
      hwritten.kept.address hwritten.kept.index hregions hflash
  have hread := hstaged.payload b.bytes (List.mem_append_right _ (List.mem_singleton.2 rfl)) hwanted
  obtain ⟨ops, hops⟩ : ∃ ops, w₂.writeToFlash = (ops, some w') := ⟨_, hwrite⟩
  have hstore := storePayload_ok hops (hwritten.block ▸ hdata₂) (by
    rw [hwritten.block, htarget₂, Nat.add_comm, List.length_take, hlen]
    exact hread)
  refine ⟨ops, w', ?_, hstaged⟩
  rw [takeBlock, storeBlock_flash hverdict]
  exact congrArg outcome ((if_neg haddress).trans hstore)

/-- **Taking the blocks of the image** one after the other. -/
theorem take_blocks (hc : c.Separate) {before : Flash} (blocks : List (Buffer BLOCK_SIZE)) :
    ∀ {done : List (List UInt8)} {w : World c}, Staged before done w →
      Image c (done ++ blocks.map Buffer.bytes) → Covered c (done ++ blocks.map Buffer.bytes) →
        ∃ ops w', Chunk.ofStep (takeBlock fun _ => .ok) w blocks = (ops, .inl w') ∧
          Staged before (done ++ blocks.map Buffer.bytes) w' := by
  induction blocks with
  | nil =>
      intro done w h _ _
      refine ⟨[], w, rfl, ?_⟩
      rwa [List.map_nil, List.append_nil]
  | cons b blocks ih =>
      intro done w h himage hcovered
      have hb : b.bytes ∈ done ++ (b :: blocks).map Buffer.bytes :=
        List.mem_append_right _ List.mem_cons_self
      have hmagic := (himage.magic _ hb).2.2
      have hsplit : done ++ (b :: blocks).map Buffer.bytes =
          done ++ [b.bytes] ++ blocks.map Buffer.bytes := by
        rw [List.map_cons, List.append_assoc, List.singleton_append]
      obtain ⟨ops, w₁, htake, hstaged⟩ : ∃ ops w₁, takeBlock (fun _ => .ok) w b = (ops, .inl w₁) ∧
          Staged before (done ++ [b.bytes]) w₁ := by
        by_cases hwanted : Wanted b.bytes
        · refine take_wanted hc h hmagic hwanted (himage.size _ hb hwanted)
            (himage.target _ hb hwanted) hcovered.1 (hcovered.2 _ hb hwanted) fun b' hb' hw' => ?_
          have htarget := himage.target _ hb hwanted
          have htarget' := himage.target b' (List.mem_append_left _ hb') hw'
          have hne : UF2Block.targetAddr b' ≠ UF2Block.targetAddr b.bytes := by
            have hdistinct := himage.distinct
            rw [List.filter_append, List.pairwise_append] at hdistinct
            refine hdistinct.2.2 b' (List.mem_filter.2 ⟨hb', decide_eq_true hw'⟩) _ ?_
            exact List.mem_filter.2 ⟨List.mem_cons_self, decide_eq_true hwanted⟩
          rw [place, place]
          rw [XIP_BASE] at htarget htarget' ⊢
          omega
        · have hskip : verdict c (w.set fun h => { h with buffer := b }).block = .skip :=
            verdict_skip hmagic hwanted
          refine ⟨[], w.set fun h => { h with buffer := b }, ?_, h.skip hwanted rfl rfl rfl rfl⟩
          rw [takeBlock, storeBlock_skip hskip]
          rfl
      rw [hsplit] at himage hcovered ⊢
      obtain ⟨ops', w', hrest, hstaged'⟩ := ih hstaged himage hcovered
      exact ⟨ops ++ ops', w', by rw [Chunk.ofStep_cons_go htake, hrest], hstaged'⟩

/-- What a cleared helper has staged. -/
theorem staged_clear {w : World c} (haddress : 32 ∣ w.helper.address) :
    Staged w.flash [] w.clear := by
  refine ⟨haddress, rfl, fun i => ⟨fun h => absurd h Bitmap.not_mem_zero, ?_⟩, nofun, ?_,
    fun _ _ => rfl⟩
  · rintro ⟨b, hb, -⟩
    cases hb
  · rintro a ⟨b, hb, -⟩
    cases hb

/-! ### The upgrade -/

/-- The marked sectors among `is` have been changed to hold `value`, and nothing else has. -/
structure Rewritten {n : ℕ} (b : Buffer n) (is : List ℕ) (value : ℕ → UInt8) (f f' : Flash) :
    Prop where
  inside : ∀ a, a / FLASH_SECTOR_SIZE ∈ is → Bitmap.Mem b (a / FLASH_SECTOR_SIZE) → f' a = value a
  outside : ∀ a, ¬ (a / FLASH_SECTOR_SIZE ∈ is ∧ Bitmap.Mem b (a / FLASH_SECTOR_SIZE)) → f' a = f a

theorem Rewritten.nil {n : ℕ} {b : Buffer n} {value : ℕ → UInt8} {f : Flash} :
    Rewritten b [] value f f := ⟨nofun, fun _ _ => rfl⟩

/-- One turn of a loop over the sectors, and the turns behind it. -/
theorem Rewritten.cons {n : ℕ} {b : Buffer n} {i : ℕ} {is : List ℕ} {value : ℕ → UInt8}
    {f f₁ f' : Flash} {marked : Bool} (hmarked : marked = true ↔ Bitmap.Mem b i)
    (hinside : ∀ {a}, a / FLASH_SECTOR_SIZE = i → marked = true → f₁ a = value a)
    (houtside : ∀ {a}, (marked = true → a / FLASH_SECTOR_SIZE ≠ i) → f₁ a = f a)
    (h : Rewritten b is value f₁ f') : Rewritten b (i :: is) value f f' := by
  refine ⟨fun a ha hmem => ?_, fun a ha => ?_⟩
  · by_cases htail : a / FLASH_SECTOR_SIZE ∈ is
    · exact h.inside a htail hmem
    · have hi := (List.mem_cons.1 ha).resolve_right htail
      rw [h.outside a fun hin => htail hin.1]
      exact hinside hi (hmarked.2 (hi ▸ hmem))
  · rw [h.outside a fun hin => ha ⟨List.mem_cons_of_mem _ hin.1, hin.2⟩]
    refine houtside fun hm hi => ha ⟨hi ▸ List.mem_cons_self, ?_⟩
    rw [hi]
    exact hmarked.1 hm

/-- The first loop erases the sectors that the bitmap marks. -/
theorem eraseRegions_spec {h : UpgradeHelper c} (is : List ℕ) :
    ∀ {f : Flash}, (∀ i ∈ is, i / 8 < c.numRegions / 8) →
      ∃ f', eraseRegions h is f = some f' ∧
        Rewritten h.regionErased is (fun _ => Flash.ERASED) f f' := by
  induction is with
  | nil => exact fun {f} _ => ⟨f, rfl, .nil⟩
  | cons i is ih =>
      intro f hrange
      obtain ⟨marked, htest, hmarked⟩ := Bitmap.test_eq (b := h.regionErased)
        (hrange i List.mem_cons_self)
      generalize hf₁ : (if marked = true then
        f.erase (i * FLASH_SECTOR_SIZE) FLASH_SECTOR_SIZE else f) = f₁
      obtain ⟨f', hf', herased⟩ := ih (f := f₁) fun j hj => hrange j (List.mem_cons_of_mem _ hj)
      refine ⟨f', ?_, .cons hmarked (fun {a} ha hm => ?_) (fun {a} ha => ?_) herased⟩
      · rw [eraseRegions, htest, Option.bind_eq_bind, Option.bind_some, hf₁]
        exact hf'
      · rw [← hf₁, if_pos hm]
        exact Flash.erase_inside (sector_iff.1 ha).1 (sector_iff.1 ha).2
      · rw [← hf₁]
        exact erase_sector_outside ha

/-- The second loop copies them from the staging area. -/
theorem copyRegions_spec {h : UpgradeHelper c} (is : List ℕ) : ∀ {f : Flash}, is.Nodup →
    (∀ i ∈ is, i / 8 < c.numRegions / 8) →
    (∀ i ∈ is, i * FLASH_SECTOR_SIZE + FLASH_SECTOR_SIZE ≤ c.offset) →
    (∀ a, a / FLASH_SECTOR_SIZE ∈ is → Bitmap.Mem h.regionErased (a / FLASH_SECTOR_SIZE) →
      f a = Flash.ERASED) →
      ∃ f', copyRegions h is f = some f' ∧
        Rewritten h.regionErased is (fun a => f (c.offset + a)) f f' := by
  induction is with
  | nil => exact fun {f} _ _ _ _ => ⟨f, rfl, .nil⟩
  | cons i is ih =>
      intro f hnodup hrange hroom hblank
      obtain ⟨hnotin, hnodup⟩ := List.nodup_cons.1 hnodup
      obtain ⟨marked, htest, hmarked⟩ := Bitmap.test_eq (b := h.regionErased)
        (hrange i List.mem_cons_self)
      have hroom_i := hroom i List.mem_cons_self
      generalize hf₁ : (if marked = true then f.program (i * FLASH_SECTOR_SIZE)
        (f.read (c.offset + i * FLASH_SECTOR_SIZE) FLASH_SECTOR_SIZE) else f) = f₁
      have hinside {a : ℕ} (ha : a / FLASH_SECTOR_SIZE = i) (hm : marked = true) :
          f₁ a = f (c.offset + a) := by
        have hmem := sector_iff.1 ha
        obtain ⟨j, rfl⟩ := Nat.exists_eq_add_of_le hmem.1
        have hj : j < FLASH_SECTOR_SIZE := by omega
        have hempty : Flash.Blank (i * FLASH_SECTOR_SIZE)
            (f.read (c.offset + i * FLASH_SECTOR_SIZE) FLASH_SECTOR_SIZE).length f := by
          intro b hb hb'
          rw [Flash.length_read] at hb'
          have hi := sector_iff.2 ⟨hb, hb'⟩
          refine hblank b ?_ ?_
          · rw [hi]
            exact List.mem_cons_self
          · rw [hi]
            exact hmarked.1 hm
        rw [← hf₁, if_pos hm, Flash.program_blank hempty (by rwa [Flash.length_read]),
          Flash.getElem_read, Nat.add_assoc]
      have houtside {a : ℕ} (ha : marked = true → a / FLASH_SECTOR_SIZE ≠ i) : f₁ a = f a := by
        rw [← hf₁]
        exact program_sector_outside Flash.length_read ha
      -- the staging area lies behind all the sectors that are copied to
      have hstaged (a : ℕ) : f₁ (c.offset + a) = f (c.offset + a) := by
        refine houtside fun _ hi => ?_
        have hmem := sector_iff.1 hi
        omega
      obtain ⟨f', hf', hcopied⟩ := ih (f := f₁) hnodup
        (fun j hj => hrange j (List.mem_cons_of_mem _ hj))
        (fun j hj => hroom j (List.mem_cons_of_mem _ hj)) (by
          intro a ha hmem
          rw [houtside fun _ hi => hnotin (hi ▸ ha)]
          exact hblank a (List.mem_cons_of_mem _ ha) hmem)
      refine ⟨f', ?_, .cons hmarked hinside houtside ?_⟩
      · rw [copyRegions, htest, Option.bind_eq_bind, Option.bind_some]
        dsimp only
        rw [hf₁]
        exact hf'
      · simpa only [hstaged] using hcopied

/-- **What `upgrade` leaves**: the marked sectors hold what has been staged for them. -/
theorem upgrade_spec (hc : c.Separate) {w : World c} (height : 8 ∣ c.numRegions) :
    ∃ f', w.upgrade = some f' ∧
      (∀ a, a / FLASH_SECTOR_SIZE < c.numRegions →
        Bitmap.Mem w.helper.regionErased (a / FLASH_SECTOR_SIZE) → f' a = w.flash (c.offset + a)) ∧
      ∀ a, ¬ (a / FLASH_SECTOR_SIZE < c.numRegions ∧
        Bitmap.Mem w.helper.regionErased (a / FLASH_SECTOR_SIZE)) → f' a = w.flash a := by
  have hrange : ∀ i ∈ List.range c.numRegions, i / 8 < c.numRegions / 8 :=
    fun i hi => (Bitmap.forall_range_iff _).2 height i (List.mem_range.1 hi)
  have hroom : ∀ i ∈ List.range c.numRegions,
      i * FLASH_SECTOR_SIZE + FLASH_SECTOR_SIZE ≤ c.offset := by
    intro i hi
    have hlt := List.mem_range.1 hi
    have hmax := hc.room
    rw [Setup.numRegions, FLASH_SECTOR_SIZE] at hlt
    rw [FLASH_SECTOR_SIZE]
    omega
  obtain ⟨f₁, herase, herased⟩ :=
    eraseRegions_spec (h := w.helper) (List.range c.numRegions) (f := w.flash) hrange
  obtain ⟨f', hcopy, hcopied⟩ :=
    copyRegions_spec (List.range c.numRegions) List.nodup_range hrange hroom herased.inside
  have hstaged (a : ℕ) : f₁ (c.offset + a) = w.flash (c.offset + a) := by
    refine herased.outside _ fun h => ?_
    have hlt := hroom _ h.1
    have hmem := sector_iff.1 (rfl : (c.offset + a) / FLASH_SECTOR_SIZE = _)
    omega
  refine ⟨f', ?_, fun a ha hmem => ?_, fun a ha => ?_⟩
  · rw [upgrade, herase, Option.bind_eq_bind, Option.bind_some, hcopy]
  · rw [hcopied.inside a (List.mem_range.2 ha) hmem, hstaged]
  · have hnot : ¬ (a / FLASH_SECTOR_SIZE ∈ List.range c.numRegions ∧
        Bitmap.Mem w.helper.regionErased (a / FLASH_SECTOR_SIZE)) :=
      fun h => ha ⟨List.mem_range.1 h.1, h.2⟩
    rw [hcopied.outside a hnot, herased.outside a hnot]

/-- **The upgrade installs what has been staged.** -/
theorem installed_of_staged (hc : c.Separate) {blocks : List (List UInt8)} {before : Flash}
    {w : World c} (h : Staged before blocks w) (himage : Image c blocks)
    (hcovered : Covered c blocks) :
    ∃ f', w.upgrade = some f' ∧ Installed c blocks before f' := by
  obtain ⟨f', hupgrade, hcopied, hsame⟩ := upgrade_spec hc (w := w) hcovered.1
  have hmarked {a : ℕ}
      (ha : ∃ b ∈ blocks, Wanted b ∧ a / FLASH_SECTOR_SIZE = place b / FLASH_SECTOR_SIZE) :
      f' a = w.flash (c.offset + a) := by
    refine hcopied a ?_ ((h.regions _).2 ha)
    obtain ⟨b, hb, hw, heq⟩ := ha
    rw [heq]
    exact hcovered.2 b hb hw
  refine ⟨f', hupgrade, fun b hb hw => ?_, fun a ha hout => ?_, fun a ha hout => ?_⟩
  · rw [← h.payload b hb hw]
    refine List.map_congr_left fun i hi => ?_
    have halign : place b % 256 = 0 := by
      have htarget := himage.target b hb hw
      rw [place, XIP_BASE]
      omega
    rw [Nat.add_assoc]
    exact hmarked ⟨b, hb, hw, sector_add halign (List.mem_range.1 hi)⟩
  · rw [hmarked ha]
    exact h.blank a ha hout
  · have hnot : ¬ Bitmap.Mem w.helper.regionErased (a / FLASH_SECTOR_SIZE) := by
      intro hmem
      obtain ⟨b, hb, hw, heq⟩ := (h.regions _).1 hmem
      exact hout b hb hw heq
    rw [hsame a fun h' => hnot h'.2]
    exact h.below a (Nat.lt_of_lt_of_le ha hc.room)

/-! ### What the property needs -/

/-- The first loop looks up every sector. -/
theorem eraseRegions_isSome {h : UpgradeHelper c} (is : List ℕ) (f : Flash) :
    (eraseRegions h is f).isSome ↔ ∀ i ∈ is, i / 8 < c.numRegions / 8 :=
  Bitmap.isSome_loop
    (fun i marked f => if marked then f.erase (i * FLASH_SECTOR_SIZE) FLASH_SECTOR_SIZE else f)
    (fun _ => rfl) (fun _ _ _ => rfl) is f

/-- An upgrade that comes to its end has a bit for every sector. -/
theorem eight_dvd_of_upgrade {w : World c} {f' : Flash} (h : w.upgrade = some f') :
    8 ∣ c.numRegions := by
  rw [upgrade] at h
  obtain ⟨f₁, herase, -⟩ := Option.bind_eq_some_iff.1 h
  have hrange := (eraseRegions_isSome _ _).1 (Option.isSome_iff_exists.2 ⟨f₁, herase⟩)
  exact (Bitmap.forall_range_iff _).1 fun i hi => hrange i (List.mem_range.2 hi)

/-- Blocks that are taken are not refused. -/
theorem not_refused (blocks : List (Buffer BLOCK_SIZE)) : ∀ {w w' : World c} {ops : List FlashOp},
    Chunk.ofStep (takeBlock access) w blocks = (ops, .inl w') →
      ∀ b ∈ blocks, verdict c b.bytes ≠ .refuse := by
  induction blocks with
  | nil => exact fun _ => nofun
  | cons b blocks ih =>
      intro w w' ops h b' hb' hrefuse
      rcases htake : takeBlock access w b with ⟨ops', w₁ | out⟩
      · rcases List.mem_cons.1 hb' with rfl | hb'
        · obtain ⟨buffer, hblock⟩ := storeBlock_refuse
            (w := w.set fun h => { h with buffer := b' }) hrefuse
          rw [takeBlock, hblock] at htake
          cases htake
        · rw [Chunk.ofStep_cons_go htake] at h
          exact ih (Prod.ext rfl (Prod.mk.inj h).2) b' hb' hrefuse
      · rw [Chunk.ofStep_cons_stop htake] at h
        cases h

/-- A list of blocks as a list of arrays. -/
theorem exists_buffers {blocks : List (List UInt8)} (h : ∀ b ∈ blocks, b.length = BLOCK_SIZE) :
    ∃ bs : List (Buffer BLOCK_SIZE), bs.map Buffer.bytes = blocks := by
  induction blocks with
  | nil => exact ⟨[], rfl⟩
  | cons b blocks ih =>
      obtain ⟨bs, hbs⟩ := ih fun b' hb' => h b' (List.mem_cons_of_mem _ hb')
      exact ⟨⟨b, h b List.mem_cons_self⟩ :: bs, by rw [List.map_cons, hbs]⟩

end World

/-! ### The property -/

/-- **The image is installed**, however its stream is cut and whatever the helper has been used for
before it was cleared, if and only if the number of sectors is a multiple of eight and no block
falls in a sector beyond them. -/
theorem installed_iff (hc : c.Separate) (w : World c) (haddress : 32 ∣ w.helper.address)
    (blocks : List (List UInt8)) (himage : Image c blocks) (chunks : List (List UInt8))
    (hchunks : chunks.flatten = blocks.flatten) :
    (∃ w' f', w.clear.storeAll (fun _ => .ok) chunks = some w' ∧ w'.upgrade = some f' ∧
      Installed c blocks w.flash f') ↔
      8 ∣ c.numRegions ∧ ∀ b ∈ blocks, Wanted b → place b / FLASH_SECTOR_SIZE < c.numRegions := by
  obtain ⟨bs, rfl⟩ := World.exists_buffers himage.length
  have hindex : w.clear.helper.index < BLOCK_SIZE := show 0 < BLOCK_SIZE by decide
  have hstore (w' : World c) : w.clear.storeAll (fun _ => .ok) chunks = some w' ↔
      ∃ ops, Chunk.ofStep (World.takeBlock fun _ => .ok) w.clear bs = (ops, .inl w') := by
    rw [World.storeAll_iff chunks hindex, hchunks, ← List.flatMap_def, World.ofStep_blocks bs rfl]
  constructor
  · rintro ⟨w', f', hstored, hupgrade, -⟩
    refine ⟨World.eight_dvd_of_upgrade hupgrade, fun b hmem hw => ?_⟩
    obtain ⟨ops, htake⟩ := (hstore w').1 hstored
    obtain ⟨b, hb, rfl⟩ := List.mem_map.1 hmem
    obtain ⟨-, -, -, hverdict⟩ := verdict_wanted hc (himage.magic _ hmem).2.2 hw
      (himage.size _ hmem hw) (himage.target _ hmem hw)
    refine Decidable.of_not_not fun hge => ?_
    rw [if_neg hge] at hverdict
    exact World.not_refused bs htake b hb hverdict
  · intro hcovered
    obtain ⟨ops, w', htake, hstaged⟩ :=
      World.take_blocks hc bs (World.staged_clear haddress) himage hcovered
    obtain ⟨f', hupgrade, hinstalled⟩ := World.installed_of_staged hc hstaged himage hcovered
    exact ⟨w', f', (hstore w').2 ⟨ops, htake⟩, hupgrade, hinstalled⟩

theorem separate_default : Setup.default.Separate := ⟨by decide, by decide, by decide⟩

/-- An image of one block, for a place `p` of the program area. -/
theorem image_sample {p : ℕ} (himage : (sampleBlock p 256 7).length = BLOCK_SIZE ∧
    UF2Block.magicStart0 (sampleBlock p 256 7) = UF2Block.UF2_MAGIC_START0 ∧
    UF2Block.magicStart1 (sampleBlock p 256 7) = UF2Block.UF2_MAGIC_START1 ∧
    UF2Block.magicEnd (sampleBlock p 256 7) = UF2Block.UF2_MAGIC_END ∧
    UF2Block.payloadSize (sampleBlock p 256 7) = 256 ∧
    XIP_BASE ≤ UF2Block.targetAddr (sampleBlock p 256 7) ∧
    UF2Block.targetAddr (sampleBlock p 256 7) < XIP_BASE + c.maxBinarySize ∧
    UF2Block.targetAddr (sampleBlock p 256 7) % 256 = 0) : Image c [sampleBlock p 256 7] := by
  obtain ⟨hlen, h₀, h₁, h₂, hsize, htarget⟩ := himage
  refine ⟨?_, ?_, ?_, ?_, ?_⟩
  · exact List.forall_mem_singleton.2 hlen
  · exact List.forall_mem_singleton.2 ⟨h₀, h₁, h₂⟩
  · exact List.forall_mem_singleton.2 fun _ => hsize
  · exact List.forall_mem_singleton.2 fun _ => htarget
  · exact (List.pairwise_singleton _ _).sublist List.filter_sublist

/-- One block in two chunks, in the configuration of `upgrade_helper.h`. -/
theorem installed_example :
    ∃ w' f', (World.start Setup.default 0 fun _ => 0).clear.storeAll (fun _ => .ok)
        [(sampleBlock XIP_BASE 256 7).take 100, (sampleBlock XIP_BASE 256 7).drop 100] = some w' ∧
      w'.upgrade = some f' ∧
      Installed Setup.default [sampleBlock XIP_BASE 256 7] (fun _ => 0) f' := by
  refine (installed_iff separate_default (World.start Setup.default 0 fun _ => 0)
    (Nat.dvd_zero 32) [sampleBlock XIP_BASE 256 7] (image_sample ?_) _ ?_).2 ⟨by decide, ?_⟩
  · decide +kernel
  · rw [List.flatten_cons, List.flatten_singleton, List.flatten_singleton, List.take_append_drop]
  · refine List.forall_mem_singleton.2 fun _ => ?_
    decide +kernel

/-- **With twelve sectors, a block for the ninth is marked outside the bitmap.** -/
theorem installed_outside :
    ¬ ∀ (c : Setup), c.Separate → ∀ (w : World c), 32 ∣ w.helper.address →
      ∀ (blocks : List (List UInt8)), Image c blocks → ∀ chunks : List (List UInt8),
        chunks.flatten = blocks.flatten →
          ∃ w' f', w.clear.storeAll (fun _ => .ok) chunks = some w' ∧ w'.upgrade = some f' ∧
            Installed c blocks w.flash f' := by
  intro hall
  obtain ⟨w', f', hstored, -⟩ := hall ⟨0x100000, 12 * 4096⟩ ⟨by decide, by decide, by decide⟩
    (World.start _ 0 fun _ => 0) (Nat.dvd_zero 32) [sampleBlock (XIP_BASE + 8 * 4096) 256 7]
    (image_sample (by decide +kernel)) [sampleBlock (XIP_BASE + 8 * 4096) 256 7] rfl
  have hnone : ((World.start ⟨0x100000, 12 * 4096⟩ 0 fun _ => 0).clear.storeAll (fun _ => .ok)
      [sampleBlock (XIP_BASE + 8 * 4096) 256 7]).isSome = false := by
    decide +kernel
  rw [hstored] at hnone
  cases hnone

end Ota
