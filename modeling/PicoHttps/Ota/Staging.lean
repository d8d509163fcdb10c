/-
**What the upgrade helper touches.**

While data is stored, the flash memory is changed in the staging area only: every sector that is
erased and every byte that is programmed lies there, and what is programmed lies in sectors that
have been erased since the helper was cleared.  The payload size is read from the block, and
`storeData` checks only that it is a multiple of 256: a block that announces 512 bytes or more has
bytes behind the block programmed and compared.

Main definitions:

* `Ota.Op`, `Ota.Event`, `Ota.World.run` — calls of `storeData` and `clear`, and what they do;
* `Ota.Allowed` — what may be done to the flash memory;
* `Ota.PayloadsFit`, `Ota.World.Fits` — no block that is flashed announces more than 256 bytes;
* `Ota.World.Recorded` — the bitmap marks sectors that have been erased.

Main results:

* `Ota.World.writeToFlash_spec` — what `writeToFlash` does;
* `Ota.World.recorded_storeBlock` — a block keeps to the staging area;
* `Ota.staging_owned` — **every run keeps to it**, if the payloads fit;
* `Ota.staging_overread` — a block of 512 bytes of payload.
-/

import PicoHttps.Ota.Blocks

set_option relaxedAutoImplicit false
set_option autoImplicit false

namespace Ota

variable {c : Setup} {access : ℕ → Access}

/-! ### Runs -/

/-- A call of the helper. -/
inductive Op
  | store (data : List UInt8)
  | clear
  deriving DecidableEq, Repr

/-- What happens in a run. -/
inductive Event
  | cleared
  | op (o : FlashOp)
  deriving DecidableEq, Repr

/-- A new helper, and a flash memory. -/
def World.start (c : Setup) (address : ℕ) (flash : Flash) : World c where
  helper := ⟨address, .filled _ 0, .filled _ 0, 0⟩
  flash := flash
  accesses := 0

/-- A call. -/
def World.apply (access : ℕ → Access) (w : World c) : Op → List Event × Option (World c)
  | .store data =>
    ((w.storeData access data).1.map .op, (w.storeData access data).2.map (·.2))
  | .clear => ([.cleared], some w.clear)

/-- Calls one after the other, whatever they return; an access outside an array ends the run. -/
def World.run (access : ℕ → Access) : World c → List Op → List Event × Option (World c)
  | w, [] => ([], some w)
  | w, o :: ops =>
    match w.apply access o with
    | (es, none) => (es, none)
    | (es, some w') => (es ++ (World.run access w' ops).1, (World.run access w' ops).2)

/-! ### The property -/

/-- The bytes from `offset` on lie in the staging area. -/
def Setup.Owns (c : Setup) (offset count : ℕ) : Prop :=
  c.offset ≤ offset ∧ offset + count ≤ c.offset + c.maxBinarySize

/-- **What may be done to the flash memory**, when the ranges `erased` have been erased since the
helper was cleared: erasing a range of the staging area, and programming bytes of the staging area
that lie in an erased range. -/
def Allowed (c : Setup) : List (ℕ × ℕ) → List Event → Prop
  | _, [] => True
  | _, .cleared :: es => Allowed c [] es
  | erased, .op (.erase offset count) :: es =>
    c.Owns offset count ∧ Allowed c ((offset, count) :: erased) es
  | erased, .op (.program offset data) :: es => c.Owns offset data.length ∧
      (∀ a, offset ≤ a → a < offset + data.length →
        ∃ range ∈ erased, range.1 ≤ a ∧ a < range.1 + range.2) ∧ Allowed c erased es

/-- The ranges that have been erased since the helper was cleared. -/
def erasures : List (ℕ × ℕ) → List Event → List (ℕ × ℕ)
  | erased, [] => erased
  | _, .cleared :: es => erasures [] es
  | erased, .op (.erase offset count) :: es => erasures ((offset, count) :: erased) es
  | erased, .op (.program _ _) :: es => erasures erased es

theorem Allowed.append {es es' : List Event} : ∀ {erased : List (ℕ × ℕ)}, Allowed c erased es →
    Allowed c (erasures erased es) es' → Allowed c erased (es ++ es') := by
  induction es with
  | nil => exact fun _ h => h
  | cons e es ih =>
      intro erased h h'
      rcases e with _ | ⟨offset, count⟩ | ⟨offset, data⟩
      · exact ih h h'
      · exact ⟨h.1, ih h.2 h'⟩
      · exact ⟨h.1, h.2.1, ih h.2.2 h'⟩

theorem erasures_append (es es' : List Event) : ∀ erased,
    erasures erased (es ++ es') = erasures (erasures erased es) es' := by
  induction es with
  | nil => exact fun _ => rfl
  | cons e es ih =>
      intro erased
      rcases e with _ | ⟨offset, count⟩ | ⟨offset, data⟩
      · exact ih []
      · exact ih _
      · exact ih erased

/-! ### The condition -/

/-- The blocks that are completed by `data`, when `pend` has been buffered. -/
def blocksOf : List UInt8 → List UInt8 → List (List UInt8)
  | _, [] => []
  | pend, x :: data =>
    if pend.length + 1 = BLOCK_SIZE then (pend ++ [x]) :: blocksOf [] data
    else blocksOf (pend ++ [x]) data

/-- **Up to the first block that is refused, no block that is flashed announces more than 256
bytes.** -/
def PayloadsFit (c : Setup) : List (List UInt8) → Prop
  | [] => True
  | block :: blocks => (verdict c block = .flash → UF2Block.payloadSize block ≤ 256) ∧
      (verdict c block ≠ .refuse → PayloadsFit c blocks)

instance decidablePayloadsFit : ∀ blocks, Decidable (PayloadsFit c blocks)
  | [] => .isTrue trivial
  | _ :: blocks =>
    have := decidablePayloadsFit blocks
    inferInstanceAs (Decidable ((_ → _) ∧ (_ → _)))

/-- The bytes that wait in `m_buffer`. -/
def World.pend (w : World c) : List UInt8 := w.helper.buffer.bytes.take w.helper.index

/-- The payloads fit in every call of a run. -/
def World.Fits (access : ℕ → Access) : World c → List Op → Prop
  | _, [] => True
  | w, .clear :: ops => World.Fits access w.clear ops
  | w, .store data :: ops => PayloadsFit c (blocksOf w.pend data) ∧
      ∀ go w', (w.storeData access data).2 = some (go, w') → World.Fits access w' ops

/-! ### What `writeToFlash` does -/

namespace World

/-- What `writeToFlash` leaves, when the sector has been erased before or not. -/
structure Written (w : World c) (data : List UInt8) (erased : Bool) (w' : World c) : Prop where
  kept : Kept w w'
  block : w'.block = w.block
  accesses : w'.accesses = w.accesses
  regions : ∀ i, Bitmap.Mem w'.helper.regionErased i ↔
    i = w.region ∨ Bitmap.Mem w.helper.regionErased i
  flash : w'.flash = ((if erased then w.flash else w.flash.erase
    (UF2Block.targetAddr w.block - UF2Block.targetAddr w.block % FLASH_SECTOR_SIZE)
    FLASH_SECTOR_SIZE).program (UF2Block.targetAddr w.block) data)

/-- **What `writeToFlash` does**, for a sector that has a bit in the bitmap and a payload inside
the block. -/
theorem writeToFlash_spec {w : World c} {data : List UInt8}
    (hregion : w.region / 8 < c.numRegions / 8) (hdata : UF2Block.payload w.block = some data) :
    ∃ erased w', (erased = true ↔ Bitmap.Mem w.helper.regionErased w.region) ∧
      w.writeToFlash = ((if erased then [] else [.erase
        (UF2Block.targetAddr w.block - UF2Block.targetAddr w.block % FLASH_SECTOR_SIZE)
        FLASH_SECTOR_SIZE]) ++ [.program (UF2Block.targetAddr w.block) data], some w') ∧
      Written w data erased w' := by
  obtain ⟨erased, htest, hmem⟩ := Bitmap.test_eq (b := w.helper.regionErased) hregion
  obtain ⟨map, hset, hmap⟩ := Bitmap.set_eq (b := w.helper.regionErased) hregion
  cases erased with
  | true =>
      refine ⟨true, { w with flash := w.flash.program (UF2Block.targetAddr w.block) data }, hmem,
        ?_, ⟨⟨rfl, rfl⟩, rfl, rfl, fun i => ?_, rfl⟩⟩
      · rw [writeToFlash, htest, hset]
        dsimp only
        rw [if_pos rfl, if_pos rfl, hdata]
      · exact ⟨.inr, fun h => h.elim (fun hi => hi ▸ hmem.1 rfl) id⟩
  | false =>
      refine ⟨false, { w.set fun h => { h with regionErased := map } with
        flash := (w.flash.erase
          (UF2Block.targetAddr w.block - UF2Block.targetAddr w.block % FLASH_SECTOR_SIZE)
          FLASH_SECTOR_SIZE).program (UF2Block.targetAddr w.block) data }, hmem, ?_,
        ⟨⟨rfl, rfl⟩, rfl, rfl, hmap, rfl⟩⟩
      rw [writeToFlash, htest, hset]
      dsimp only
      rw [if_neg Bool.false_ne_true, if_neg Bool.false_ne_true]
      split
      · rename_i data' hdata'
        obtain rfl : data' = data := Option.some.inj (hdata'.symm.trans hdata)
        rfl
      · rename_i hnone
        cases hnone.symm.trans hdata

end World

/-! ### What a block keeps -/

/-- The configurations in which the staging area consists of whole sectors, in groups of eight. -/
structure Setup.Regular (c : Setup) : Prop where
  aligned : FLASH_SECTOR_SIZE ∣ c.offset
  whole : 8 * FLASH_SECTOR_SIZE ∣ c.maxBinarySize
  fits : c.offset + c.maxBinarySize ≤ 2 ^ 32

theorem regular_default : Setup.default.Regular := ⟨by decide, by decide, by decide⟩

theorem sub32_add {t b : ℕ} (h : t + b < 2 ^ 32) : sub32 (t + b) b = t := by
  rw [sub32]
  omega

/-- **The place of a block that is flashed**, in a configuration that fits the memory. -/
theorem flash_spec (hfits : c.offset + c.maxBinarySize ≤ 2 ^ 32) {block : List UInt8}
    (h : verdict c block = .flash) :
    ∃ t < c.maxBinarySize, t = sub32 (UF2Block.targetAddr block) XIP_BASE ∧
      dest c block = t + c.offset ∧ (t + c.offset) % 256 = 0 ∧
      UF2Block.payloadSize block % 256 = 0 ∧ t / FLASH_SECTOR_SIZE < c.numRegions := by
  rw [verdict] at h
  split_ifs at h with hmagic hnoflash htags hrange halign hsize hregion
  rw [Nat.not_le] at hrange hregion
  rw [ne_eq, not_not] at halign hsize
  have hlt : sub32 (UF2Block.targetAddr block) XIP_BASE + c.offset < 2 ^ 32 := by omega
  have hdest : dest c block = sub32 (UF2Block.targetAddr block) XIP_BASE + c.offset :=
    Nat.mod_eq_of_lt hlt
  rw [hdest, sub32_add hlt] at hregion
  exact ⟨_, hrange, rfl, hdest, hdest ▸ halign, hsize, hregion⟩

namespace World

/-- The bitmap marks only sectors that have been erased. -/
structure Recorded (erased : List (ℕ × ℕ)) (w : World c) : Prop where
  index : w.helper.index < BLOCK_SIZE
  regions : ∀ i, Bitmap.Mem w.helper.regionErased i →
    (c.offset + i * FLASH_SECTOR_SIZE, FLASH_SECTOR_SIZE) ∈ erased

theorem payload_eq {block : List UInt8} (hlen : (UF2Block.data block).length = 476)
    (hsize : UF2Block.payloadSize block ≤ 256) :
    ∃ data, UF2Block.payload block = some data ∧ data.length = UF2Block.payloadSize block := by
  refine ⟨(UF2Block.data block).take (UF2Block.payloadSize block), if_pos (by omega), ?_⟩
  rw [List.length_take]
  omega

theorem length_data (w : World c) : (UF2Block.data w.block).length = 476 := by
  rw [UF2Block.data, block, List.length_take, List.length_drop, Buffer.length_bytes]
  rfl

/-- `writeToFlash` keeps to the staging area. -/
theorem recorded_writeToFlash (hc : c.Regular) {erased : List (ℕ × ℕ)} {w : World c} {t : ℕ}
    (h : Recorded erased w) (ht : t < c.maxBinarySize)
    (htarget : UF2Block.targetAddr w.block = t + c.offset) (halign : (t + c.offset) % 256 = 0)
    (hsize : UF2Block.payloadSize w.block ≤ 256) :
    ∃ data w', UF2Block.payload w.block = some data ∧ w.writeToFlash.2 = some w' ∧
      w'.block = w.block ∧ Allowed c erased (w.writeToFlash.1.map .op) ∧
      Recorded (erasures erased (w.writeToFlash.1.map .op)) w' := by
  obtain ⟨k, hk⟩ := hc.aligned
  obtain ⟨l, hl⟩ := hc.whole
  have hfits := hc.fits
  rw [FLASH_SECTOR_SIZE] at hk hl
  have hregion : w.region = t / FLASH_SECTOR_SIZE := by
    rw [region, htarget, sub32_add (by omega)]
  have hbit : w.region / 8 < c.numRegions / 8 := by
    rw [hregion, Setup.numRegions, FLASH_SECTOR_SIZE]
    omega
  obtain ⟨data, hdata, hlen⟩ := payload_eq w.length_data hsize
  obtain ⟨marked, w', hmarked, heq, hwritten⟩ := writeToFlash_spec hbit hdata
  -- the sector of the target is the one that the bitmap marks
  have hsector : t + c.offset - (t + c.offset) % FLASH_SECTOR_SIZE =
      c.offset + w.region * FLASH_SECTOR_SIZE := by
    rw [hregion, FLASH_SECTOR_SIZE]
    omega
  have howns : c.Owns (t + c.offset) data.length := by
    rw [Setup.Owns]
    omega
  have hinside (a : ℕ) (ha : t + c.offset ≤ a) (ha' : a < t + c.offset + data.length) :
      c.offset + w.region * FLASH_SECTOR_SIZE ≤ a ∧
        a < c.offset + w.region * FLASH_SECTOR_SIZE + FLASH_SECTOR_SIZE := by
    rw [← hsector, FLASH_SECTOR_SIZE]
    omega
  rw [htarget, hsector] at heq
  refine ⟨data, w', hdata, by rw [heq], hwritten.block, ?_⟩
  rw [heq]
  cases marked with
  | true =>
      have hmem := h.regions _ (hmarked.1 rfl)
      refine ⟨⟨howns, fun a ha ha' => ⟨_, hmem, hinside a ha ha'⟩, trivial⟩, ?_, fun i hi => ?_⟩
      · rw [hwritten.kept.index]
        exact h.index
      · rcases (hwritten.regions i).1 hi with rfl | hi
        · exact hmem
        · exact h.regions i hi
  | false =>
      have herase : c.Owns (c.offset + w.region * FLASH_SECTOR_SIZE) FLASH_SECTOR_SIZE := by
        rw [Setup.Owns, ← hsector, FLASH_SECTOR_SIZE]
        omega
      refine ⟨⟨herase, howns, fun a ha ha' => ⟨_, List.mem_cons_self, hinside a ha ha'⟩, trivial⟩,
        ?_, fun i hi => ?_⟩
      · rw [hwritten.kept.index]
        exact h.index
      · rcases (hwritten.regions i).1 hi with rfl | hi
        · exact List.mem_cons_self
        · exact List.mem_cons_of_mem _ (h.regions i hi)

theorem recorded_storePayload (hc : c.Regular) {erased : List (ℕ × ℕ)} {w : World c} {t : ℕ}
    (h : Recorded erased w) (ht : t < c.maxBinarySize)
    (htarget : UF2Block.targetAddr w.block = t + c.offset) (halign : (t + c.offset) % 256 = 0)
    (hsize : UF2Block.payloadSize w.block ≤ 256) :
    ∃ go w', (w.storePayload access).2 = some (go, w') ∧
      Allowed c erased ((w.storePayload access).1.map .op) ∧
      Recorded (erasures erased ((w.storePayload access).1.map .op)) w' := by
  have hnext : Recorded erased ({ w with accesses := w.accesses + 1 } : World c) :=
    ⟨h.index, h.regions⟩
  obtain ⟨data, w', hdata, hw', hblock, hallowed, hrecorded⟩ :=
    recorded_writeToFlash hc hnext ht htarget halign hsize
  rw [storePayload]
  cases access w.accesses with
  | refused => exact ⟨false, _, rfl, trivial, hnext⟩
  | late =>
      refine ⟨false, w', ?_, hallowed, hrecorded⟩
      rw [hw']
      rfl
  | ok =>
      refine ⟨decide (w'.flash.read (UF2Block.targetAddr w'.block) data.length = data), w', ?_,
        hallowed, hrecorded⟩
      dsimp only
      rw [hw', Option.bind_some, hblock, hdata]
      rfl

/-- **A block keeps to the staging area**, if its payload fits. -/
theorem recorded_storeBlock (access : ℕ → Access) (hc : c.Regular) {erased : List (ℕ × ℕ)}
    {w : World c} (h : Recorded erased w)
    (hfit : verdict c w.block = .flash → UF2Block.payloadSize w.block ≤ 256) :
    ∃ go w', (w.storeBlock access).2 = some (go, w') ∧
      Allowed c erased ((w.storeBlock access).1.map .op) ∧
      Recorded (erasures erased ((w.storeBlock access).1.map .op)) w' := by
  cases hverdict : verdict c w.block with
  | skip =>
      rw [storeBlock_skip hverdict]
      exact ⟨true, w, rfl, trivial, h⟩
  | refuse =>
      obtain ⟨b, hb⟩ := storeBlock_refuse hverdict
      rw [hb]
      exact ⟨false, _, rfl, trivial, h.index, h.regions⟩
  | flash =>
      rw [storeBlock_flash hverdict]
      split
      · exact ⟨false, _, rfl, trivial, h.index, h.regions⟩
      · obtain ⟨t, ht, -, hdest, halign, -, -⟩ := flash_spec hc.fits hverdict
        refine recorded_storePayload hc ⟨h.index, h.regions⟩ ht ?_ halign ?_
        · rw [aim_targetAddr, hdest]
        · exact Nat.le_trans (Nat.le_of_eq (payloadSize_setTargetAddr _ _)) (hfit hverdict)

/-! ### What a run keeps -/

theorem pend_length {w : World c} (hindex : w.helper.index < BLOCK_SIZE) :
    w.pend.length = w.helper.index := by
  rw [pend, List.length_take, Buffer.length_bytes]
  omega

/-- What is shown of a call: it returns, and it has kept to the staging area. -/
def Keeps (erased : List (ℕ × ℕ)) (r : List FlashOp × Option (Bool × World c)) : Prop :=
  ∃ go w', r.2 = some (go, w') ∧ Allowed c erased (r.1.map .op) ∧
    Recorded (erasures erased (r.1.map .op)) w'

theorem Keeps.append {erased : List (ℕ × ℕ)} {ops : List FlashOp}
    {r : List FlashOp × Option (Bool × World c)} (h : Keeps (erasures erased (ops.map .op)) r)
    (hallowed : Allowed c erased (ops.map .op)) : Keeps erased (ops ++ r.1, r.2) := by
  obtain ⟨go, w', hreturn, hallowed', hrecorded⟩ := h
  refine ⟨go, w', hreturn, ?_, ?_⟩
  · rw [List.map_append]
    exact hallowed.append hallowed'
  · rw [List.map_append, erasures_append]
    exact hrecorded

/-- The bytes of a call keep to the staging area, if the payloads of its blocks fit. -/
theorem keeps_bytes (access : ℕ → Access) (hc : c.Regular) (data : List UInt8) :
    ∀ {erased : List (ℕ × ℕ)} {w : World c}, Recorded erased w → PayloadsFit c (blocksOf w.pend data) →
      Keeps erased (returned (Chunk.ofStep (storeByte access) w data)) := by
  induction data with
  | nil => exact fun {_ w} h _ => ⟨true, w, rfl, trivial, h⟩
  | cons x data ih =>
      intro erased w h hfit
      obtain ⟨b, hb⟩ := exists_memcpy w [x] h.index
      have hpend : b.bytes.take (w.helper.index + 1) = w.pend ++ [x] := Buffer.take_memcpy hb
      rw [blocksOf, pend_length h.index] at hfit
      rcases eq_or_ne (w.helper.index + 1) BLOCK_SIZE with hfull | hpart
      · -- the byte completes a block
        have hblock :
            (w.set fun h => { h with buffer := b, index := 0 }).block = w.pend ++ [x] := by
          rw [← hpend, hfull]
          exact (List.take_of_length_le (Nat.le_of_eq b.length_bytes)).symm
        have hindex : 0 < BLOCK_SIZE := Nat.lt_of_le_of_lt (Nat.zero_le _) h.index
        rw [if_pos hfull, ← hblock, PayloadsFit] at hfit
        obtain ⟨go, w', hreturn, hallowed, hrecorded⟩ :=
          recorded_storeBlock access hc
            (w := w.set fun h => { h with buffer := b, index := 0 }) ⟨hindex, h.regions⟩ hfit.1
        have hstep := storeByte_full access hb hfull
        have hverdict := fun hrefuse => (storeBlock_refuse
          (w := w.set fun h => { h with buffer := b, index := 0 }) hrefuse).imp
            fun _ hb' => hb' access
        have hkept := storeBlock_kept hreturn
        generalize (w.set fun h => { h with buffer := b, index := 0 }).storeBlock access = r
          at hreturn hallowed hrecorded hstep hverdict
        obtain ⟨ops, out⟩ := r
        obtain rfl : out = some (go, w') := hreturn
        cases go with
        | false =>
            rw [Chunk.ofStep_cons_stop hstep]
            exact ⟨false, w', rfl, hallowed, hrecorded⟩
        | true =>
            have hpend' : w'.pend = [] := by
              rw [pend, hkept.index]
              rfl
            have hrest := ih hrecorded (hpend' ▸ hfit.2 fun hrefuse => by
              obtain ⟨b', hb'⟩ := hverdict hrefuse
              cases hb')
            rw [Chunk.ofStep_cons_go hstep, returned_append]
            exact hrest.append hallowed
      · rw [if_neg hpart, ← hpend] at hfit
        have hstep := storeByte_part access hb hpart
        rw [Chunk.ofStep_cons_go hstep, List.nil_append]
        exact ih ⟨Nat.lt_of_le_of_ne h.index hpart, h.regions⟩ hfit

/-- Every run keeps to the staging area, if the payloads fit. -/
theorem keeps_run (hc : c.Regular) (ops : List Op) : ∀ {erased : List (ℕ × ℕ)} {w : World c},
    Recorded erased w → Fits access w ops →
      (w.run access ops).2.isSome ∧ Allowed c erased (w.run access ops).1 := by
  induction ops with
  | nil => exact fun _ _ => ⟨rfl, trivial⟩
  | cons o ops ih =>
      intro erased w h hfits
      rw [run]
      cases o with
      | clear =>
          have hclear : Recorded [] w.clear := by
            refine ⟨Nat.lt_of_le_of_lt (Nat.zero_le _) h.index, fun i hi => ?_⟩
            exact absurd hi Bitmap.not_mem_zero
          obtain ⟨hsome, hallowed⟩ := ih hclear hfits
          exact ⟨hsome, hallowed⟩
      | store data =>
          obtain ⟨hfit, hrest⟩ := hfits
          have hkeeps := keeps_bytes access hc data h hfit
          rw [← storeData_eq h.index] at hkeeps
          obtain ⟨go, w', hreturn, hallowed, hrecorded⟩ := hkeeps
          obtain ⟨hsome, hallowed'⟩ := ih hrecorded (hrest go w' hreturn)
          rw [apply, hreturn]
          exact ⟨hsome, hallowed.append hallowed'⟩

theorem recorded_start (address : ℕ) (flash : Flash) : Recorded [] (start c address flash) :=
  ⟨show 0 < BLOCK_SIZE by decide, fun _ hi => absurd hi Bitmap.not_mem_zero⟩

end World

/-! ### The property of every run -/

/-- **Every run keeps to the staging area and to the blocks**: no access is outside an array, and
what is done to the flash memory is allowed. -/
theorem staging_owned (access : ℕ → Access) (address : ℕ) (flash : Flash) (ops : List Op)
    (hfits : World.Fits access (World.start Setup.default address flash) ops) :
    ((World.start Setup.default address flash).run access ops).2.isSome ∧
      Allowed Setup.default [] ((World.start Setup.default address flash).run access ops).1 :=
  World.keeps_run regular_default ops (World.recorded_start address flash) hfits

/-- A block for an address, with the payload `x`, `x`, and so on. -/
def sampleBlock (targetAddr payloadSize : ℕ) (x : UInt8) : List UInt8 :=
  Bytes.le32 UF2Block.UF2_MAGIC_START0 ++ Bytes.le32 UF2Block.UF2_MAGIC_START1 ++ Bytes.le32 0 ++
    Bytes.le32 targetAddr ++ Bytes.le32 payloadSize ++ Bytes.le32 0 ++ Bytes.le32 1 ++
    Bytes.le32 0 ++ List.replicate 476 x ++ Bytes.le32 UF2Block.UF2_MAGIC_END

theorem length_sampleBlock (targetAddr payloadSize : ℕ) (x : UInt8) :
    (sampleBlock targetAddr payloadSize x).length = BLOCK_SIZE := by
  simp only [sampleBlock, List.length_append, List.length_replicate, Bytes.le32, List.length_cons,
    List.length_nil, BLOCK_SIZE]

theorem staging_owned_example :
    ((World.start Setup.default 0 fun _ => 0).run (fun _ => .ok)
        [.store (sampleBlock XIP_BASE 256 7), .clear]).2.isSome ∧
      Allowed Setup.default [] ((World.start Setup.default 0 fun _ => 0).run (fun _ => .ok)
        [.store (sampleBlock XIP_BASE 256 7), .clear]).1 := by
  refine staging_owned (fun _ => .ok) 0 (fun _ => 0) [.store (sampleBlock XIP_BASE 256 7), .clear]
    ⟨?_, fun _ _ _ => trivial⟩
  decide +kernel

/-- **A block that announces 512 bytes has bytes behind it programmed.** -/
theorem staging_overread :
    ¬ ∀ (access : ℕ → Access) (address : ℕ) (flash : Flash) (ops : List Op),
      ((World.start Setup.default address flash).run access ops).2.isSome ∧
        Allowed Setup.default [] ((World.start Setup.default address flash).run access ops).1 := by
  intro hall
  have h := (hall (fun _ => .ok) 0 (fun _ => 0) [.store (sampleBlock XIP_BASE 512 7)]).1
  revert h
  decide +kernel

end Ota
