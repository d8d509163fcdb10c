/-
**An upload that is repeated where it fails.**

`storeData` returns `false` when `flash_safe_execute` fails, before the payload has been written or
after that.  The block can then be given to it again: `writeToFlash` of a payload that has been
written changes nothing, neither the memory nor the bitmap.  So an upload in which every block is
repeated until it is taken leaves what an upload without any failure leaves, and comes to its end if
that one does and the accesses to the memory do not fail for ever.

Main definitions:

* `Ota.World.Same` — two worlds differ in `m_buffer` and in the number of accesses at most;
* `Ota.World.Stored` — what taking a block comes to, whatever the accesses do;
* `Ota.World.Resent` — an upload whose blocks are repeated.

Main results:

* `Ota.World.writeToFlash_again` — `writeToFlash` can be repeated;
* `Ota.World.stored_of_taken`, `Ota.World.taken_of_stored`, `Ota.World.stored_of_failed`,
  `Ota.World.failed_stored` — taking a block, and failing to;
* `Ota.resent_undisturbed` — **failures cost repetitions, and nothing else**.
-/

import PicoHttps.Ota.Genuine
import PicoHttps.Ota.Install

set_option relaxedAutoImplicit false
set_option autoImplicit false

namespace Ota

variable {c : Setup} {access : ℕ → Access}

namespace World

/-! ### Worlds that differ in the buffer -/

/-- The worlds differ in what `m_buffer` holds and in how often the memory has been accessed, at
most. -/
structure Same (w v : World c) : Prop where
  address : v.helper.address = w.helper.address
  index : v.helper.index = w.helper.index
  regions : v.helper.regionErased = w.helper.regionErased
  flash : v.flash = w.flash

variable {w w' w₁ v v' : World c} {b : Buffer BLOCK_SIZE}

theorem Same.refl (w : World c) : Same w w := ⟨rfl, rfl, rfl, rfl⟩

theorem Same.symm (h : Same w v) : Same v w :=
  ⟨h.address.symm, h.index.symm, h.regions.symm, h.flash.symm⟩

theorem Same.trans {u : World c} (h : Same w v) (h' : Same v u) : Same w u :=
  ⟨h'.address.trans h.address, h'.index.trans h.index, h'.regions.trans h.regions,
    h'.flash.trans h.flash⟩

theorem Same.accesses (w : World c) (n : ℕ) : Same w { w with accesses := n } :=
  ⟨rfl, rfl, rfl, rfl⟩

/-- Such worlds are the same once a block has been received, but for the accesses. -/
theorem Same.receive (h : Same w v) (b : Buffer BLOCK_SIZE) :
    v.set (fun s => { s with buffer := b }) =
      { w.set (fun s => { s with buffer := b }) with accesses := v.accesses } := by
  obtain ⟨⟨address, buffer, map, index⟩, flash, n⟩ := w
  obtain ⟨⟨address', buffer', map', index'⟩, flash', n'⟩ := v
  obtain ⟨rfl, rfl, rfl, rfl⟩ := h
  rfl

theorem Same.upgrade (h : Same w v) : v.upgrade = w.upgrade := by
  have herase (is : List ℕ) (f : Flash) :
      eraseRegions v.helper is f = eraseRegions w.helper is f := by
    induction is generalizing f with
    | nil => rfl
    | cons i is ih =>
        rw [eraseRegions, eraseRegions, h.regions]
        simp only [ih]
  have hcopy (is : List ℕ) (f : Flash) :
      copyRegions v.helper is f = copyRegions w.helper is f := by
    induction is generalizing f with
    | nil => rfl
    | cons i is ih =>
        rw [copyRegions, copyRegions, h.regions]
        simp only [ih]
  simp only [World.upgrade, herase, hcopy, h.flash]

/-! ### Writing again -/

/-- What `writeToFlash` leaves, in one equation. -/
theorem writeToFlash_snd (w : World c) : w.writeToFlash.2 =
    (Bitmap.test w.helper.regionErased w.region).bind fun erased =>
      (Bitmap.set w.helper.regionErased w.region).bind fun map =>
        (UF2Block.payload w.block).map fun data =>
          { w with
            helper := if erased then w.helper else { w.helper with regionErased := map }
            flash := (if erased then w.flash else w.flash.erase
              (UF2Block.targetAddr w.block - UF2Block.targetAddr w.block % FLASH_SECTOR_SIZE)
              FLASH_SECTOR_SIZE).program (UF2Block.targetAddr w.block) data } := by
  rw [writeToFlash]
  cases Bitmap.test w.helper.regionErased w.region with
  | none => rfl
  | some erased =>
      cases Bitmap.set w.helper.regionErased w.region with
      | none => rfl
      | some map =>
          cases erased with
          | true =>
              dsimp only
              rw [if_pos rfl, if_pos rfl]
              cases hdata : UF2Block.payload w.block <;> rfl
          | false =>
              dsimp only
              rw [if_neg Bool.false_ne_true, if_neg Bool.false_ne_true]
              generalize hdata : UF2Block.payload _ = data
              have hdata' : UF2Block.payload w.block = data := hdata
              rw [hdata']
              cases data <;> rfl

/-- `writeToFlash` does not look at the number of accesses. -/
theorem writeToFlash_accesses (w : World c) (n : ℕ) :
    ({ w with accesses := n } : World c).writeToFlash.2 =
      w.writeToFlash.2.map fun w' => { w' with accesses := n } := by
  have hregion : ({ w with accesses := n } : World c).region = w.region := rfl
  have hblock : ({ w with accesses := n } : World c).block = w.block := rfl
  rw [writeToFlash_snd, writeToFlash_snd, hregion, hblock]
  cases Bitmap.test w.helper.regionErased w.region with
  | none => rfl
  | some erased =>
      cases Bitmap.set w.helper.regionErased w.region with
      | none => rfl
      | some map => cases UF2Block.payload w.block <;> rfl

/-- A sector that the bitmap marks is programmed without being erased. -/
theorem writeToFlash_marked {data : List UInt8}
    (htest : Bitmap.test w.helper.regionErased w.region = some true)
    (hdata : UF2Block.payload w.block = some data) :
    w.writeToFlash.2 =
      some { w with flash := w.flash.program (UF2Block.targetAddr w.block) data } := by
  have hbit : w.region / 8 < c.numRegions / 8 := by
    refine Nat.lt_of_not_le fun hle => ?_
    rw [Bitmap.test_eq_none hle] at htest
    cases htest
  obtain ⟨map, hset, -⟩ := Bitmap.set_eq (b := w.helper.regionErased) hbit
  rw [writeToFlash_snd, htest, hset, hdata]
  rfl

/-- **`writeToFlash` can be repeated**: a second time, it changes nothing. -/
theorem writeToFlash_again (h : w.writeToFlash.2 = some w₁) : w₁.writeToFlash.2 = some w₁ := by
  have hfits : w.region / 8 < c.numRegions / 8 ∧ (UF2Block.payload w.block).isSome := by
    by_contra hnot
    rw [(writeToFlash_none hnot).1] at h
    cases h
  obtain ⟨data, hdata⟩ := Option.isSome_iff_exists.1 hfits.2
  obtain ⟨erased, w₂, -, hwrite, hwritten⟩ := writeToFlash_spec hfits.1 hdata
  rw [hwrite] at h
  obtain rfl : w₂ = w₁ := Option.some.inj h
  have hregion : w₂.region = w.region := by rw [region, region, hwritten.block]
  have htest : Bitmap.test w₂.helper.regionErased w₂.region = some true := by
    obtain ⟨marked, htest, hmarked⟩ := Bitmap.test_eq (b := w₂.helper.regionErased)
      (i := w₂.region) (hregion ▸ hfits.1)
    rw [htest, hmarked.2 ((hwritten.regions _).2 (.inl hregion))]
  rw [writeToFlash_marked htest (hwritten.block.symm ▸ hdata)]
  have hsame : w₂.flash.program (UF2Block.targetAddr w₂.block) data = w₂.flash := by
    rw [hwritten.flash, hwritten.block, Flash.program_program]
  rw [hsame]

/-! ### Taking a block -/

/-- The world in which the payload of a block is written. -/
def received (w : World c) (b : Buffer BLOCK_SIZE) : World c :=
  (w.set fun s => { s with buffer := b }).aim

/-- What taking a block comes to, up to `Ota.World.Same`: it is passed over, or its payload is
written and read back. -/
def Stored (b : Buffer BLOCK_SIZE) (w w' : World c) : Prop :=
  verdict c b.bytes = .skip ∧ Same w w' ∨
  verdict c b.bytes = .flash ∧ (w.helper.address + 32) % 2 ^ 32 % 32 = 0 ∧
    ∃ w₁ data, (w.received b).writeToFlash.2 = some w₁ ∧
      UF2Block.payload b.bytes = some data ∧
      w₁.flash.read (dest c b.bytes) data.length = data ∧ Same w₁ w'

theorem Same.received (h : Same w v) (b : Buffer BLOCK_SIZE) :
    v.received b = { w.received b with accesses := v.accesses } := by
  rw [World.received, h.receive b]
  rfl

theorem Stored.congr (h : Stored b w w') (hw : Same w v) (hw' : Same w' v') : Stored b v v' := by
  rcases h with ⟨hskip, hsame⟩ | ⟨hflash, haligned, w₁, data, hwrite, hdata, hread, hsame⟩
  · exact .inl ⟨hskip, (hw.symm.trans hsame).trans hw'⟩
  · refine .inr ⟨hflash, by rw [hw.address]; exact haligned, { w₁ with accesses := v.accesses },
      data, ?_, hdata, hread, ?_⟩
    · rw [hw.received b, writeToFlash_accesses, hwrite]
      rfl
    · exact (Same.accesses w₁ _).symm.trans (hsame.trans hw')

/-- A payload that has been written is written again, when the block is repeated. -/
theorem received_again (h : (w.received b).writeToFlash.2 = some w₁) :
    w₁.received b = w₁ := by
  obtain ⟨map, flash, rfl⟩ := writeToFlash_some h
  rfl

/-- A block that passes the checks. -/
theorem takeBlock_received (hflash : verdict c b.bytes = .flash)
    (haligned : (w.helper.address + 32) % 2 ^ 32 % 32 = 0) :
    takeBlock access w b = outcome ((w.received b).storePayload access) := by
  have hverdict : verdict c (w.set fun s => { s with buffer := b }).block = .flash := hflash
  have hstore : (w.set fun s => { s with buffer := b }).storeBlock access = _ :=
    storeBlock_flash hverdict
  exact congrArg outcome (hstore.trans (if_neg (not_not.2 haligned)))

theorem payload_received : UF2Block.payload (w.received b).block = UF2Block.payload b.bytes :=
  aim_payload _

theorem targetAddr_received : UF2Block.targetAddr (w.received b).block = dest c b.bytes :=
  aim_targetAddr _

/-- **What is taken is stored.** -/
theorem stored_of_taken (h : (takeBlock access w b).2 = .inl w') : Stored b w w' := by
  cases hverdict : verdict c b.bytes with
  | skip =>
      have hskip : verdict c (w.set fun s => { s with buffer := b }).block = .skip := hverdict
      rw [takeBlock, storeBlock_skip hskip] at h
      obtain rfl := Sum.inl.inj h
      exact .inl ⟨hverdict, ⟨rfl, rfl, rfl, rfl⟩⟩
  | refuse =>
      obtain ⟨w₁, hw₁⟩ : ∃ w₁, takeBlock access w b = ([], .inr (some w₁)) :=
        takeBlock_rejected (.inl hverdict)
      rw [hw₁] at h
      cases h
  | flash =>
      have haligned : (w.helper.address + 32) % 2 ^ 32 % 32 = 0 := by
        by_contra hmisaligned
        obtain ⟨w₁, hw₁⟩ : ∃ w₁, takeBlock access w b = ([], .inr (some w₁)) :=
          takeBlock_rejected (.inr ⟨hverdict, .inl hmisaligned⟩)
        rw [hw₁] at h
        cases h
      rw [takeBlock_received hverdict haligned] at h
      have hreturn := (outcome_true _ w').1 h
      rw [storePayload] at hreturn
      cases haccess : access (w.received b).accesses with
      | refused =>
          rw [haccess] at hreturn
          cases hreturn
      | late =>
          rw [haccess] at hreturn
          obtain ⟨w₁, -, heq⟩ := Option.map_eq_some_iff.1 hreturn
          cases heq
      | ok =>
          rw [haccess] at hreturn
          obtain ⟨w₁, hwrite, hreturn⟩ := Option.bind_eq_some_iff.1 hreturn
          obtain ⟨data, hdata, heq⟩ := Option.bind_eq_some_iff.1 hreturn
          obtain ⟨hread, rfl⟩ := Prod.mk.inj (Option.some.inj heq)
          rw [writeToFlash_accesses] at hwrite
          obtain ⟨w₂, hw₂, rfl⟩ := Option.map_eq_some_iff.1 hwrite
          have hblock : w₂.block = (w.received b).block := writeToFlash_block hw₂
          change UF2Block.payload w₂.block = some data at hdata
          rw [hblock, payload_received] at hdata
          refine .inr ⟨hverdict, haligned, w₂, data, hw₂, hdata, ?_, Same.accesses w₂ _⟩
          have hread := of_decide_eq_true hread
          change w₂.flash.read (UF2Block.targetAddr w₂.block) data.length = data at hread
          rwa [hblock, targetAddr_received] at hread

/-- **What can be stored is taken**, when the access does not fail. -/
theorem taken_of_stored (h : Stored b w w')
    (hok : verdict c b.bytes = .flash → access w.accesses = .ok) :
    ∃ w'', (takeBlock access w b).2 = .inl w'' ∧ Same w' w'' := by
  rcases h with ⟨hskip, hsame⟩ | ⟨hflash, haligned, w₁, data, hwrite, hdata, hread, hsame⟩
  · have hverdict : verdict c (w.set fun s => { s with buffer := b }).block = .skip := hskip
    rw [takeBlock, storeBlock_skip hverdict]
    exact ⟨_, rfl, hsame.symm.trans ⟨rfl, rfl, rfl, rfl⟩⟩
  · have hblock : w₁.block = (w.received b).block := writeToFlash_block hwrite
    have haccess : access (w.received b).accesses = .ok := hok hflash
    rw [takeBlock_received hflash haligned, storePayload, haccess]
    dsimp only
    rw [writeToFlash_accesses, hwrite]
    refine ⟨{ w₁ with accesses := w.accesses + 1 }, ?_, hsame.symm.trans (Same.accesses w₁ _)⟩
    rw [outcome_true]
    have hpayload : UF2Block.payload w₁.block = some data := by rw [hblock, payload_received, hdata]
    have hwritten : w₁.flash.read (UF2Block.targetAddr w₁.block) data.length = data := by
      rw [hblock, targetAddr_received, hread]
    change (UF2Block.payload w₁.block).bind (fun d => some
      (decide (w₁.flash.read (UF2Block.targetAddr w₁.block) d.length = d), _)) = _
    rw [hpayload, Option.bind_some, decide_eq_true hwritten]
    rfl

/-- What can be stored is taken, when no access fails. -/
theorem taken_of_stored_ok (h : Stored b w w') :
    ∃ w'', (takeBlock (fun _ => .ok) w b).2 = .inl w'' ∧ Same w' w'' :=
  taken_of_stored h fun _ => rfl

/-- A block that passes the checks is not taken: the memory has not been accessed, or the payload
has been written. -/
theorem failed_cases (hflash : verdict c b.bytes = .flash)
    (haligned : (w.helper.address + 32) % 2 ^ 32 % 32 = 0)
    (h : (takeBlock access w b).2 = .inr (some w₁)) : w₁.accesses = w.accesses + 1 ∧
      (Same w w₁ ∨ ∃ w₂, (w.received b).writeToFlash.2 = some w₂ ∧ Same w₂ w₁) := by
  rw [takeBlock_received hflash haligned] at h
  have hreturn := (outcome_false _ w₁).1 h
  rw [storePayload] at hreturn
  have hwritten (w₂ : World c) (hw₂ : ({ w.received b with
      accesses := (w.received b).accesses + 1 } : World c).writeToFlash.2 = some w₂) :
      w₂.accesses = w.accesses + 1 ∧
        ∃ w₃, (w.received b).writeToFlash.2 = some w₃ ∧ Same w₃ w₂ := by
    rw [writeToFlash_accesses] at hw₂
    obtain ⟨w₃, hw₃, rfl⟩ := Option.map_eq_some_iff.1 hw₂
    exact ⟨rfl, w₃, hw₃, Same.accesses w₃ _⟩
  cases haccess : access (w.received b).accesses with
  | refused =>
      rw [haccess] at hreturn
      obtain ⟨-, rfl⟩ := Prod.mk.inj (Option.some.inj hreturn)
      exact ⟨rfl, .inl ⟨rfl, rfl, rfl, rfl⟩⟩
  | late =>
      rw [haccess] at hreturn
      obtain ⟨w₂, hwrite, heq⟩ := Option.map_eq_some_iff.1 hreturn
      obtain ⟨-, rfl⟩ := Prod.mk.inj heq
      exact ⟨(hwritten w₂ hwrite).1, .inr (hwritten w₂ hwrite).2⟩
  | ok =>
      rw [haccess] at hreturn
      obtain ⟨w₂, hwrite, hreturn⟩ := Option.bind_eq_some_iff.1 hreturn
      obtain ⟨data, -, heq⟩ := Option.bind_eq_some_iff.1 hreturn
      obtain ⟨-, rfl⟩ := Prod.mk.inj (Option.some.inj heq)
      exact ⟨(hwritten w₂ hwrite).1, .inr (hwritten w₂ hwrite).2⟩

/-- What a block comes to after an attempt that has failed is what it comes to. -/
theorem stored_after (hflash : verdict c b.bytes = .flash)
    (hafter : Same w w₁ ∨ ∃ w₂, (w.received b).writeToFlash.2 = some w₂ ∧ Same w₂ w₁) :
    Stored b w₁ w' ↔ Stored b w w' := by
  rcases hafter with hsame | ⟨w₂, hwrite, hsame⟩
  · exact ⟨fun h => h.congr hsame.symm (.refl w'), fun h => h.congr hsame (.refl w')⟩
  · -- the payload is in the memory, and writing it again leaves it there
    have hagain : (w₂.received b).writeToFlash.2 = some w₂ := by
      rw [received_again hwrite, writeToFlash_again hwrite]
    have haddress : w₂.helper.address = w.helper.address := (writeToFlash_kept hwrite).address
    have hstored (u : World c) (hu : (u.received b).writeToFlash.2 = some w₂)
        (hadr : u.helper.address = w.helper.address) : Stored b u w' ↔
          (w.helper.address + 32) % 2 ^ 32 % 32 = 0 ∧ ∃ data,
            UF2Block.payload b.bytes = some data ∧
            w₂.flash.read (dest c b.bytes) data.length = data ∧ Same w₂ w' := by
      constructor
      · rintro (⟨hskip, -⟩ | ⟨-, haligned, w₃, data, hw₃, hdata, hread, hsame'⟩)
        · rw [hflash] at hskip
          cases hskip
        · obtain rfl : w₂ = w₃ := Option.some.inj (hu.symm.trans hw₃)
          exact ⟨hadr ▸ haligned, data, hdata, hread, hsame'⟩
      · rintro ⟨haligned, data, hdata, hread, hsame'⟩
        exact .inr ⟨hflash, hadr ▸ haligned, w₂, data, hu, hdata, hread, hsame'⟩
    have hcongr : Stored b w₁ w' ↔ Stored b w₂ w' :=
      ⟨fun h => h.congr hsame.symm (.refl w'), fun h => h.congr hsame (.refl w')⟩
    rw [hcongr, hstored w₂ hagain haddress, hstored w hwrite rfl]

theorem taken_skip {out : Option (World c)} (hskip : verdict c b.bytes = .skip) :
    (takeBlock access w b).2 ≠ .inr out := by
  intro h
  obtain ⟨w₁, hw₁⟩ := takeBlock_skip access w hskip
  rw [hw₁] at h
  cases h

/-- **Failing does not spoil what is to be stored**: after an attempt at it the block can still be
stored, with what it comes to. -/
theorem stored_of_failed {out : Option (World c)} (h : Stored b w w')
    (hfailed : (takeBlock access w b).2 = .inr out) : access w.accesses ≠ .ok ∧
      ∃ w₁, out = some w₁ ∧ w₁.accesses = w.accesses + 1 ∧ Stored b w₁ w' := by
  obtain ⟨hflash, haligned⟩ : verdict c b.bytes = .flash ∧
      (w.helper.address + 32) % 2 ^ 32 % 32 = 0 := by
    rcases h with ⟨hskip, -⟩ | ⟨hflash, haligned, -⟩
    · exact absurd hfailed (taken_skip hskip)
    · exact ⟨hflash, haligned⟩
  have haccess : access w.accesses ≠ .ok := by
    intro hok
    obtain ⟨w'', htaken, -⟩ := taken_of_stored h fun _ => hok
    rw [htaken] at hfailed
    cases hfailed
  refine ⟨haccess, ?_⟩
  cases out with
  | some w₁ =>
      obtain ⟨hn, hafter⟩ := failed_cases hflash haligned hfailed
      exact ⟨w₁, rfl, hn, (stored_after hflash hafter).2 h⟩
  | none =>
      -- the payload is written, or nothing is done
      rcases h with ⟨hskip, -⟩ | ⟨-, -, w₁, data, hwrite, -⟩
      · exact absurd hfailed (taken_skip hskip)
      · rw [takeBlock_received hflash haligned] at hfailed
        have hnone := (outcome_none _).1 hfailed
        rw [storePayload] at hnone
        cases hrun : access (w.received b).accesses with
        | ok => exact absurd hrun haccess
        | refused =>
            rw [hrun] at hnone
            cases hnone
        | late =>
            rw [hrun] at hnone
            have hwritten := Option.map_eq_none_iff.1 hnone
            rw [writeToFlash_accesses, hwrite] at hwritten
            cases hwritten

/-- A block that is stored after a failure could have been stored before it. -/
theorem failed_stored (hfailed : (takeBlock access w b).2 = .inr (some w₁))
    (h : Stored b w₁ w') : Stored b w w' := by
  have hkept : Kept (w.set fun s => { s with buffer := b }) w₁ :=
    storeBlock_kept ((outcome_false _ w₁).1 hfailed)
  have haddress : w₁.helper.address = w.helper.address := hkept.address
  rcases h with ⟨hskip, -⟩ | ⟨hflash, haligned, hrest⟩
  · exact absurd hfailed (taken_skip hskip)
  · obtain ⟨-, hafter⟩ := failed_cases hflash (haddress ▸ haligned) hfailed
    exact (stored_after hflash hafter).1 (.inr ⟨hflash, haligned, hrest⟩)

theorem Stored.index (h : Stored b w w') : w'.helper.index = w.helper.index := by
  rcases h with ⟨-, hsame⟩ | ⟨-, -, w₁, data, hwrite, -, -, hsame⟩
  · exact hsame.index
  · exact hsame.index.trans (writeToFlash_kept hwrite).index

theorem failed_index (hfailed : (takeBlock access w b).2 = .inr (some w₁)) :
    w₁.helper.index = w.helper.index :=
  (storeBlock_kept ((outcome_false _ w₁).1 hfailed)).index

/-! ### Taking all the blocks -/

/-- What taking blocks comes to. -/
def StoredAll : List (Buffer BLOCK_SIZE) → World c → World c → Prop
  | [], w, w' => Same w w'
  | b :: bs, w, w' => ∃ w₁, Stored b w w₁ ∧ StoredAll bs w₁ w'

/-- **An upload whose blocks are repeated**: each is given to `storeData` in a call of its own,
again and again until the call returns `true`. -/
inductive Resent (access : ℕ → Access) : World c → List (Buffer BLOCK_SIZE) → World c → Prop
  | nil (w : World c) : Resent access w [] w
  | again {w w₁ w' : World c} {b : Buffer BLOCK_SIZE} {bs : List (Buffer BLOCK_SIZE)} :
      (w.storeData access b.bytes).2 = some (false, w₁) → Resent access w₁ (b :: bs) w' →
        Resent access w (b :: bs) w'
  | next {w w₁ w' : World c} {b : Buffer BLOCK_SIZE} {bs : List (Buffer BLOCK_SIZE)} :
      (w.storeData access b.bytes).2 = some (true, w₁) → Resent access w₁ bs w' →
        Resent access w (b :: bs) w'

theorem StoredAll.congr {bs : List (Buffer BLOCK_SIZE)} : ∀ {w v w' : World c},
    StoredAll bs w w' → Same w v → StoredAll bs v w' := by
  induction bs with
  | nil => exact fun h hw => hw.symm.trans h
  | cons b bs ih =>
      rintro w v w' ⟨w₁, hstored, hrest⟩ hw
      exact ⟨w₁, hstored.congr hw (.refl w₁), hrest⟩

/-- A call for a whole block. -/
theorem storeData_block (hindex : w.helper.index = 0) (b : Buffer BLOCK_SIZE) :
    w.storeData access b.bytes = returned (takeBlock access w b) := by
  rw [storeData_eq (by rw [hindex]; decide), ofStep_block access hindex]

theorem storeData_true (hindex : w.helper.index = 0) :
    (w.storeData access b.bytes).2 = some (true, w₁) ↔ (takeBlock access w b).2 = .inl w₁ := by
  rw [storeData_block hindex]
  obtain ⟨ops, w₂ | _ | w₂⟩ := takeBlock access w b <;> simp [returned]

theorem storeData_false (hindex : w.helper.index = 0) :
    (w.storeData access b.bytes).2 = some (false, w₁) ↔
      (takeBlock access w b).2 = .inr (some w₁) := by
  rw [storeData_block hindex]
  obtain ⟨ops, w₂ | _ | w₂⟩ := takeBlock access w b <;> simp [returned]

/-- **A repeated upload stores its blocks.** -/
theorem storedAll_of_resent {bs : List (Buffer BLOCK_SIZE)} (h : Resent access w bs w')
    (hindex : w.helper.index = 0) : StoredAll bs w w' := by
  induction h with
  | nil w => exact Same.refl w
  | again hfailed _ ih =>
      rw [storeData_false hindex] at hfailed
      obtain ⟨w₂, hstored, hrest⟩ := ih ((failed_index hfailed).trans hindex)
      exact ⟨w₂, failed_stored hfailed hstored, hrest⟩
  | next htaken _ ih =>
      rw [storeData_true hindex] at htaken
      have hstored := stored_of_taken htaken
      exact ⟨_, hstored, ih (hstored.index.trans hindex)⟩

/-- A block is taken after some attempts, if an access at or after the next one does not fail. -/
theorem resent_block {bs : List (Buffer BLOCK_SIZE)} (n : ℕ) : ∀ {w : World c},
    w.helper.index = 0 → Stored b w w' → access (w.accesses + n) = .ok →
      (∀ w'' : World c, Same w' w'' → ∃ v, Resent access w'' bs v ∧ Same v' v) →
        ∃ v, Resent access w (b :: bs) v ∧ Same v' v := by
  induction n with
  | zero =>
      intro w hindex hstored hok hrest
      obtain ⟨w'', htaken, hsame⟩ := taken_of_stored hstored fun _ => hok
      obtain ⟨v, hresent, hv⟩ := hrest w'' hsame
      exact ⟨v, .next ((storeData_true hindex).2 htaken) hresent, hv⟩
  | succ n ih =>
      intro w hindex hstored hok hrest
      rcases htake : (takeBlock access w b).2 with w₁ | out
      · -- it is taken at once
        have hnow := stored_of_taken htake
        obtain ⟨w₂, htaken, hsame⟩ := taken_of_stored_ok hstored
        obtain ⟨w₃, htaken', hsame'⟩ := taken_of_stored_ok hnow
        obtain rfl : w₂ = w₃ := Sum.inl.inj (htaken.symm.trans htaken')
        obtain ⟨v, hresent, hv⟩ := hrest w₁ (hsame.trans hsame'.symm)
        exact ⟨v, .next ((storeData_true hindex).2 htake) hresent, hv⟩
      · obtain ⟨-, w₁, rfl, hn, hafter⟩ := stored_of_failed hstored htake
        have hok' : access (w₁.accesses + n) = .ok := by
          rw [hn, Nat.add_assoc, Nat.add_comm 1]
          exact hok
        obtain ⟨v, hresent, hv⟩ := ih ((failed_index htake).trans hindex) hafter hok' hrest
        exact ⟨v, .again ((storeData_false hindex).2 htake) hresent, hv⟩

/-- **What can be stored is stored by a repeated upload**, if the accesses do not fail for ever. -/
theorem resent_of_storedAll (hfair : ∀ n, ∃ m, n ≤ m ∧ access m = .ok)
    (bs : List (Buffer BLOCK_SIZE)) : ∀ {w : World c}, w.helper.index = 0 → StoredAll bs w w' →
      ∃ v, Resent access w bs v ∧ Same w' v := by
  induction bs with
  | nil => exact fun {w} _ hsame => ⟨w, .nil w, hsame.symm⟩
  | cons b bs ih =>
      rintro w hindex ⟨w₁, hstored, hrest⟩
      obtain ⟨m, hle, hok⟩ := hfair w.accesses
      refine resent_block (m - w.accesses) hindex hstored ?_ fun w'' hsame => ?_
      · rwa [Nat.add_sub_cancel' hle]
      · refine ih ?_ (hrest.congr hsame)
        rw [hsame.index, hstored.index, hindex]

/-- Blocks that are taken one after the other are stored. -/
theorem storedAll_of_take (bs : List (Buffer BLOCK_SIZE)) : ∀ {w w' : World c} {ops : List FlashOp},
    Chunk.ofStep (takeBlock access) w bs = (ops, .inl w') → StoredAll bs w w' := by
  induction bs with
  | nil =>
      intro w w' ops h
      cases h
      exact Same.refl w
  | cons b bs ih =>
      intro w w' ops h
      rcases htake : takeBlock access w b with ⟨ops', w₁ | out⟩
      · rw [Chunk.ofStep_cons_go htake] at h
        exact ⟨w₁, stored_of_taken (congrArg Prod.snd htake), ih (Prod.ext rfl (Prod.mk.inj h).2)⟩
      · rw [Chunk.ofStep_cons_stop htake] at h
        cases h

/-- Blocks that can be stored are taken, when no access fails. -/
theorem take_of_storedAll (bs : List (Buffer BLOCK_SIZE)) : ∀ {w : World c}, StoredAll bs w w' →
    ∃ ops w'', Chunk.ofStep (takeBlock fun _ => .ok) w bs = (ops, .inl w'') ∧ Same w' w'' := by
  induction bs with
  | nil => exact fun {w} hsame => ⟨[], w, rfl, hsame.symm⟩
  | cons b bs ih =>
      rintro w ⟨w₁, hstored, hrest⟩
      obtain ⟨w₂, htaken, hsame⟩ := taken_of_stored_ok hstored
      obtain ⟨ops, w'', h, hsame'⟩ := ih (hrest.congr hsame)
      rw [Chunk.ofStep_cons_go (Prod.ext rfl htaken : takeBlock _ w b = (_, .inl w₂)), h]
      exact ⟨_, w'', rfl, hsame'⟩

end World

/-! ### The property -/

/-- **Failures cost repetitions, and nothing else**: a repeated upload leaves the memory, the bitmap
and the result of the upgrade that an upload without failures leaves, in any chunks; and it comes to
its end if that one does and the accesses do not fail for ever. -/
theorem resent_undisturbed (access : ℕ → Access) (w : World c) (hindex : w.helper.index = 0)
    (blocks : List (Buffer BLOCK_SIZE)) (chunks : List (List UInt8))
    (hchunks : chunks.flatten = blocks.flatMap Buffer.bytes) :
    (∀ w', World.Resent access w blocks w' → ∃ w'', w.storeAll (fun _ => .ok) chunks = some w'' ∧
      World.Same w' w'' ∧ w''.upgrade = w'.upgrade) ∧
    ((∀ n, ∃ m, n ≤ m ∧ access m = .ok) →
      ∀ w'', w.storeAll (fun _ => .ok) chunks = some w'' →
        ∃ w', World.Resent access w blocks w' ∧ World.Same w'' w' ∧ w'.upgrade = w''.upgrade) := by
  have hstore (w'' : World c) : w.storeAll (fun _ => .ok) chunks = some w'' ↔
      ∃ ops, Chunk.ofStep (World.takeBlock fun _ => .ok) w blocks = (ops, .inl w'') := by
    rw [World.storeAll_iff chunks (by rw [hindex]; decide), hchunks,
      World.ofStep_blocks blocks hindex]
  constructor
  · intro w' hresent
    obtain ⟨ops, w'', htake, hsame⟩ := World.take_of_storedAll blocks
      (World.storedAll_of_resent hresent hindex)
    exact ⟨w'', (hstore w'').2 ⟨ops, htake⟩, hsame, hsame.upgrade⟩
  · intro hfair w'' hstored
    obtain ⟨ops, htake⟩ := (hstore w'').1 hstored
    obtain ⟨w', hresent, hsame⟩ := World.resent_of_storedAll hfair blocks hindex
      (World.storedAll_of_take blocks htake)
    exact ⟨w', hresent, hsame, hsame.upgrade⟩

/-- A block that is given to `storeData` three times: after it has been written the access fails,
then it is refused. -/
theorem resent_undisturbed_example : ∃ w', World.Resent
    (fun n => if n = 0 then .late else if n = 1 then .refused else .ok)
    (World.start Setup.default 0 fun _ => 0)
    [⟨sampleBlock XIP_BASE 256 7, length_sampleBlock ..⟩] w' := by
  have hsome : ((World.start Setup.default 0 fun _ => 0).storeAll (fun _ => .ok)
      [sampleBlock XIP_BASE 256 7]).isSome := by
    decide +kernel
  obtain ⟨w'', hstored⟩ := Option.isSome_iff_exists.1 hsome
  obtain ⟨w', hresent, -⟩ := (resent_undisturbed
    (fun n => if n = 0 then .late else if n = 1 then .refused else .ok)
    (World.start Setup.default 0 fun _ => 0) rfl
    [⟨sampleBlock XIP_BASE 256 7, length_sampleBlock ..⟩] [sampleBlock XIP_BASE 256 7]
    rfl).2 (fun n => ⟨n + 2, by omega, by rw [if_neg (by omega), if_neg (by omega)]⟩) w'' hstored
  exact ⟨w', hresent⟩

end Ota
