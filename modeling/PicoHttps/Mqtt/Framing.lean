/-
**Sending keeps packet framing.**

Everything that the handler hands to its downstream, put together, is a sequence of complete
packets, followed by at most one PUBLISH whose last bytes are still owed; their number is what
`m_pendingSendDataLen` says.

Main definitions:

* `Mqtt.Packet.Whole` — a complete packet with a remaining length of one to four bytes;
* `Mqtt.Framed` — complete packets, and a PUBLISH that lacks a number of bytes;
* `Mqtt.SendOp.Valid` — the calls with arguments as the handler expects them.

Main results:

* `Mqtt.writeHeader_spec` — the header that is written announces the size it was given;
* `Mqtt.World.sendConnect_spec`, `Mqtt.World.sendSubscribe_spec`,
  `Mqtt.World.sendPublishHeader_spec`, `Mqtt.World.sendPing_spec`,
  `Mqtt.World.sendPublishData_spec` — what an operation hands over;
* `Mqtt.World.step_framed`, `Mqtt.World.runOps_framed` — **every run keeps the framing**.
-/

import PicoHttps.Mqtt.Send
import PicoHttps.Mqtt.Packets

set_option relaxedAutoImplicit false
set_option autoImplicit false

namespace Mqtt

/-! ### Writing -/

section writing

variable {n : ℕ} {c : Buffer.Cursor n} {xs : List UInt8}

theorem writeGroup_zero {m s : ℕ} (h : m >>> s = 0) : writeGroup m s c = some c :=
  if_neg (by omega)

theorem writeGroup_spec (xs : List UInt8) (y : UInt8) (hc : c.Filled (xs ++ [y]))
    (hroom : xs.length + 1 < n) {m s : ℕ} (h : 0 < m >>> s) :
    ∃ c', writeGroup m s c = some c' ∧ c'.Filled (xs ++ [y ||| 0x80] ++ [Varint.group m s]) := by
  obtain ⟨c₁, hor, h₁⟩ := hc.orLast 0x80
  obtain ⟨c₂, hput, h₂⟩ := h₁.put (by simpa using hroom) (Varint.group m s)
  refine ⟨c₂, ?_, h₂⟩
  rw [writeGroup, if_pos h, hor]
  exact hput

/-- The bytes `f` are the first `k + 1` groups of `m`, as far as there are as many. -/
structure Groups (m k : ℕ) (f : List UInt8) : Prop where
  complete : Varint.Complete f
  value_eq : Varint.value f = m % 2 ^ (7 * (k + 1))
  length_le : f.length ≤ k + 1
  length_eq : 0 < m / 2 ^ (7 * (k + 1)) → f.length = k + 1

/-- A continuation of the remaining length, or none where the number has ended. -/
theorem writeGroup_groups {messageType : UInt8} {m k : ℕ} {f : List UInt8}
    (hc : c.Filled (messageType :: f)) (hf : Groups m k f) (hroom : k + 3 ≤ n) :
    ∃ c' f', writeGroup m (7 * (k + 1)) c = some c' ∧ c'.Filled (messageType :: f') ∧
      Groups m (k + 1) f' := by
  obtain ⟨hcomplete, hvalue, hle, hlen⟩ := hf
  have hshift : m >>> (7 * (k + 1)) = m / 2 ^ (7 * (k + 1)) := Nat.shiftRight_eq_div_pow _ _
  have hpow : 2 ^ (7 * (k + 1 + 1)) = 2 ^ (7 * (k + 1)) * 128 := by
    rw [show 7 * (k + 1 + 1) = 7 * (k + 1) + 7 by omega, Nat.pow_add]
  have hdiv : m / 2 ^ (7 * (k + 1 + 1)) = m / 2 ^ (7 * (k + 1)) / 128 := by
    rw [hpow, Nat.div_div_eq_div_mul]
  have hmod : m % 2 ^ (7 * (k + 1 + 1)) =
      m % 2 ^ (7 * (k + 1)) + 2 ^ (7 * (k + 1)) * (m / 2 ^ (7 * (k + 1)) % 128) := by
    rw [hpow, Nat.mod_mul]
  rcases Nat.eq_zero_or_pos (m / 2 ^ (7 * (k + 1))) with hzero | hpos
  · refine ⟨c, f, writeGroup_zero (hshift.trans hzero), hc, hcomplete, ?_, by omega, ?_⟩
    · rw [hmod, hvalue, hzero]
      simp
    · rw [hdiv, hzero]
      simp
  · have hfull := hlen hpos
    obtain ⟨init, last, rfl⟩ := hcomplete.exists_concat
    rw [List.length_append, List.length_singleton] at hfull
    obtain ⟨hcomplete', hvalue'⟩ :=
      hcomplete.concat (Varint.group_and m (7 * (k + 1)))
    obtain ⟨c', hwrite, hc'⟩ := writeGroup_spec (messageType :: init) last hc
      (by simp; omega) (show 0 < m >>> (7 * (k + 1)) by omega)
    refine ⟨c', init ++ [last ||| 0x80] ++ [Varint.group m (7 * (k + 1))], hwrite,
      by simpa using hc', hcomplete', ?_, by simp; omega, fun _ => by simp; omega⟩
    rw [hvalue', hvalue, hmod, Varint.toNat_group, Nat.mod_mod,
      show init.length + 1 = k + 1 by omega]

/-- **The header that is written announces the size it was given.** -/
theorem writeHeader_spec (messageType : UInt8) (m : ℕ) (buffer : Buffer n)
    (bufferSize laterBytes : ℕ) (hm : m < 2 ^ 28) (hn : 5 ≤ n)
    (hsize : (m + 2 ^ 32 - laterBytes + 5) % 2 ^ 32 ≤ bufferSize) :
    ∃ c f, writeHeader messageType m buffer bufferSize laterBytes = some (some c) ∧
      c.Filled (messageType :: f) ∧ Varint.Complete f ∧ f.length ≤ 4 ∧ Varint.value f = m := by
  have hshift : m >>> 28 = 0 := by rw [Nat.shiftRight_eq_div_pow]; omega
  obtain ⟨c₀, hput, h₀⟩ := (Buffer.Cursor.filled_start buffer).put (by simp; omega) messageType
  obtain ⟨c₁, hput₁, h₁⟩ := h₀.put (by simp; omega) (Varint.group m 0)
  have hgroups : Groups m 0 [Varint.group m 0] := by
    refine ⟨Varint.group_and m 0, ?_, by simp, fun _ => rfl⟩
    rw [Varint.value_cons, Varint.toNat_group]
    simp
  obtain ⟨c₂, f₂, hw₂, h₂, hg₂⟩ := writeGroup_groups h₁ hgroups (by omega)
  obtain ⟨c₃, f₃, hw₃, h₃, hg₃⟩ := writeGroup_groups h₂ hg₂ (by omega)
  obtain ⟨c₄, f₄, hw₄, h₄, hg₄⟩ := writeGroup_groups h₃ hg₃ (by omega)
  refine ⟨c₄, f₄, ?_, h₄, hg₄.complete, hg₄.length_le, ?_⟩
  · rw [writeHeader, if_neg (by omega), if_neg (by omega)]
    simp only [hput, hput₁, Option.bind_eq_bind, Option.bind_some]
    simp only [Nat.zero_add, Nat.reduceAdd, Nat.reduceMul] at hw₂ hw₃ hw₄
    rw [hw₂, Option.bind_some, hw₃, Option.bind_some, hw₄]
    rfl
  · rw [hg₄.value_eq]
    omega

/-- A size that does not fit four groups is refused. -/
theorem writeHeader_none (messageType : UInt8) {m : ℕ} (buffer : Buffer n)
    {bufferSize laterBytes : ℕ} (hm : 2 ^ 28 ≤ m) :
    writeHeader messageType m buffer bufferSize laterBytes = some none := by
  have hshift : m >>> 28 > 0 := by rw [Nat.shiftRight_eq_div_pow]; omega
  rw [writeHeader, if_pos hshift]
  split <;> rfl

/-- A header that has been written announces the size it was given. -/
theorem writeHeader_some {messageType : UInt8} {m : ℕ} {buffer : Buffer n}
    {bufferSize laterBytes : ℕ} (hn : 5 ≤ n)
    (h : writeHeader messageType m buffer bufferSize laterBytes = some (some c)) :
    ∃ f, c.Filled (messageType :: f) ∧ Varint.Complete f ∧ f.length ≤ 4 ∧ Varint.value f = m := by
  have hsize : (m + 2 ^ 32 - laterBytes + 5) % 2 ^ 32 ≤ bufferSize := by
    by_contra hlarge
    rw [writeHeader, if_pos (by omega)] at h
    cases h
  have hm : m < 2 ^ 28 := by
    by_contra hlarge
    rw [writeHeader_none _ _ (by omega)] at h
    cases h
  obtain ⟨c', f, hwrite, hspec⟩ :=
    writeHeader_spec messageType m buffer bufferSize laterBytes hm hn hsize
  obtain rfl : c = c' := Option.some.inj (Option.some.inj (h.symm.trans hwrite))
  exact ⟨f, hspec⟩

/-- A string with its length before it. -/
def stringBytes (s : List UInt8) : List UInt8 :=
  Bytes.byte s.length 8 :: Bytes.byte s.length 0 :: s

theorem length_stringBytes (s : List UInt8) : (stringBytes s).length = s.length + 2 := rfl

theorem writeString_spec (hc : c.Filled xs) (s : List UInt8)
    (hroom : xs.length + (2 + s.length) ≤ n) :
    ∃ c', writeString s s.length c = some c' ∧ c'.Filled (xs ++ stringBytes s) := by
  obtain ⟨c₁, hput₁, h₁⟩ := hc.put (by omega) (Bytes.byte s.length 8)
  obtain ⟨c₂, hput₂, h₂⟩ := h₁.put (by simp; omega) (Bytes.byte s.length 0)
  obtain ⟨c₃, hcopy, h₃⟩ := h₂.copy s (by simp; omega)
  refine ⟨c₃, ?_, by simpa [stringBytes] using h₃⟩
  rw [writeString, hput₁]
  simp only [Option.bind_eq_bind, Option.bind_some, hput₂, List.take_length]
  exact hcopy

theorem writeStrings_spec {ss : List (List UInt8)} : ∀ {c : Buffer.Cursor n} {xs : List UInt8},
    c.Filled xs → (∀ s ∈ ss, s.length < 2 ^ 16) →
    xs.length + (ss.flatMap stringBytes).length ≤ n →
      ∃ c', World.writeStrings ss c = some c' ∧ c'.Filled (xs ++ ss.flatMap stringBytes) := by
  induction ss with
  | nil => intro c xs hc _ _; exact ⟨c, rfl, by simpa using hc⟩
  | cons s ss ih =>
      intro c xs hc hss hroom
      have hs := hss s List.mem_cons_self
      rw [List.flatMap_cons, List.length_append, length_stringBytes] at hroom
      obtain ⟨c₁, hw₁, h₁⟩ := writeString_spec hc s (by omega)
      obtain ⟨c₂, hw₂, h₂⟩ := ih h₁ (fun t ht => hss t (List.mem_cons_of_mem s ht))
        (by rw [List.length_append, length_stringBytes]; omega)
      refine ⟨c₂, ?_, by simpa using h₂⟩
      rw [World.writeStrings, Nat.mod_eq_of_lt hs, hw₁]
      exact hw₂

/-- As much of a string as its length says when it is stored as a `uint16_t`. -/
theorem length_take_mod (s : List UInt8) :
    (s.take (s.length % 2 ^ 16)).length = s.length % 2 ^ 16 := by
  rw [List.length_take]
  exact Nat.min_eq_left (Nat.mod_le _ _)

/-- No more is written of the strings. -/
theorem writeStrings_take {ss : List (List UInt8)} : ∀ {c : Buffer.Cursor n},
    World.writeStrings (ss.map fun s => s.take (s.length % 2 ^ 16)) c =
      World.writeStrings ss c := by
  induction ss with
  | nil => intro c; rfl
  | cons s ss ih =>
      intro c
      have hwrite : writeString (s.take (s.length % 2 ^ 16)) (s.length % 2 ^ 16) c =
          writeString s (s.length % 2 ^ 16) c := by
        rw [writeString, writeString, List.take_take, Nat.min_self]
      rw [List.map_cons, World.writeStrings, World.writeStrings, length_take_mod, Nat.mod_mod,
        hwrite]
      cases writeString s (s.length % 2 ^ 16) c with
      | none => rfl
      | some c => exact ih

/-- A string that has been written stands behind the others. -/
theorem writeString_filled {c' : Buffer.Cursor n} {s : List UInt8} (hc : c.Filled xs)
    (h : writeString s s.length c = some c') : c'.Filled (xs ++ stringBytes s) := by
  rw [writeString, List.take_length] at h
  obtain ⟨c₁, hput₁, h⟩ := Option.bind_eq_some_iff.1 h
  obtain ⟨c₂, hput₂, hcopy⟩ := Option.bind_eq_some_iff.1 h
  have h₂ := ((hc.of_put hput₁).of_put hput₂).of_copy hcopy
  rw [List.append_assoc, List.append_assoc] at h₂
  exact h₂

theorem writeStrings_filled {ss : List (List UInt8)} : ∀ {c c' : Buffer.Cursor n}
    {xs : List UInt8}, c.Filled xs → (∀ s ∈ ss, s.length < 2 ^ 16) →
      World.writeStrings ss c = some c' → c'.Filled (xs ++ ss.flatMap stringBytes) := by
  induction ss with
  | nil =>
      intro c c' xs hc _ h
      cases h
      rwa [List.flatMap_nil, List.append_nil]
  | cons s ss ih =>
      intro c c' xs hc hss h
      obtain ⟨c₁, hwrite, hrest⟩ := Option.bind_eq_some_iff.1 h
      rw [Nat.mod_eq_of_lt (hss s List.mem_cons_self)] at hwrite
      have h₁ := writeString_filled hc hwrite
      rw [List.flatMap_cons, ← List.append_assoc]
      exact ih h₁ (fun t ht => hss t (List.mem_cons_of_mem s ht)) hrest

end writing

/-! ### Framed bytes -/

namespace Packet

/-- A remaining length of one to four bytes, and a body of which `lack` bytes are missing. -/
structure Lacks (p : Packet) (lack : ℕ) : Prop where
  complete : Varint.Complete p.lengthField
  length_le : p.lengthField.length ≤ 4
  length_body : p.body.length + lack = p.declared

/-- A complete packet. -/
abbrev Whole (p : Packet) : Prop := p.Lacks 0

end Packet

/-- Complete packets, followed by a PUBLISH of which `lack` bytes are missing; where none are,
by nothing. -/
inductive Framed : List UInt8 → ℕ → Prop
  | whole (ps : List Packet) (hps : ∀ p ∈ ps, p.Whole) : Framed (ps.flatMap Packet.bytes) 0
  | unfinished (ps : List Packet) (hps : ∀ p ∈ ps, p.Whole) (q : Packet) (hq : q.IsPublish)
      {lack : ℕ} (hlack : q.Lacks lack) (hpos : 0 < lack) :
      Framed (ps.flatMap Packet.bytes ++ q.bytes) lack

/-- What one operation hands over when `lack` bytes are missing, and the number that is missing
afterwards: nothing; a complete packet, or the beginning of a PUBLISH, when none are missing;
bytes of the body, and a packet after the last of them. -/
inductive Hands : ℕ → List (List UInt8) → ℕ → Prop
  | nothing (lack : ℕ) : Hands lack [] lack
  | packet (p : Packet) (hp : p.Whole) : Hands 0 [p.bytes] 0
  | publish (q : Packet) (hq : q.IsPublish) {lack : ℕ} (hlack : q.Lacks lack) :
      Hands 0 [q.bytes] lack
  | data (data : List UInt8) (lack : ℕ) : Hands (data.length + lack) [data] lack
  | dataPacket (data : List UInt8) (p : Packet) (hp : p.Whole) :
      Hands data.length [data, p.bytes] 0

namespace Framed

variable {bs : List UInt8} {lack : ℕ}

theorem nil : Framed [] 0 := .whole [] (by simp)

theorem packet (h : Framed bs 0) {p : Packet} (hp : p.Whole) : Framed (bs ++ p.bytes) 0 := by
  cases h with
  | whole ps hps =>
      have hps' : ∀ q ∈ ps ++ [p], q.Whole := by
        intro q hq
        rcases List.mem_append.1 hq with hq | hq
        · exact hps q hq
        · exact List.mem_singleton.1 hq ▸ hp
      simpa using whole (ps ++ [p]) hps'
  | unfinished ps hps q hq hlack hpos => exact absurd hpos (Nat.lt_irrefl 0)

theorem publish (h : Framed bs 0) {q : Packet} (hq : q.IsPublish) (hlack : q.Lacks lack) :
    Framed (bs ++ q.bytes) lack := by
  rcases Nat.eq_zero_or_pos lack with rfl | hpos
  · exact h.packet hlack
  · cases h with
    | whole ps hps => exact unfinished ps hps q hq hlack hpos
    | unfinished ps hps q' hq' hlack' hpos' => exact absurd hpos' (Nat.lt_irrefl 0)

/-- Bytes of the body are appended to the packet that lacks them. -/
theorem data {data : List UInt8} (h : Framed bs (data.length + lack)) :
    Framed (bs ++ data) lack := by
  generalize hn : data.length + lack = n at h
  cases h with
  | whole ps hps =>
      obtain rfl : data = [] := List.eq_nil_of_length_eq_zero (by omega)
      obtain rfl : lack = 0 := by omega
      simpa using whole ps hps
  | unfinished ps hps q hq hlack hpos =>
      obtain ⟨hcomplete, hle, hbody⟩ := hlack
      have hlack' : (⟨q.first, q.lengthField, q.body ++ data⟩ : Packet).Lacks lack := by
        refine ⟨hcomplete, hle, ?_⟩
        rw [List.length_append, Nat.add_assoc, hn]
        exact hbody
      have hbytes : ps.flatMap Packet.bytes ++ q.bytes ++ data = ps.flatMap Packet.bytes ++
          (⟨q.first, q.lengthField, q.body ++ data⟩ : Packet).bytes := by
        simp [Packet.bytes]
      rw [hbytes]
      exact (whole ps hps).publish hq hlack'

/-- **What an operation hands over keeps the framing.** -/
theorem hands {out : List (List UInt8)} {lack' : ℕ} (h : Framed bs lack)
    (hout : Hands lack out lack') : Framed (bs ++ out.flatten) lack' := by
  cases hout with
  | nothing => simpa using h
  | packet p hp => simpa using h.packet hp
  | publish q hq hlack => simpa using h.publish hq hlack
  | data data => simpa using h.data
  | dataPacket data p hp =>
      have hdata : Framed (bs ++ data) 0 := data.length.add_zero ▸ h |>.data
      simpa using hdata.packet hp

end Framed

/-! ### What the operations hand over -/

namespace World

variable {κ : Type} {d : Downstream κ} {w : World κ}

@[simp] theorem send_handed (bs : List UInt8) : (w.send d bs).2.handed = w.handed ++ [bs] := rfl

@[simp] theorem send_handler (bs : List UInt8) : (w.send d bs).2.handler = w.handler := rfl

@[simp] theorem stamp_handed : (w.stamp d).handed = w.handed := rfl

@[simp] theorem stamp_pendingSendDataLen :
    (w.stamp d).handler.pendingSendDataLen = w.handler.pendingSendDataLen := rfl

/-- An operation on `w` stays inside its arrays, and what it hands over and the number of bytes
that are missing afterwards fit together. -/
def Fits (w : World κ) (result : Option (Bool × World κ)) : Prop :=
  ∃ r out, result = some r ∧ r.2.handed = w.handed ++ out ∧
    Hands w.handler.pendingSendDataLen out r.2.handler.pendingSendDataLen

/-- An operation that refuses. -/
theorem fits_refuse (w : World κ) (ok : Bool) : w.Fits (some (ok, w)) :=
  ⟨(ok, w), [], rfl, (List.append_nil _).symm, .nothing _⟩

/-- A PINGREQ packet. -/
structure IsPingReq (p : Packet) : Prop where
  first : p.first = MQTTPINGREQ
  body : p.body = []
  whole : p.Whole

theorem sendPing_defer (h : 0 < w.handler.pendingSendDataLen) :
    w.sendPing d = some (true, { w with handler := { w.handler with pendingPing := true } }) :=
  if_pos h

theorem sendPing_spec (h : w.handler.pendingSendDataLen = 0) :
    ∃ r p, w.sendPing d = some r ∧ IsPingReq p ∧ r.2.handed = w.handed ++ [p.bytes] ∧
      r.2.handler.pendingSendDataLen = 0 := by
  obtain ⟨c, f, hwrite, hc, hcomplete, hle, hvalue⟩ :=
    writeHeader_spec MQTTPINGREQ 0 (.filled MQTT_MAX_HEADER_SIZE 0) MQTT_BUFFER_SIZE 0
      (by decide) (by decide) (by decide)
  let p : Packet := ⟨MQTTPINGREQ, f, []⟩
  have hp : IsPingReq p := ⟨rfl, rfl, hcomplete, hle, hvalue.symm⟩
  let w₀ : World κ := { w with handler := { w.handler with pendingPing := false } }
  refine ⟨(w₀.stamp d).send d c.written, p, ?_, hp, ?_, h⟩
  · rw [sendPing, if_neg (by omega)]
    dsimp only
    rw [hwrite]
    rfl
  · rw [hc.written_eq, send_handed]
    simp [p, w₀, Packet.bytes]

theorem sendPing_fits : w.Fits (w.sendPing d) := by
  rcases Nat.eq_zero_or_pos w.handler.pendingSendDataLen with h | h
  · obtain ⟨r, p, hresult, hp, hhanded, hpending⟩ := sendPing_spec (d := d) h
    exact ⟨r, [p.bytes], hresult, hhanded, by rw [h, hpending]; exact .packet p hp.whole⟩
  · rw [sendPing_defer h]
    exact ⟨_, [], rfl, (List.append_nil _).symm, .nothing _⟩

/-- **The payload is handed over as it is given**, and a deferred PINGREQ after its last byte. -/
theorem sendPublishData_spec {data : List UInt8}
    (h : data.length ≤ w.handler.pendingSendDataLen) :
    ∃ r, w.sendPublishData d data = some r ∧
      r.2.handler.pendingSendDataLen = w.handler.pendingSendDataLen - data.length ∧
      (r.2.handed = w.handed ++ [data] ∨
        data.length = w.handler.pendingSendDataLen ∧
          ∃ p, IsPingReq p ∧ r.2.handed = w.handed ++ [data, p.bytes]) := by
  let w₀ : World κ := { w with handler := { w.handler with
    pendingSendDataLen := w.handler.pendingSendDataLen - data.length } }
  have hdef : w.sendPublishData d data =
      if !(w₀.send d data).1 then some (false, (w₀.send d data).2)
      else if w₀.handler.pendingSendDataLen = 0 ∧ w₀.handler.pendingPing then
        (w₀.send d data).2.sendPing d
      else some (true, (w₀.send d data).2) := if_neg (by omega)
  rw [hdef]
  split
  · exact ⟨_, rfl, rfl, .inl rfl⟩
  · split
    · rename_i hping
      have hzero : w.handler.pendingSendDataLen - data.length = 0 := hping.1
      obtain ⟨r, p, hresult, hp, hhanded, hpending⟩ :=
        sendPing_spec (d := d) (w := (w₀.send d data).2) hzero
      refine ⟨r, hresult, hpending.trans hzero.symm, .inr ⟨by omega, p, hp, ?_⟩⟩
      rw [hhanded, send_handed]
      simp [w₀]
    · exact ⟨_, rfl, rfl, .inl rfl⟩

theorem sendPublishData_fits (data : List UInt8) : w.Fits (w.sendPublishData d data) := by
  rcases Nat.lt_or_ge w.handler.pendingSendDataLen data.length with h | h
  · rw [sendPublishData, if_pos h]
    exact fits_refuse w false
  · obtain ⟨r, hresult, hpending, hhanded | ⟨hlen, p, hp, hhanded⟩⟩ :=
      sendPublishData_spec (d := d) h
    · have hsum : w.handler.pendingSendDataLen =
          data.length + r.2.handler.pendingSendDataLen := by omega
      exact ⟨r, [data], hresult, hhanded, by rw [hsum]; exact .data data _⟩
    · refine ⟨r, [data, p.bytes], hresult, hhanded, ?_⟩
      rw [hpending, ← hlen, Nat.sub_self]
      exact .dataPacket data p hp.whole

/-- The two bytes of a message id. -/
def idField (messageId : UInt16) : List UInt8 :=
  [Bytes.byte messageId.toNat 8, Bytes.byte messageId.toNat 0]

/-- Only as much of the topic is used as its length says when it is stored as a `uint16_t`. -/
theorem sendSubscribe_take (w : World κ) (topic : List UInt8) :
    w.sendSubscribe d topic = w.sendSubscribe d (topic.take (topic.length % 2 ^ 16)) := by
  have hlen := length_take_mod topic
  have hmod : (topic.take (topic.length % 2 ^ 16)).length % 2 ^ 16 = topic.length % 2 ^ 16 := by
    rw [hlen, Nat.mod_mod]
  unfold sendSubscribe writeString
  dsimp only
  rw [hmod, List.take_take, Nat.min_self]

theorem sendPublishHeader_take (w : World κ) (topic : List UInt8) (messageLength : ℕ) :
    w.sendPublishHeader d topic messageLength =
      w.sendPublishHeader d (topic.take (topic.length % 2 ^ 16)) messageLength := by
  have hlen := length_take_mod topic
  have hmod : (topic.take (topic.length % 2 ^ 16)).length % 2 ^ 16 = topic.length % 2 ^ 16 := by
    rw [hlen, Nat.mod_mod]
  unfold sendPublishHeader
  dsimp only
  rw [hmod, List.take_take, Nat.min_self]

/-- The packet that `sendSubscribe` hands over. -/
def subscribePacket (lengthField topic : List UInt8) (messageId : UInt16) : Packet :=
  ⟨MQTTSUBSCRIBE ||| MQTTQOS1, lengthField, idField messageId ++ stringBytes topic ++ [1]⟩

/-- **A SUBSCRIBE is handed over** where it fits its array. -/
theorem sendSubscribe_spec {topic : List UInt8} (hpending : w.handler.pendingSendDataLen = 0)
    (htopic : topic.length < 2 ^ 16)
    (hsize : 2 + topic.length + 2 + 1 + MQTT_MAX_HEADER_SIZE ≤ MQTT_BUFFER_SIZE) :
    ∃ r f, w.sendSubscribe d topic = some r ∧
      (subscribePacket f topic w.handler.messageId).Whole ∧
      r.2.handed = w.handed ++ [(subscribePacket f topic w.handler.messageId).bytes] ∧
      r.2.handler.pendingSendDataLen = 0 := by
  have hbuffer : MQTT_BUFFER_SIZE = 256 := rfl
  have hheader : MQTT_MAX_HEADER_SIZE = 5 := rfl
  rw [sendSubscribe, if_neg (by omega)]
  dsimp only
  rw [Nat.mod_eq_of_lt htopic, if_neg (by omega)]
  obtain ⟨c, f, hwrite, hc, hcomplete, hle, hvalue⟩ :=
    writeHeader_spec (MQTTSUBSCRIBE ||| MQTTQOS1) (2 + topic.length + 2 + 1)
      (d.stack (2 + topic.length + 2 + 1 + MQTT_MAX_HEADER_SIZE) w.env)
      (2 + topic.length + 2 + 1 + MQTT_MAX_HEADER_SIZE) 0
      (by omega) (by omega) (by omega)
  obtain ⟨c₁, hput₁, h₁⟩ := hc.put (by simp; omega) (Bytes.byte w.handler.messageId.toNat 8)
  obtain ⟨c₂, hput₂, h₂⟩ := h₁.put (by simp; omega) (Bytes.byte w.handler.messageId.toNat 0)
  obtain ⟨c₃, hstring, h₃⟩ := writeString_spec h₂ topic (by simp; omega)
  obtain ⟨c₄, hput₄, h₄⟩ := h₃.put (by simp [length_stringBytes]; omega) 1
  simp only [hwrite, hput₁, hput₂, hstring, hput₄, Option.bind_eq_bind, Option.bind_some]
  refine ⟨_, f, rfl, ⟨hcomplete, hle, ?_⟩, ?_, hpending⟩
  · simp [subscribePacket, Packet.declared, hvalue, idField, length_stringBytes]
    omega
  · rw [send_handed, h₄.written_eq]
    simp [subscribePacket, Packet.bytes, idField]

/-- A SUBSCRIBE that is too large, or inside a body, is refused. -/
theorem sendSubscribe_refused {topic : List UInt8} (htopic : topic.length < 2 ^ 16)
    (h : 0 < w.handler.pendingSendDataLen ∨
      MQTT_BUFFER_SIZE < 2 + topic.length + 2 + 1 + MQTT_MAX_HEADER_SIZE) :
    w.sendSubscribe d topic = some (false, w) := by
  rw [sendSubscribe]
  split
  · rfl
  · rename_i hzero
    dsimp only
    rw [Nat.mod_eq_of_lt htopic]
    exact if_pos (h.resolve_left hzero)

theorem sendSubscribe_fits (topic : List UInt8) : w.Fits (w.sendSubscribe d topic) := by
  rw [sendSubscribe_take]
  have htopic : (topic.take (topic.length % 2 ^ 16)).length < 2 ^ 16 := by
    rw [length_take_mod]
    omega
  generalize topic.take (topic.length % 2 ^ 16) = topic at htopic ⊢
  by_cases hrefused : 0 < w.handler.pendingSendDataLen ∨
      MQTT_BUFFER_SIZE < 2 + topic.length + 2 + 1 + MQTT_MAX_HEADER_SIZE
  · rw [sendSubscribe_refused htopic hrefused]
    exact fits_refuse w false
  · rw [not_or, Nat.not_lt, Nat.not_lt] at hrefused
    have hzero : w.handler.pendingSendDataLen = 0 := Nat.le_zero.1 hrefused.1
    obtain ⟨r, f, hresult, hwhole, hhanded, hpending⟩ :=
      sendSubscribe_spec (d := d) hzero htopic hrefused.2
    refine ⟨r, _, hresult, hhanded, ?_⟩
    rw [hzero, hpending]
    exact .packet _ hwhole

/-- The packet of which `sendPublishHeader` hands over the beginning. -/
def publishHeader (lengthField topic : List UInt8) (messageId : UInt16) : Packet :=
  ⟨MQTTPUBLISH ||| MQTTQOS1 ||| MQTTRETAIN, lengthField, stringBytes topic ++ idField messageId⟩

theorem publishHeader_isPublish (lengthField topic : List UInt8) (messageId : UInt16) :
    (publishHeader lengthField topic messageId).IsPublish :=
  show (MQTTPUBLISH ||| MQTTQOS1 ||| MQTTRETAIN) &&& 0xf0 = MQTTPUBLISH by decide

/-- **The beginning of a PUBLISH is handed over** where its size, a `uint32_t` that may have
wrapped, fits a remaining length. -/
theorem sendPublishHeader_hands {topic : List UInt8} {messageLength : ℕ}
    (hpending : w.handler.pendingSendDataLen = 0) (htopic : topic.length < 2 ^ 16)
    (hlength : messageLength < 2 ^ 32)
    (hsize : (4 + topic.length + messageLength) % 2 ^ 32 < 2 ^ 28) :
    ∃ r f, w.sendPublishHeader d topic messageLength = some (some w.handler.messageId, r) ∧
      Varint.Complete f ∧ f.length ≤ 4 ∧
      Varint.value f = (4 + topic.length + messageLength) % 2 ^ 32 ∧
      r.2.handed = w.handed ++ [(publishHeader f topic w.handler.messageId).bytes] ∧
      r.2.handler.pendingSendDataLen = messageLength := by
  rw [sendPublishHeader, if_neg (by omega)]
  dsimp only
  rw [Nat.mod_eq_of_lt htopic]
  have hheader : MQTT_MAX_HEADER_SIZE = 5 := rfl
  have hsum : 2 + topic.length + 2 + messageLength = 4 + topic.length + messageLength := by omega
  obtain ⟨c, f, hwrite, hc, hcomplete, hle, hvalue⟩ :=
    writeHeader_spec (MQTTPUBLISH ||| MQTTQOS1 ||| MQTTRETAIN)
      ((4 + topic.length + messageLength) % 2 ^ 32)
      (.filled (2 + topic.length + 2 + MQTT_MAX_HEADER_SIZE) 0)
      (2 + topic.length + 2 + MQTT_MAX_HEADER_SIZE) messageLength
      hsize (by omega) (by omega)
  obtain ⟨c₁, hput₁, h₁⟩ := hc.put (by simp; omega) (Bytes.byte topic.length 8)
  obtain ⟨c₂, hput₂, h₂⟩ := h₁.put (by simp; omega) (Bytes.byte topic.length 0)
  obtain ⟨c₃, hcopy, h₃⟩ := h₂.copy topic (by simp; omega)
  obtain ⟨c₄, hput₄, h₄⟩ := h₃.put (by simp; omega) (Bytes.byte w.handler.messageId.toNat 8)
  obtain ⟨c₅, hput₅, h₅⟩ := h₄.put (by simp; omega) (Bytes.byte w.handler.messageId.toNat 0)
  simp only [hsum, hwrite, hput₁, hput₂, List.take_length, hcopy, hput₄, hput₅,
    Option.bind_eq_bind, Option.bind_some]
  refine ⟨_, f, rfl, hcomplete, hle, hvalue, ?_, rfl⟩
  rw [send_handed, h₅.written_eq]
  simp [publishHeader, Packet.bytes, idField, stringBytes]

/-- A PUBLISH whose size does not fit a remaining length is refused. -/
theorem sendPublishHeader_large {topic : List UInt8} {messageLength : ℕ}
    (htopic : topic.length < 2 ^ 16)
    (hsize : 2 ^ 28 ≤ (4 + topic.length + messageLength) % 2 ^ 32) :
    w.sendPublishHeader d topic messageLength = some (none, false, w) := by
  have hsum : 2 + topic.length + 2 + messageLength = 4 + topic.length + messageLength := by omega
  rw [sendPublishHeader]
  split
  · rfl
  · dsimp only
    rw [Nat.mod_eq_of_lt htopic, hsum, writeHeader_none _ _ hsize]
    rfl

/-- **The beginning of a PUBLISH is handed over**, and its payload is what is missing. -/
theorem sendPublishHeader_spec {topic : List UInt8} (messageLength : ℕ)
    (hpending : w.handler.pendingSendDataLen = 0) (htopic : topic.length < 2 ^ 16)
    (hsize : 4 + topic.length + messageLength < 2 ^ 28) :
    ∃ r f, w.sendPublishHeader d topic messageLength = some (some w.handler.messageId, r) ∧
      (publishHeader f topic w.handler.messageId).Lacks messageLength ∧
      r.2.handed = w.handed ++ [(publishHeader f topic w.handler.messageId).bytes] ∧
      r.2.handler.pendingSendDataLen = messageLength := by
  obtain ⟨r, f, hresult, hcomplete, hle, hvalue, hhanded, hlen⟩ :=
    sendPublishHeader_hands (d := d) hpending htopic
      (show messageLength < 2 ^ 32 by omega) (by omega)
  refine ⟨r, f, hresult, ⟨hcomplete, hle, ?_⟩, hhanded, hlen⟩
  simp [publishHeader, Packet.declared, hvalue, idField, length_stringBytes]
  omega

theorem sendPublishHeader_fits {topic : List UInt8} {messageLength : ℕ}
    (hsize : 4 + topic.length % 2 ^ 16 + messageLength < 2 ^ 32) :
    w.Fits ((w.sendPublishHeader d topic messageLength).map (·.2)) := by
  rw [sendPublishHeader_take]
  rw [← length_take_mod] at hsize
  have htopic : (topic.take (topic.length % 2 ^ 16)).length < 2 ^ 16 := by
    rw [length_take_mod]
    omega
  generalize topic.take (topic.length % 2 ^ 16) = topic at htopic hsize ⊢
  rcases Nat.eq_zero_or_pos w.handler.pendingSendDataLen with hzero | hpos
  case inr =>
    rw [sendPublishHeader, if_pos hpos]
    exact fits_refuse w false
  rcases Nat.lt_or_ge (4 + topic.length + messageLength) (2 ^ 28) with hlt | hge
  · obtain ⟨r, f, hresult, hlack, hhanded, hpending⟩ :=
      sendPublishHeader_spec (d := d) messageLength hzero htopic hlt
    refine ⟨r, [(publishHeader f topic w.handler.messageId).bytes], by rw [hresult]; rfl, hhanded,
      ?_⟩
    rw [hzero, hpending]
    exact .publish _ (publishHeader_isPublish f topic _) hlack
  · rw [sendPublishHeader_large htopic (by omega)]
    exact fits_refuse w false

/-- A string of 1 to 65535 characters, if it is given at all. -/
def Supplied (s : Option (List UInt8)) : Prop := ∀ t ∈ s, 0 < t.length ∧ t.length < 2 ^ 16

theorem sizeOf_lengthOf {s : Option (List UInt8)} (h : Supplied s) :
    sizeOf (lengthOf s) = (s.map fun t => (stringBytes t).length).getD 0 := by
  cases s with
  | none => rfl
  | some t =>
      obtain ⟨hpos, hlt⟩ := h t rfl
      rw [lengthOf, Option.getD_some, Nat.mod_eq_of_lt hlt, sizeOf, if_pos hpos]
      rfl

section connect

variable {id : List UInt8} {willTopic willMessage user pass : Option (List UInt8)}

theorem length_connectStrings (hid : Supplied (some id)) (htopic : Supplied willTopic)
    (hmessage : Supplied willMessage) (hboth : willTopic.isSome = willMessage.isSome)
    (huser : Supplied user) (hpass : Supplied pass) :
    ((connectStrings id willTopic willMessage user pass).flatMap stringBytes).length =
      sizeOf (lengthOf (some id)) + sizeOf (lengthOf willTopic) +
        sizeOf (if willTopic.isSome then lengthOf willMessage else 0) + sizeOf (lengthOf user) +
        sizeOf (if user.isSome then lengthOf pass else 0) := by
  have hwill : sizeOf (if willTopic.isSome then lengthOf willMessage else 0) =
      (willMessage.map fun t => (stringBytes t).length).getD 0 := by
    rw [← sizeOf_lengthOf hmessage, hboth]
    cases willMessage <;> rfl
  have hlogin : sizeOf (if user.isSome then lengthOf pass else 0) =
      if user.isSome then (pass.map fun t => (stringBytes t).length).getD 0 else 0 := by
    rw [← sizeOf_lengthOf hpass]
    cases user <;> rfl
  rw [hwill, hlogin, sizeOf_lengthOf hid, sizeOf_lengthOf htopic, sizeOf_lengthOf huser]
  rcases willTopic with _ | topic <;> rcases willMessage with _ | message
  case none.some => cases hboth
  case some.none => cases hboth
  all_goals
    rcases user with _ | user <;> rcases pass with _ | pass <;>
      simp [connectStrings, Nat.add_assoc]

/-- What is written has been given. -/
theorem given_of_mem_connectStrings {t : List UInt8}
    (ht : t ∈ connectStrings id willTopic willMessage user pass) :
    some t ∈ [some id, willTopic, willMessage, user, pass] := by
  rcases willTopic with _ | topic <;> rcases willMessage with _ | message <;>
    rcases user with _ | user <;> rcases pass with _ | pass <;>
    simp only [connectStrings, List.mem_append, List.mem_cons, List.not_mem_nil, or_false] at ht <;>
    simp only [List.mem_cons, Option.some.injEq, List.not_mem_nil, reduceCtorEq] <;>
    grind

theorem mem_connectStrings (hid : Supplied (some id)) (htopic : Supplied willTopic)
    (hmessage : Supplied willMessage) (huser : Supplied user) (hpass : Supplied pass) :
    ∀ s ∈ connectStrings id willTopic willMessage user pass, s.length < 2 ^ 16 := by
  intro s hs
  have hgiven := given_of_mem_connectStrings hs
  simp only [List.mem_cons, List.not_mem_nil, or_false] at hgiven
  rcases hgiven with h | h | h | h | h
  · exact (hid s h.symm).2
  · exact (htopic s h.symm).2
  · exact (hmessage s h.symm).2
  · exact (huser s h.symm).2
  · exact (hpass s h.symm).2

end connect

/-- The bytes of a CONNECT that stand before its strings. -/
def connectFields (cleanSession : Bool) (keepaliveSeconds : UInt8)
    (willTopic user pass : Option (List UInt8)) : List UInt8 :=
  [0x00, 0x04, 'M'.toUInt8, 'Q'.toUInt8, 'T'.toUInt8, 'T'.toUInt8, 4,
    connectFlags cleanSession willTopic user pass, Bytes.byte keepaliveSeconds.toNat 8,
    keepaliveSeconds &&& 0xFF]

/-- The size that is computed for a CONNECT, without its header. -/
def connectSize (id willTopic willMessage user pass : Option (List UInt8)) : ℕ :=
  7 + 1 + 2 + sizeOf (lengthOf id) + sizeOf (lengthOf willTopic) +
    sizeOf (if willTopic.isSome then lengthOf willMessage else 0) + sizeOf (lengthOf user) +
    sizeOf (if user.isSome then lengthOf pass else 0)

/-- The strings of a CONNECT that is not refused are written with as many bytes as are counted. -/
def ConnectSized (id willTopic willMessage user pass : Option (List UInt8)) : Prop :=
  ∀ clientId, id = some clientId →
    connectSize id willTopic willMessage user pass + MQTT_MAX_HEADER_SIZE ≤ MQTT_BUFFER_SIZE →
      10 + ((connectStrings clientId willTopic willMessage user pass).map fun s =>
        s.length % 2 ^ 16 + 2).sum = connectSize id willTopic willMessage user pass

section connect

variable {cleanSession : Bool} {keepaliveSeconds : UInt8}
  {id willTopic willMessage user pass : Option (List UInt8)}

/-- A CONNECT that is too large is refused. -/
theorem sendConnect_large (hzero : w.handler.pendingSendDataLen = 0)
    (hsize : MQTT_BUFFER_SIZE <
      connectSize id willTopic willMessage user pass + MQTT_MAX_HEADER_SIZE) :
    w.sendConnect d cleanSession keepaliveSeconds id willTopic willMessage user pass =
      some (false, w) := by
  rw [sendConnect, if_neg (by omega)]
  exact if_pos hsize

/-- In front of the strings stand the header, which announces the computed size, and the fixed
fields; whether the strings fit is decided by writing them. -/
theorem sendConnect_eq (cleanSession : Bool) (keepaliveSeconds : UInt8)
    (hzero : w.handler.pendingSendDataLen = 0)
    (hsize : connectSize id willTopic willMessage user pass + MQTT_MAX_HEADER_SIZE ≤
      MQTT_BUFFER_SIZE) :
    ∃ f, ∃ c : Buffer.Cursor (connectSize id willTopic willMessage user pass +
        MQTT_MAX_HEADER_SIZE),
      c.Filled (MQTTCONNECT :: f ++
        connectFields cleanSession keepaliveSeconds willTopic user pass) ∧
      Varint.Complete f ∧ f.length ≤ 4 ∧
      Varint.value f = connectSize id willTopic willMessage user pass ∧
      w.sendConnect d cleanSession keepaliveSeconds id willTopic willMessage user pass =
        id.elim (some (false, w)) fun id =>
          (writeStrings (connectStrings id willTopic willMessage user pass) c).bind fun c =>
            some (World.send d ⟨{ (w.stamp d).handler with
              messageId := 1, keepaliveSeconds := keepaliveSeconds }, (w.stamp d).env, w.handed⟩
                c.written) := by
  have hbuffer : MQTT_BUFFER_SIZE = 256 := rfl
  have hheader : MQTT_MAX_HEADER_SIZE = 5 := rfl
  have hten : 10 ≤ connectSize id willTopic willMessage user pass := by
    rw [connectSize]
    omega
  obtain ⟨c, f, hwrite, hc, hcomplete, hle, hvalue⟩ :=
    writeHeader_spec MQTTCONNECT (connectSize id willTopic willMessage user pass)
      (.filled (connectSize id willTopic willMessage user pass + MQTT_MAX_HEADER_SIZE) 0)
      (connectSize id willTopic willMessage user pass + MQTT_MAX_HEADER_SIZE) 0
      (by omega) (by omega) (by omega)
  have hfixed : (connectFields cleanSession keepaliveSeconds willTopic user pass).length = 10 :=
    rfl
  obtain ⟨c₁, hall, h₁⟩ := hc.putAll
    (connectFields cleanSession keepaliveSeconds willTopic user pass) (by
      rw [List.length_cons, hfixed]
      omega)
  refine ⟨f, c₁, h₁, hcomplete, hle, hvalue, ?_⟩
  rw [sendConnect, if_neg (by omega)]
  -- the array has the computed size, so a rewriting would change its type
  extract_lets idLen willTopicLen willMessageLen userLen passLen messageSize sendBuffer
  rw [if_neg (show ¬ messageSize + MQTT_MAX_HEADER_SIZE > MQTT_BUFFER_SIZE from
    Nat.not_lt.2 hsize)]
  refine (congrArg (Option.bind · _) hwrite).trans ?_
  refine (congrArg (Option.bind · _) hall).trans ?_
  cases id <;> rfl

/-- The bytes that are written of strings. -/
theorem length_flatMap_take (ss : List (List UInt8)) :
    ((ss.map fun s => s.take (s.length % 2 ^ 16)).flatMap stringBytes).length =
      (ss.map fun s => s.length % 2 ^ 16 + 2).sum := by
  induction ss with
  | nil => rfl
  | cons s ss ih =>
      rw [List.map_cons, List.flatMap_cons, List.length_append, ih, length_stringBytes,
        length_take_mod, List.map_cons, List.sum_cons]

theorem connectSized_of_supplied (hid : Supplied id) (htopic : Supplied willTopic)
    (hmessage : Supplied willMessage) (hboth : willTopic.isSome = willMessage.isSome)
    (huser : Supplied user) (hpass : Supplied pass) :
    ConnectSized id willTopic willMessage user pass := by
  rintro clientId rfl -
  have hshort : ((connectStrings clientId willTopic willMessage user pass).map fun s =>
      s.take (s.length % 2 ^ 16)) = connectStrings clientId willTopic willMessage user pass := by
    refine (List.map_congr_left fun s hs => ?_).trans (List.map_id _)
    have hlt := mem_connectStrings hid htopic hmessage huser hpass s hs
    rw [Nat.mod_eq_of_lt hlt]
    exact List.take_length
  rw [← length_flatMap_take, hshort, length_connectStrings hid htopic hmessage hboth huser hpass,
    connectSize]
  omega

theorem sendConnect_fits (hsized : ConnectSized id willTopic willMessage user pass) :
    w.Fits (w.sendConnect d cleanSession keepaliveSeconds id willTopic willMessage user pass) := by
  rcases Nat.eq_zero_or_pos w.handler.pendingSendDataLen with hzero | hpos
  case inr =>
    rw [sendConnect, if_pos hpos]
    exact fits_refuse w false
  rcases Nat.lt_or_ge MQTT_BUFFER_SIZE
    (connectSize id willTopic willMessage user pass + MQTT_MAX_HEADER_SIZE) with hlarge | hsize
  · rw [sendConnect_large hzero hlarge]
    exact fits_refuse w false
  obtain ⟨f, c, hc, hcomplete, hle, hvalue, hsend⟩ := sendConnect_eq (d := d)
    cleanSession keepaliveSeconds hzero hsize
  rw [hsend]
  cases id with
  | none => exact fits_refuse w false
  | some id =>
      have hfixed : (connectFields cleanSession keepaliveSeconds willTopic user pass).length = 10 :=
        rfl
      have hmessageSize := hsized id rfl hsize
      rw [← length_flatMap_take] at hmessageSize
      rw [Option.elim_some, ← writeStrings_take]
      generalize hss : ((connectStrings id willTopic willMessage user pass).map fun s =>
        s.take (s.length % 2 ^ 16)) = ss at hmessageSize ⊢
      have hshort : ∀ s ∈ ss, s.length < 2 ^ 16 := by
        intro s hs
        rw [← hss] at hs
        obtain ⟨t, -, rfl⟩ := List.mem_map.1 hs
        rw [length_take_mod]
        omega
      obtain ⟨c', hwrite, hc'⟩ := writeStrings_spec hc hshort (by
        have hheader : MQTT_MAX_HEADER_SIZE = 5 := rfl
        simp only [List.length_append, List.length_cons, hfixed]
        omega)
      rw [hwrite, Option.bind_some]
      let p : Packet := ⟨MQTTCONNECT, f,
        connectFields cleanSession keepaliveSeconds willTopic user pass ++ ss.flatMap stringBytes⟩
      have hp : p.Whole := by
        refine ⟨hcomplete, hle, ?_⟩
        simp only [p, Packet.declared, hvalue, List.length_append, hfixed]
        omega
      have hbytes : MQTTCONNECT :: f ++
          connectFields cleanSession keepaliveSeconds willTopic user pass ++
          ss.flatMap stringBytes = p.bytes := by
        simp [p, Packet.bytes]
      refine ⟨_, [p.bytes], rfl, ?_, by rw [hzero]; exact hzero ▸ .packet p hp⟩
      rw [send_handed, hc'.written_eq, hbytes]

end connect

theorem update_fits {nowUs : UInt64} : w.Fits (w.update d nowUs) := by
  rcases hconnected : d.isConnected w.env with ⟨connected, env⟩
  rw [update, hconnected]
  dsimp only
  split
  · split
    · obtain ⟨r, out, hresult, hhanded, hhands⟩ :=
        sendPing_fits (d := d) (w := ({ w with env := env } : World κ).stamp d)
      rw [hresult]
      exact ⟨_, out, rfl, hhanded, hhands⟩
    · exact ⟨_, [], rfl, (List.append_nil _).symm, .nothing _⟩
  · exact ⟨_, [], rfl, (List.append_nil _).symm, .nothing _⟩

end World

/-! ### Runs -/

/-- The arguments that the handler is given: topics of at most 65535 characters, strings of a
CONNECT of 1 to 65535 characters and a will topic with a will message, and a PUBLISH whose size
does not wrap. -/
def SendOp.Valid : SendOp → Prop
  | .sendConnect _ _ id willTopic willMessage user pass =>
    World.Supplied id ∧ World.Supplied willTopic ∧ World.Supplied willMessage ∧
      willTopic.isSome = willMessage.isSome ∧ World.Supplied user ∧ World.Supplied pass
  | .sendSubscribe topic => topic.length < 2 ^ 16
  | .sendPublishHeader topic messageLength =>
    topic.length < 2 ^ 16 ∧ 4 + topic.length + messageLength < 2 ^ 32
  | .sendPublishData _ | .sendPing | .update _ => True

/-- The calls whose packets are as long as they announce: what is written of the strings of a
CONNECT is what is counted, and the size of a PUBLISH does not wrap. -/
def SendOp.Sized : SendOp → Prop
  | .sendConnect _ _ id willTopic willMessage user pass =>
    World.ConnectSized id willTopic willMessage user pass
  | .sendPublishHeader topic messageLength =>
    4 + topic.length % 2 ^ 16 + messageLength < 2 ^ 32
  | .sendSubscribe _ | .sendPublishData _ | .sendPing | .update _ => True

theorem SendOp.Valid.sized {op : SendOp} (h : op.Valid) : op.Sized := by
  cases op with
  | sendConnect cleanSession keepaliveSeconds id willTopic willMessage user pass =>
      obtain ⟨hid, htopic, hmessage, hboth, huser, hpass⟩ := h
      exact World.connectSized_of_supplied hid htopic hmessage hboth huser hpass
  | sendPublishHeader topic messageLength =>
      obtain ⟨htopic, hsize⟩ := h
      rw [Sized, Nat.mod_eq_of_lt htopic]
      exact hsize
  | sendSubscribe topic => trivial
  | sendPublishData data => trivial
  | sendPing => trivial
  | update nowUs => trivial

/-- The operation that hands over payload. -/
def SendOp.IsPublishData : SendOp → Prop
  | .sendPublishData _ => True
  | _ => False

namespace World

variable {κ : Type} {d : Downstream κ} {w : World κ}

theorem step_fits {op : SendOp} (hop : op.Sized) : w.Fits (w.step d op) := by
  cases op with
  | sendConnect cleanSession keepaliveSeconds id willTopic willMessage user pass =>
      exact sendConnect_fits hop
  | sendSubscribe topic => exact sendSubscribe_fits topic
  | sendPublishHeader topic messageLength => exact sendPublishHeader_fits hop
  | sendPublishData data => exact sendPublishData_fits data
  | sendPing => exact sendPing_fits
  | update nowUs => exact update_fits

/-- **An operation keeps the framing.** -/
theorem step_framed {op : SendOp} (hop : op.Sized)
    (h : Framed w.bytes w.handler.pendingSendDataLen) :
    ∃ r, w.step d op = some r ∧ Framed r.2.bytes r.2.handler.pendingSendDataLen := by
  obtain ⟨r, out, hresult, hhanded, hhands⟩ := step_fits (d := d) hop
  refine ⟨r, hresult, ?_⟩
  rw [bytes, hhanded, List.flatten_append]
  exact h.hands hhands

/-- Inside the body of a PUBLISH, only `sendPublishData` hands anything over. -/
theorem step_unfinished {op : SendOp} (hop : ¬ op.IsPublishData)
    (hpos : 0 < w.handler.pendingSendDataLen) {r : Bool × World κ} (h : w.step d op = some r) :
    r.2.handed = w.handed := by
  cases op with
  | sendConnect cleanSession keepaliveSeconds id willTopic willMessage user pass =>
      rw [step, sendConnect, if_pos hpos] at h
      cases h
      rfl
  | sendSubscribe topic =>
      rw [step, sendSubscribe, if_pos hpos] at h
      cases h
      rfl
  | sendPublishHeader topic messageLength =>
      rw [step, sendPublishHeader, if_pos hpos] at h
      cases h
      rfl
  | sendPublishData data => exact absurd trivial hop
  | sendPing =>
      rw [step, sendPing_defer hpos] at h
      cases h
      rfl
  | update nowUs =>
      rcases hconnected : d.isConnected w.env with ⟨connected, env⟩
      rw [step, update, hconnected] at h
      dsimp only at h
      split at h
      · split at h
        · rw [sendPing_defer (w := ({ w with env := env } : World κ).stamp d) hpos] at h
          cases h
          rfl
        · cases h
          rfl
      · cases h
        rfl

/-- **A run keeps the framing.** -/
theorem runOps_framed {ops : List SendOp} : ∀ {w : World κ}, (∀ op ∈ ops, op.Valid) →
    Framed w.bytes w.handler.pendingSendDataLen →
    ∃ w', w.runOps d ops = some w' ∧ Framed w'.bytes w'.handler.pendingSendDataLen := by
  induction ops with
  | nil => intro w _ h; exact ⟨w, rfl, h⟩
  | cons op ops ih =>
      intro w hops h
      obtain ⟨r, hstep, hr⟩ := step_framed (d := d) (hops op List.mem_cons_self).sized h
      obtain ⟨w', hrun, hw'⟩ := ih (fun op' h' => hops op' (List.mem_cons_of_mem op h')) hr
      refine ⟨w', ?_, hw'⟩
      rw [runOps, hstep]
      exact hrun

end World

/-- **MQTT sending keeps packet framing.**  Whatever the operations of a run since the last reset
are, and whatever the downstream answers: what has been handed to it is complete packets followed
by at most one PUBLISH that lacks `m_pendingSendDataLen` bytes; and as long as it lacks any, no
operation but `send_publish_data` hands anything over. -/
theorem sending_framed {κ : Type} (d : Downstream κ) (h : MQTTSocketHandler) (now : UInt64)
    (env : κ) (ops : List SendOp) (hops : ∀ op ∈ ops, op.Valid) :
    ∃ w, (⟨h.reset now, env, []⟩ : World κ).runOps d ops = some w ∧
      Framed w.bytes w.handler.pendingSendDataLen ∧
      (0 < w.handler.pendingSendDataLen → ∀ op, ¬ op.IsPublishData → ∀ ok w',
        w.step d op = some (ok, w') → w'.handed = w.handed) := by
  obtain ⟨w, hrun, hframed⟩ :=
    World.runOps_framed (d := d) (w := ⟨h.reset now, env, []⟩) hops Framed.nil
  exact ⟨w, hrun, hframed, fun hpos op hop ok w' hstep => World.step_unfinished hop hpos hstep⟩

/-- A downstream that answers every call with 0, at a clock that stands still. -/
def quiet : Downstream Unit where
  send := fun _ _ => (0, ())
  isConnected := fun _ => (true, ())
  getAbsoluteTime := fun _ => (0, ())
  stack := fun n _ => .filled n 0

/-- A CONNECT; then a PUBLISH of the topic `[7]` with three bytes of payload, of which one has been
handed over when a PINGREQ is asked for. -/
theorem sending_framed_example :
    ∃ w, (⟨zeroed.reset 0, (), []⟩ : World Unit).runOps quiet
        [.sendConnect true 60 (some [1]) none none none none, .sendPublishHeader [7] 3,
          .sendPublishData [10], .sendPing] = some w ∧
      Framed w.bytes w.handler.pendingSendDataLen ∧
      (0 < w.handler.pendingSendDataLen → ∀ op, ¬ op.IsPublishData → ∀ ok w',
        w.step quiet op = some (ok, w') → w'.handed = w.handed) := by
  refine sending_framed quiet zeroed 0 () _ fun op hop => ?_
  simp only [List.mem_cons, List.not_mem_nil, or_false] at hop
  rcases hop with rfl | rfl | rfl | rfl
  · simp [SendOp.Valid, World.Supplied]
  · simp [SendOp.Valid]
  · trivial
  · trivial

end Mqtt
