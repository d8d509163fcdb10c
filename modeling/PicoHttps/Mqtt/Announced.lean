/-
**The announced size of a PUBLISH.**

The size of a PUBLISH is a `uint32_t`, and the two checks of `write_header` are made on it.  The
first of them compares the size without the payload, so it does not see a sum that has wrapped;
the second one sees a small number then, because a topic adds less than `2 ^ 17` to the length of
the payload.  So a payload that is too long for four bytes of remaining length is refused, up to
the one whose size wraps: from there on a header is handed over that announces a small packet.

Main definitions:

* `Mqtt.announced` — the remaining length of what begins with a packet, by the rules of MQTT;
* `Mqtt.World.AnnouncesExactly` — what is handed over announces the size of the PUBLISH.

Main results:

* `Mqtt.World.announced_publishHeader` — the remaining length of the beginning of a PUBLISH;
* `Mqtt.announcesExactly_iff` — **the announced size is exact unless it wraps**.
-/

import PicoHttps.Mqtt.Framing

set_option relaxedAutoImplicit false
set_option autoImplicit false

namespace Mqtt

/-- The remaining length of the packet at the front, which is at most four bytes long. -/
def announced (bytes : List UInt8) : Option ℕ := do
  let lengthField ← Varint.field 5 (bytes.drop 1)
  if lengthField.length ≤ 4 then return Varint.value lengthField else none

theorem announced_bytes {p : Packet} (hcomplete : Varint.Complete p.lengthField)
    (hle : p.lengthField.length ≤ 4) : announced p.bytes = some (Varint.value p.lengthField) := by
  have hfield : Varint.field 5 (p.lengthField ++ p.body) = some p.lengthField :=
    Varint.field_complete hcomplete (by omega) p.body
  rw [announced, Packet.bytes, List.drop_one, List.tail_cons, hfield]
  exact if_pos hle

namespace World

variable {κ : Type} {d : Downstream κ} {w : World κ} {topic : List UInt8} {messageLength : ℕ}

/-- **The announced size is exact**: the call returns; what it hands over announces the topic, its
length, the message id and the payload, and the payload is what is missing; and a size that does
not fit 28 bits is refused, with the world as it was. -/
structure AnnouncesExactly (d : Downstream κ) (w : World κ) (topic : List UInt8)
    (messageLength : ℕ) : Prop where
  returns : ∃ r, w.sendPublishHeader d topic messageLength = some r
  exact : ∀ messageId ok w' out,
    w.sendPublishHeader d topic messageLength = some (messageId, ok, w') →
    w'.handed = w.handed ++ out → ∀ bytes ∈ out,
      announced bytes = some (2 + topic.length + 2 + messageLength) ∧
        w'.handler.pendingSendDataLen = messageLength
  refused : 2 ^ 28 ≤ 2 + topic.length + 2 + messageLength →
    w.sendPublishHeader d topic messageLength = some (none, false, w)

/-- A call that refuses announces nothing. -/
theorem announcesExactly_of_refused
    (h : w.sendPublishHeader d topic messageLength = some (none, false, w)) :
    w.AnnouncesExactly d topic messageLength := by
  refine ⟨⟨_, h⟩, ?_, fun _ => h⟩
  intro messageId ok w' out hresult hhanded bytes hbytes
  rw [h] at hresult
  cases hresult
  rw [List.self_eq_append_right.1 hhanded] at hbytes
  exact absurd hbytes List.not_mem_nil

/-- **A size that fits 28 bits is announced.** -/
theorem announcesExactly_of_small (hpending : w.handler.pendingSendDataLen = 0)
    (htopic : topic.length < 2 ^ 16) (hsize : 4 + topic.length + messageLength < 2 ^ 28) :
    w.AnnouncesExactly d topic messageLength := by
  obtain ⟨r, f, hresult, hcomplete, hle, hvalue, hhanded, hlen⟩ :=
    sendPublishHeader_hands (d := d) hpending htopic (show messageLength < 2 ^ 32 by omega)
      (by omega)
  refine ⟨⟨_, hresult⟩, ?_, fun hlarge => absurd hsize (by omega)⟩
  intro messageId ok w' out hresult' hhanded' bytes hbytes
  obtain rfl : r = (ok, w') := (Prod.mk.inj (Option.some.inj (hresult.symm.trans hresult'))).2
  have hout := List.append_cancel_left (hhanded'.symm.trans hhanded)
  rw [hout, List.mem_singleton] at hbytes
  have hannounced := announced_bytes (p := publishHeader f topic w.handler.messageId) hcomplete hle
  have hvalue : Varint.value f = 2 + topic.length + 2 + messageLength := by omega
  rw [hbytes, hannounced]
  exact ⟨congrArg some hvalue, hlen⟩

/-- **A size that wraps is not refused.** -/
theorem not_announcesExactly_of_wrap (hpending : w.handler.pendingSendDataLen = 0)
    (htopic : topic.length < 2 ^ 16) (hlength : messageLength < 2 ^ 32)
    (hwrap : 2 ^ 32 ≤ 4 + topic.length + messageLength) :
    ¬ w.AnnouncesExactly d topic messageLength := by
  intro hexact
  obtain ⟨r, f, hresult, -⟩ :=
    sendPublishHeader_hands (d := d) hpending htopic hlength (by omega)
  have hrefused := hexact.refused (by omega)
  rw [hresult] at hrefused
  cases hrefused

end World

/-- **The announced size is exact unless it wraps.**  With a topic of at most 65535 characters and
a `uint32_t` as the length of the payload, what is handed over announces the size of the PUBLISH,
and a size of more than 28 bits is refused, if and only if a body is still being sent or the size
fits a `uint32_t`. -/
theorem announcesExactly_iff {κ : Type} (d : Downstream κ) (w : World κ) (topic : List UInt8)
    (messageLength : ℕ) (htopic : topic.length < 2 ^ 16) (hlength : messageLength < 2 ^ 32) :
    w.AnnouncesExactly d topic messageLength ↔
      0 < w.handler.pendingSendDataLen ∨ 4 + topic.length + messageLength < 2 ^ 32 := by
  constructor
  · intro hexact
    by_contra hnot
    rw [not_or, Nat.not_lt, Nat.not_lt] at hnot
    exact World.not_announcesExactly_of_wrap (by omega) htopic hlength hnot.2 hexact
  · intro hfits
    rcases Nat.eq_zero_or_pos w.handler.pendingSendDataLen with hzero | hpos
    · rcases Nat.lt_or_ge (4 + topic.length + messageLength) (2 ^ 28) with hsmall | hlarge
      · exact World.announcesExactly_of_small hzero htopic hsmall
      · exact World.announcesExactly_of_refused
          (World.sendPublishHeader_large htopic (by omega))
    · exact World.announcesExactly_of_refused (if_pos hpos)

/-- The topic `[7]` with three bytes of payload. -/
theorem announcesExactly_iff_example :
    (⟨zeroed, (), []⟩ : World Unit).AnnouncesExactly quiet [7] 3 :=
  (announcesExactly_iff quiet ⟨zeroed, (), []⟩ [7] 3 (by decide) (by decide)).2
    (.inr (by decide))

/-- With the topic `[7]`, a payload of `2 ^ 32 - 1` bytes is not refused: a remaining length of
four is announced for it. -/
theorem announced_wraps :
    ¬ ∀ (w : World Unit) (topic : List UInt8) (messageLength : ℕ), topic.length < 2 ^ 16 →
      messageLength < 2 ^ 32 → w.AnnouncesExactly quiet topic messageLength := by
  intro hall
  exact World.not_announcesExactly_of_wrap (w := ⟨zeroed, (), []⟩) rfl (by decide) (by decide)
    (by decide) (hall ⟨zeroed, (), []⟩ [7] (2 ^ 32 - 1) (by decide) (by decide))

end Mqtt
