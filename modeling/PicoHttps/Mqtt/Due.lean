/-
**When a PINGREQ is due.**

`update` subtracts the time of the last message from a reading of the clock that its caller made
before.  Where a message has been sent since, or the connection has been established, the reading
is the older of the two, and the difference wraps around: `update` sees that centuries have passed,
and pings at once, even before the CONNECT.  The seconds are cut down to 32 bits then, so a delay of
more than 136 years may be missed as well.

Main definitions:

* `Mqtt.Due` — the time that has passed is long enough;
* `Mqtt.Stale`, `Mqtt.Overdue` — the readings of the clock that `update` misjudges;
* `Mqtt.World.Asks` — `update` sends or defers a PINGREQ;
* `Mqtt.World.PingsWhenDue` — every `update` of a run does so exactly when one is due.

Main results:

* `Mqtt.judges_iff` — what `update` compares, and what it should;
* `Mqtt.World.asks_iff` — `update` sends or defers a PINGREQ by this comparison;
* `Mqtt.pingsWhenDue_iff` — **PINGREQs are sent when due unless a reading is misjudged**.
-/

import PicoHttps.Mqtt.Fresh

set_option relaxedAutoImplicit false
set_option autoImplicit false

namespace Mqtt

/-! ### The comparison -/

/-- The comparison that `update` makes. -/
def Judges (h : MQTTSocketHandler) (nowUs : UInt64) : Prop :=
  ((nowUs - h.lastKeepaliveUs) / 1000000).toUInt32 > h.keepaliveSeconds.toUInt32

instance (h : MQTTSocketHandler) (nowUs : UInt64) : Decidable (Judges h nowUs) :=
  inferInstanceAs (Decidable (_ > _))

/-- **A PINGREQ is due**: since the last message, at least one second more than the keepalive time
has passed. -/
def Due (h : MQTTSocketHandler) (nowUs : UInt64) : Prop :=
  ((h.keepaliveSeconds.toNat : ℤ) + 1) * 1000000 ≤
    (nowUs.toNat : ℤ) - (h.lastKeepaliveUs.toNat : ℤ)

/-- The clock was read before the last message, and the difference wraps around to a long time. -/
def Stale (h : MQTTSocketHandler) (nowUs : UInt64) : Prop :=
  nowUs.toNat < h.lastKeepaliveUs.toNat ∧
    h.keepaliveSeconds.toNat <
      (2 ^ 64 + nowUs.toNat - h.lastKeepaliveUs.toNat) / 1000000 % 2 ^ 32

/-- The clock was read after the last message, and so many seconds have passed that 32 bits do not
hold them, and what is left of them is short. -/
def Overdue (h : MQTTSocketHandler) (nowUs : UInt64) : Prop :=
  2 ^ 32 ≤ (nowUs.toNat - h.lastKeepaliveUs.toNat) / 1000000 ∧
    (nowUs.toNat - h.lastKeepaliveUs.toNat) / 1000000 % 2 ^ 32 ≤ h.keepaliveSeconds.toNat

section judges

variable {h : MQTTSocketHandler} {nowUs : UInt64}

theorem judges_iff_toNat : Judges h nowUs ↔ h.keepaliveSeconds.toNat <
    (2 ^ 64 - h.lastKeepaliveUs.toNat + nowUs.toNat) % 2 ^ 64 / 1000000 % 2 ^ 32 := by
  have hmillion : (1000000 : UInt64).toNat = 1000000 := rfl
  rw [Judges, gt_iff_lt, UInt32.lt_iff_toNat_lt, UInt8.toNat_toUInt32, UInt64.toNat_toUInt32,
    UInt64.toNat_div, UInt64.toNat_sub, hmillion]

/-- **The comparison is right** unless the reading of the clock is stale, or too late. -/
theorem judges_iff : (Judges h nowUs ↔ Due h nowUs) ↔ ¬ Stale h nowUs ∧ ¬ Overdue h nowUs := by
  have hnow := nowUs.toNat_lt
  have hlast := h.lastKeepaliveUs.toNat_lt
  have hkeepalive := h.keepaliveSeconds.toNat_lt
  rw [judges_iff_toNat, Due, Stale, Overdue]
  generalize nowUs.toNat = now at *
  generalize h.lastKeepaliveUs.toNat = last at *
  generalize h.keepaliveSeconds.toNat = keepalive at *
  rcases Nat.lt_or_ge now last with hlt | hle
  · have hwrap : (2 ^ 64 - last + now) % 2 ^ 64 = 2 ^ 64 + now - last := by omega
    have hzero : now - last = 0 := by omega
    rw [hwrap, hzero]
    constructor
    · intro hiff
      refine ⟨fun hstale => ?_, by omega⟩
      have := hiff.1 hstale.2
      omega
    · rintro ⟨hstale, -⟩
      constructor
      · intro hjudges
        exact absurd ⟨hlt, hjudges⟩ hstale
      · intro hdue
        omega
  · have hwrap : (2 ^ 64 - last + now) % 2 ^ 64 = now - last := by omega
    rw [hwrap]
    omega

/-- A reading that is older than the last message by less than 71 years. -/
theorem stale_of_lt (hlt : nowUs.toNat < h.lastKeepaliveUs.toNat)
    (hrecent : h.lastKeepaliveUs.toNat ≤ nowUs.toNat + 2 ^ 51) : Stale h nowUs := by
  have hkeepalive := h.keepaliveSeconds.toNat_lt
  exact ⟨hlt, by omega⟩

end judges

/-! ### What `update` does -/

namespace World

variable {κ : Type} {d : Downstream κ} {w : World κ} {nowUs : UInt64}

/-- The handler, with no PINGREQ deferred. -/
def withoutPing (w : World κ) : World κ :=
  { w with handler := { w.handler with pendingPing := false } }

/-- **`update` sends or defers a PINGREQ**: one is handed over, or one is left deferred also where
none had been before. -/
def Asks (d : Downstream κ) (w : World κ) (nowUs : UInt64) : Prop :=
  ∃ w', w.withoutPing.update d nowUs = some (true, w') ∧
    (w'.handler.pendingPing = true ∨ ∃ p, IsPingReq p ∧ w'.handed = w.handed ++ [p.bytes])

/-- Where its comparison says so, `update` hands over a PINGREQ, or leaves one deferred. -/
theorem update_judges (hconnected : (d.isConnected w.env).1 = true)
    (hjudges : Judges w.handler nowUs) : ∃ w', w.update d nowUs = some (true, w') ∧
      (w'.handler.pendingPing = true ∨ ∃ p, IsPingReq p ∧ w'.handed = w.handed ++ [p.bytes]) := by
  rcases hanswer : d.isConnected w.env with ⟨connected, env⟩
  rw [hanswer] at hconnected
  let w₁ : World κ := ({ w with env := env } : World κ).stamp d
  have hupdate : w.update d nowUs = (w₁.sendPing d).bind fun r => some (true, r.2) := by
    rw [update, hanswer]
    exact (if_pos hconnected).trans (if_pos hjudges)
  rcases Nat.eq_zero_or_pos w₁.handler.pendingSendDataLen with hzero | hpos
  · obtain ⟨r, p, hresult, hp, hout, -⟩ := sendPing_spec (d := d) hzero
    refine ⟨r.2, ?_, .inr ⟨p, hp, hout⟩⟩
    rw [hupdate, hresult]
    rfl
  · refine ⟨{ w₁ with handler := { w₁.handler with pendingPing := true } }, ?_, .inl rfl⟩
    rw [hupdate, sendPing_defer hpos]
    rfl

/-- Where its comparison does not say so, `update` leaves everything as it is. -/
theorem update_not_judges (hconnected : (d.isConnected w.env).1 = true)
    (hjudges : ¬ Judges w.handler nowUs) :
    w.update d nowUs = some (true, { w with env := (d.isConnected w.env).2 }) := by
  rcases hanswer : d.isConnected w.env with ⟨connected, env⟩
  rw [hanswer] at hconnected
  rw [update, hanswer]
  exact (if_pos hconnected).trans (if_neg hjudges)

/-- **`update` sends or defers a PINGREQ by its comparison.** -/
theorem asks_iff (hconnected : (d.isConnected w.env).1 = true) :
    w.Asks d nowUs ↔ Judges w.handler nowUs := by
  constructor
  · rintro ⟨w', hresult, hping⟩
    by_contra hjudges
    have hupdate := update_not_judges (w := w.withoutPing) hconnected hjudges
    rw [hupdate] at hresult
    cases hresult
    rcases hping with hdeferred | ⟨p, -, hout⟩
    · cases hdeferred
    · exact absurd (List.self_eq_append_right.1 hout) (List.cons_ne_nil _ _)
  · intro hjudges
    exact update_judges (w := w.withoutPing) hconnected hjudges

/-- **Every `update` of a run with a connected downstream sends or defers a PINGREQ exactly when one
is due.** -/
def PingsWhenDue (d : Downstream κ) (w : World κ) (calls : List Call) : Prop :=
  ∀ pre nowUs post rs w', calls = pre ++ .operate (.update nowUs) :: post →
    w.trace d pre = some (rs, w') → (d.isConnected w'.env).1 = true →
      (w'.Asks d nowUs ↔ Due w'.handler nowUs)

end World

/-- **PINGREQs are sent when due unless a reading is misjudged.**  In a run of `on_connected` and of
the operations, every `update` with a connected downstream sends or defers a PINGREQ exactly when
one is due, if and only if no such `update` is given a reading of the clock that is stale or too
late. -/
theorem pingsWhenDue_iff {κ : Type} (d : Downstream κ) (w : World κ) (calls : List Call) :
    w.PingsWhenDue d calls ↔ ∀ pre nowUs post rs w',
      calls = pre ++ .operate (.update nowUs) :: post → w.trace d pre = some (rs, w') →
        (d.isConnected w'.env).1 = true →
          ¬ Stale w'.handler nowUs ∧ ¬ Overdue w'.handler nowUs := by
  constructor
  · intro hpings pre nowUs post rs w' hcalls hpre hconnected
    rw [← judges_iff, ← World.asks_iff hconnected]
    exact hpings pre nowUs post rs w' hcalls hpre hconnected
  · intro hread pre nowUs post rs w' hcalls hpre hconnected
    rw [World.asks_iff hconnected, judges_iff]
    exact hread pre nowUs post rs w' hcalls hpre hconnected

/-- A downstream that answers every call with 0, at a clock that stands at five microseconds. -/
def atFive : Downstream Unit := { quiet with getAbsoluteTime := fun _ => (5, ()) }

/-- The clock is read at three microseconds, the connection is established at five, and `update` is
called with the reading: a PINGREQ is handed over before the CONNECT. -/
theorem stale_reading_pings :
    ¬ ∀ (d : Downstream Unit) (calls : List Call),
      (⟨zeroed, (), []⟩ : World Unit).PingsWhenDue d calls := by
  intro hall
  let w : World Unit := (⟨zeroed, (), []⟩ : World Unit).onConnected atFive
  have hstale : Stale w.handler 3 := stale_of_lt (by decide) (by decide)
  have hpings : w.Asks atFive 3 ↔ Due w.handler 3 :=
    hall atFive [.onConnected, .operate (.update 3)] [.onConnected] 3 [] _ w rfl rfl rfl
  rw [World.asks_iff rfl, judges_iff] at hpings
  exact hpings.1 hstale

end Mqtt
