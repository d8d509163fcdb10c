/-
**What an operation reports.**

`ISessionSender::send` answers `ERR_OK`, which is zero, when it has sent the bytes, and a negative
code when it has not.  The operations of the handler return that code as a `bool`, so they report
the opposite: an operation that makes one send never tells the truth about it.  The one call that
tells the truth is a `send_publish_data` whose two errors make up for each other: the data is
refused, which it takes for a success, and the deferred PINGREQ after it is sent, which it takes
for a failure.

Main definitions:

* `Mqtt.Downstream.noted` — a downstream with a note of what its `send` has answered;
* `Mqtt.Truthful` — the operation is successful exactly when all its sends have been.

Main results:

* `Mqtt.World.step_notes` — the sends of an operation, and what it returns;
* `Mqtt.truthful_iff` — **an operation tells the truth only when its errors make up for each
  other**.
-/

import PicoHttps.Mqtt.Keepalive

set_option relaxedAutoImplicit false
set_option autoImplicit false

namespace Mqtt

/-- The downstream, with a note of what its `send` has answered. -/
def Downstream.noted {κ : Type} (d : Downstream κ) : Downstream (κ × List Int8) where
  send := fun bytes env =>
    let (code, env') := d.send bytes env.1
    (code, env', env.2 ++ [code])
  isConnected := fun env =>
    let (connected, env') := d.isConnected env.1
    (connected, env', env.2)
  getAbsoluteTime := fun env =>
    let (now, env') := d.getAbsoluteTime env.1
    (now, env', env.2)
  stack := fun n env => d.stack n env.1

/-- **The operation is successful exactly when all its sends have been.** -/
def Truthful (ok : Bool) (codes : List Int8) : Prop := ok = true ↔ ∀ code ∈ codes, code = 0

/-- One send, whose answer is taken the wrong way round, is not told the truth about. -/
theorem not_truthful_one (code : Int8) : ¬ Truthful (code != 0) [code] := by
  intro h
  have hone : (∀ c ∈ [code], c = 0) ↔ code = 0 := List.forall_mem_singleton
  rw [Truthful, bne_iff_ne, hone] at h
  exact iff_not_self h.symm

/-- An answer of `send` is not an error and is not taken for one. -/
theorem not_truthful_zero {codes : List Int8} (h : ∀ code ∈ codes, code = 0) :
    ¬ Truthful false codes := by
  intro htrue
  exact Bool.false_ne_true (htrue.2 h)

namespace World

variable {κ : Type} {d : Downstream κ} {w w' : World (κ × List Int8)} {ok : Bool}

/-- The operation has sent nothing, or once and returned the answer. -/
def SendsOnce (w : World (κ × List Int8)) (ok : Bool) (w' : World (κ × List Int8)) : Prop :=
  w'.env.2 = w.env.2 ∨ ∃ code, w'.env.2 = w.env.2 ++ [code] ∧ ok = (code != 0)

theorem sendsOnce_send {h : MQTTSocketHandler} {env : κ × List Int8} {handed : List (List UInt8)}
    {bytes : List UInt8} (heq : (ok, w') = World.send d.noted ⟨h, env, handed⟩ bytes)
    (henv : env.2 = w.env.2) : w.SendsOnce ok w' := by
  cases heq
  exact .inr ⟨(d.send bytes env.1).1, congrArg (· ++ _) henv, rfl⟩

theorem sendPing_once (h : w.sendPing d.noted = some (ok, w')) : w.SendsOnce ok w' := by
  rcases sendPing_cases h with ⟨-, -, rfl⟩ | ⟨-, bytes, heq⟩
  · exact .inl rfl
  · exact sendsOnce_send heq rfl

/-- Data is sent once, and the PINGREQ after it only when that send has failed. -/
theorem sendPublishData_notes {data : List UInt8}
    (h : w.sendPublishData d.noted data = some (ok, w')) : w.SendsOnce ok w' ∨
      ∃ code code', w'.env.2 = w.env.2 ++ [code, code'] ∧ code ≠ 0 ∧ ok = (code' != 0) ∧
        w.Completes (.sendPublishData data) := by
  rcases sendPublishData_cases h with ⟨-, -, rfl⟩ | ⟨hle, sent, w₁, heq, hrest⟩
  · exact .inl (.inl rfl)
  split at hrest
  · rename_i hping
    obtain ⟨hsent, hlast, hdeferred⟩ := hping
    cases heq
    have hlast : w.handler.pendingSendDataLen - data.length = 0 := hlast
    have hcode : (d.send data w.env.1).1 ≠ 0 := bne_iff_ne.1 hsent
    rcases sendPing_cases hrest with ⟨hpos, -⟩ | ⟨-, bytes, heq⟩
    · exact absurd hlast (Nat.ne_of_gt hpos)
    · cases heq
      refine .inr ⟨_, _, ?_, hcode, rfl, by omega, hdeferred⟩
      exact List.append_assoc ..
  · obtain ⟨rfl, rfl⟩ := hrest
    exact .inl (sendsOnce_send heq rfl)

/-- **The sends of an operation, and what it returns.** -/
theorem step_notes {op : SendOp} (hop : ∀ nowUs, op ≠ .update nowUs)
    (h : w.step d.noted op = some (ok, w')) : w.SendsOnce ok w' ∨
      ∃ code code', w'.env.2 = w.env.2 ++ [code, code'] ∧ code ≠ 0 ∧ ok = (code' != 0) ∧
        w.Completes op := by
  cases op with
  | sendConnect cleanSession keepaliveSeconds id willTopic willMessage user pass =>
      rcases sendConnect_cases h with ⟨-, rfl⟩ | ⟨-, bytes, heq⟩
      · exact .inl (.inl rfl)
      · exact .inl (sendsOnce_send heq rfl)
  | sendSubscribe topic =>
      rcases sendSubscribe_cases h with ⟨-, rfl⟩ | ⟨-, bytes, heq⟩
      · exact .inl (.inl rfl)
      · exact .inl (sendsOnce_send heq rfl)
  | sendPublishHeader topic messageLength =>
      obtain ⟨⟨messageId, ok', w₁⟩, hresult, heq⟩ := Option.map_eq_some_iff.1 h
      cases heq
      rcases sendPublishHeader_cases hresult with ⟨-, rfl⟩ | ⟨-, bytes, heq⟩
      · exact .inl (.inl rfl)
      · exact .inl (sendsOnce_send heq rfl)
  | sendPublishData data => exact sendPublishData_notes h
  | sendPing => exact .inl (sendPing_once h)
  | update nowUs => exact absurd rfl (hop nowUs)

end World

/-- **An operation tells the truth only when its errors make up for each other.**  An operation
that has made a send returns true exactly when all of them have been answered with `ERR_OK`, if and
only if it completes the body of a PUBLISH while a PINGREQ is deferred, the send of the data has
failed, and the one of the PINGREQ has not. -/
theorem truthful_iff {κ : Type} (d : Downstream κ) (w w' : World (κ × List Int8)) (op : SendOp)
    (hop : ∀ nowUs, op ≠ .update nowUs) (ok : Bool) (codes : List Int8) (hcodes : codes ≠ [])
    (hstep : w.step d.noted op = some (ok, w')) (hsent : w'.env.2 = w.env.2 ++ codes) :
    Truthful ok codes ↔ w.Completes op ∧ ∃ code, codes = [code, 0] ∧ code ≠ 0 := by
  rcases World.step_notes hop hstep with (hnone | ⟨code, hone, rfl⟩) |
    ⟨code, code', htwo, hcode, rfl, hcompletes⟩
  · rw [hnone] at hsent
    exact absurd (List.self_eq_append_right.1 hsent) hcodes
  · obtain rfl : codes = [code] := List.append_cancel_left (hsent.symm.trans hone)
    refine ⟨fun htrue => absurd htrue (not_truthful_one code), ?_⟩
    rintro ⟨-, code', heq, -⟩
    cases heq
  · obtain rfl : codes = [code, code'] := List.append_cancel_left (hsent.symm.trans htwo)
    constructor
    · intro htrue
      refine ⟨hcompletes, code, ?_, hcode⟩
      by_contra hne
      have hok : code' ≠ 0 := fun hzero => hne (by rw [hzero])
      exact hcode ((htrue.1 (bne_iff_ne.2 hok)) code List.mem_cons_self)
    · rintro ⟨-, code₁, heq, -⟩
      cases heq
      constructor
      · intro hok
        exact absurd hok Bool.false_ne_true
      · intro hall
        exact absurd (hall code List.mem_cons_self) hcode

/-- A downstream that refuses the byte 9, and sends everything else. -/
def fussy : Downstream Unit where
  send := fun bytes _ => (if bytes = [9] then -1 else 0, ())
  isConnected := fun _ => (true, ())
  getAbsoluteTime := fun _ => (0, ())
  stack := fun n _ => .filled n 0

/-- The last byte of a body, with a PINGREQ deferred: the data is refused, the PINGREQ is sent. -/
theorem truthful_iff_example : ∃ w' : World (Unit × List Int8),
    (⟨{ zeroed with pendingSendDataLen := 1, pendingPing := true }, ((), []), []⟩ :
      World (Unit × List Int8)).step fussy.noted (.sendPublishData [9]) = some (false, w') ∧
      Truthful false [-1, 0] := by
  have hrun : ((⟨{ zeroed with pendingSendDataLen := 1, pendingPing := true }, ((), []), []⟩ :
      World (Unit × List Int8)).step fussy.noted (.sendPublishData [9])).map
        (fun r => (r.1, r.2.env.2)) = some (false, [-1, 0]) := by
    decide +kernel
  obtain ⟨⟨ok, w'⟩, hstep, hfields⟩ := Option.map_eq_some_iff.1 hrun
  obtain ⟨rfl, hcodes⟩ := Prod.mk.inj hfields
  refine ⟨w', hstep, (truthful_iff fussy _ w' (.sendPublishData [9]) (fun _ => nofun) false [-1, 0]
    (List.cons_ne_nil _ _) hstep hcodes).2 ⟨⟨rfl, rfl⟩, -1, rfl, by decide⟩⟩

/-- A PINGREQ that is sent is reported as a failure. -/
theorem sent_reported_failed :
    ¬ ∀ (d : Downstream Unit), (∀ bytes env, (d.send bytes env).1 ≤ 0) →
      ∀ (h : MQTTSocketHandler) (now : UInt64) (ops : List SendOp) (w w' : World (Unit × List Int8))
        (op : SendOp) (ok : Bool) (codes : List Int8),
        (⟨h.reset now, ((), []), []⟩ : World (Unit × List Int8)).runOps d.noted ops = some w →
        (∀ nowUs, op ≠ .update nowUs) → codes ≠ [] → w.step d.noted op = some (ok, w') →
        w'.env.2 = w.env.2 ++ codes → Truthful ok codes := by
  intro hall
  have hrun : ((⟨zeroed.reset 0, ((), []), []⟩ : World (Unit × List Int8)).step quiet.noted
      .sendPing).map (fun r => (r.1, r.2.env.2)) = some (false, [0]) := by
    decide +kernel
  obtain ⟨⟨ok, w'⟩, hstep, hfields⟩ := Option.map_eq_some_iff.1 hrun
  obtain ⟨rfl, hcodes⟩ := Prod.mk.inj hfields
  have htrue := hall quiet (fun _ _ => Int8.le_refl 0) zeroed 0 [] _ w' .sendPing false [0] rfl
    (fun _ => nofun) (List.cons_ne_nil _ _) hstep hcodes
  exact not_truthful_zero (List.forall_mem_singleton.2 rfl) htrue

end Mqtt
