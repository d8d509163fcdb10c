/-
**The deferred PINGREQ.**

A PINGREQ that is asked for inside the body of a PUBLISH is deferred, and `send_publish_data` hands
it over after the last byte of the body.  It does so only when `ISessionSender::send` answers
something else than zero, and zero is how that function says that it has sent the bytes: so with a
downstream that sends everything, the PINGREQ stays deferred after the body.

Main definitions:

* `Mqtt.World.Kept` — no PINGREQ is deferred outside of a body;
* `Mqtt.World.Completes` — an operation that completes a body with a deferred PINGREQ;
* `Mqtt.World.PingKept` — **no deferred PINGREQ is lost in a run**.

Main results:

* `Mqtt.World.step_kept_iff` — one operation;
* `Mqtt.pingKept_iff` — **a deferred PINGREQ is lost exactly when a body is completed**.
-/

import PicoHttps.Mqtt.Framing

set_option relaxedAutoImplicit false
set_option autoImplicit false

namespace Mqtt

namespace World

variable {κ : Type} {d : Downstream κ} {w w' : World κ} {ok : Bool}

/-- A PINGREQ is deferred only inside the body of a PUBLISH. -/
def Kept (w : World κ) : Prop := w.handler.pendingPing = true → 0 < w.handler.pendingSendDataLen

/-- The operation completes the body of a PUBLISH while a PINGREQ is deferred. -/
def Completes (w : World κ) : SendOp → Prop
  | .sendPublishData data =>
    data.length = w.handler.pendingSendDataLen ∧ w.handler.pendingPing = true
  | _ => False

/-- **No deferred PINGREQ is lost** when the operations `ops` are called: none is deferred outside
of a body, and the operation that completes a body hands it over after the last byte. -/
structure PingKept (d : Downstream κ) (w : World κ) (ops : List SendOp) : Prop where
  kept : ∀ pre post w', ops = pre ++ post → w.runOps d pre = some w' → w'.Kept
  handed : ∀ pre data post w' ok w'', ops = pre ++ .sendPublishData data :: post →
    w.runOps d pre = some w' → w'.Completes (.sendPublishData data) →
    w'.step d (.sendPublishData data) = some (ok, w'') →
      ∃ p, IsPingReq p ∧ w''.handed = w'.handed ++ [data, p.bytes]

/-! ### One operation -/

/-- The operation leaves the deferral, and the length of the body, as they are. -/
def SameBody (w w' : World κ) : Prop :=
  w'.handler.pendingPing = w.handler.pendingPing ∧
    w'.handler.pendingSendDataLen = w.handler.pendingSendDataLen

theorem SameBody.kept (h : w.SameBody w') (hw : w.Kept) : w'.Kept := by
  intro hping
  rw [h.2]
  exact hw (h.1 ▸ hping)

theorem sendConnect_sameBody {cleanSession : Bool} {keepaliveSeconds : UInt8}
    {id willTopic willMessage user pass : Option (List UInt8)}
    (h : w.sendConnect d cleanSession keepaliveSeconds id willTopic willMessage user pass =
      some (ok, w')) : w.SameBody w' := by
  rcases sendConnect_cases h with ⟨-, rfl⟩ | ⟨-, bytes, heq⟩
  · exact ⟨rfl, rfl⟩
  · cases heq
    exact ⟨rfl, rfl⟩

theorem sendSubscribe_sameBody {topic : List UInt8} (h : w.sendSubscribe d topic = some (ok, w')) :
    w.SameBody w' := by
  rcases sendSubscribe_cases h with ⟨-, rfl⟩ | ⟨-, bytes, heq⟩
  · exact ⟨rfl, rfl⟩
  · cases heq
    exact ⟨rfl, rfl⟩

/-- The header of a PUBLISH begins a body, outside of which nothing is deferred. -/
theorem sendPublishHeader_kept {topic : List UInt8} {messageLength : ℕ} {messageId : Option UInt16}
    (hw : w.Kept) (h : w.sendPublishHeader d topic messageLength = some (messageId, ok, w')) :
    w'.Kept := by
  rcases sendPublishHeader_cases h with ⟨-, rfl⟩ | ⟨hzero, bytes, heq⟩
  · exact hw
  · cases heq
    intro hping
    exact absurd (hw hping) (by omega)

/-- A PINGREQ is handed over, or deferred inside of a body. -/
theorem sendPing_kept (h : w.sendPing d = some (ok, w')) : w'.Kept := by
  rcases sendPing_cases h with ⟨hpos, -, rfl⟩ | ⟨-, bytes, heq⟩
  · exact fun _ => hpos
  · cases heq
    intro hping
    cases hping

theorem update_kept {nowUs : UInt64} (hw : w.Kept) (h : w.update d nowUs = some (ok, w')) :
    w'.Kept := by
  rcases hconnected : d.isConnected w.env with ⟨connected, env⟩
  rw [update, hconnected] at h
  dsimp only at h
  split at h
  · split at h
    · obtain ⟨⟨ok', w₁⟩, hping, h⟩ := Option.bind_eq_some_iff.1 h
      cases h
      exact sendPing_kept hping
    · cases h
      exact hw
  · cases h
    exact hw

/-- A downstream that sends everything. -/
def Accepts (d : Downstream κ) : Prop := ∀ bytes env, (d.send bytes env).1 = 0

/-- **The payload is handed over, and nothing after it**, when the downstream sends everything. -/
theorem sendPublishData_accepts (hd : Accepts d) {data : List UInt8}
    (h : data.length ≤ w.handler.pendingSendDataLen) :
    ∃ w', w.sendPublishData d data = some (false, w') ∧ w'.handed = w.handed ++ [data] ∧
      w'.handler.pendingPing = w.handler.pendingPing ∧
      w'.handler.pendingSendDataLen = w.handler.pendingSendDataLen - data.length := by
  let w₀ : World κ := { w with handler := { w.handler with
    pendingSendDataLen := w.handler.pendingSendDataLen - data.length } }
  have hok : (w₀.send d data).1 = false := by
    show ((d.send data w₀.env).1 != 0) = false
    rw [hd]
    rfl
  refine ⟨(w₀.send d data).2, ?_, rfl, rfl, rfl⟩
  rw [sendPublishData, if_neg (by omega)]
  dsimp only
  rw [show (World.send d w₀ data).1 = false from hok, Bool.not_false, if_pos rfl]

/-- **One operation loses a deferred PINGREQ exactly when it completes a body.** -/
theorem step_kept_iff (hd : Accepts d) {op : SendOp} (hw : w.Kept)
    (h : w.step d op = some (ok, w')) : w'.Kept ↔ ¬ w.Completes op := by
  cases op with
  | sendConnect cleanSession keepaliveSeconds id willTopic willMessage user pass =>
      exact ⟨fun _ => not_false, fun _ => (sendConnect_sameBody h).kept hw⟩
  | sendSubscribe topic => exact ⟨fun _ => not_false, fun _ => (sendSubscribe_sameBody h).kept hw⟩
  | sendPublishHeader topic messageLength =>
      refine ⟨fun _ => not_false, fun _ => ?_⟩
      obtain ⟨⟨messageId, ok', w₁⟩, hresult, heq⟩ := Option.map_eq_some_iff.1 h
      cases heq
      exact sendPublishHeader_kept hw hresult
  | sendPublishData data =>
      rcases Nat.lt_or_ge w.handler.pendingSendDataLen data.length with hlt | hle
      · -- more than is missing is refused
        rw [step, sendPublishData, if_pos hlt] at h
        cases h
        exact ⟨fun _ hc => absurd hc.1 (by omega), fun _ => hw⟩
      · obtain ⟨w₁, hresult, -, hping, hlen⟩ := sendPublishData_accepts hd hle
        rw [step, hresult] at h
        cases h
        rw [Kept, hping, hlen]
        constructor
        · rintro hkept ⟨hlast, hdeferred⟩
          have := hkept hdeferred
          omega
        · intro hnot hdeferred
          by_contra hzero
          exact hnot ⟨by omega, hdeferred⟩
  | sendPing => exact ⟨fun _ => not_false, fun _ => sendPing_kept h⟩
  | update nowUs => exact ⟨fun _ => not_false, fun _ => update_kept hw h⟩

/-! ### Runs -/

theorem runOps_append {pre post : List SendOp} : ∀ {w : World κ},
    w.runOps d (pre ++ post) = (w.runOps d pre).bind fun w' => w'.runOps d post := by
  induction pre with
  | nil => intro w; rfl
  | cons op pre ih =>
      intro w
      rw [List.cons_append, runOps, runOps]
      cases w.step d op with
      | none => rfl
      | some r => exact ih

/-- **A run that completes no body with a deferred PINGREQ loses none.** -/
theorem runOps_kept (hd : Accepts d) {ops : List SendOp} : ∀ {w w' : World κ}, w.Kept →
    (∀ pre op post w₁, ops = pre ++ op :: post → w.runOps d pre = some w₁ → ¬ w₁.Completes op) →
    w.runOps d ops = some w' → w'.Kept := by
  induction ops with
  | nil =>
      intro w w' hw _ hrun
      cases hrun
      exact hw
  | cons op ops ih =>
      intro w w' hw hnone hrun
      obtain ⟨⟨ok, w₁⟩, hstep, hrest⟩ := Option.bind_eq_some_iff.1 hrun
      have hw₁ : w₁.Kept := (step_kept_iff hd hw hstep).2 (hnone [] op ops w rfl rfl)
      refine ih hw₁ ?_ hrest
      intro pre op' post w₂ hops hpre
      refine hnone (op :: pre) op' post w₂ (by rw [hops]; rfl) ?_
      rw [runOps, hstep]
      exact hpre

end World

/-- **A deferred PINGREQ is lost exactly when a body is completed.**  With a downstream that sends
everything, no PINGREQ is lost in a run since the last reset if and only if no operation of the run
completes a body while a PINGREQ is deferred. -/
theorem pingKept_iff {κ : Type} (d : Downstream κ) (hd : World.Accepts d) (h : MQTTSocketHandler)
    (now : UInt64) (env : κ) (ops : List SendOp) :
    World.PingKept d ⟨h.reset now, env, []⟩ ops ↔
      ∀ pre op post w, ops = pre ++ op :: post →
        (⟨h.reset now, env, []⟩ : World κ).runOps d pre = some w → ¬ w.Completes op := by
  constructor
  · rintro ⟨hkept, -⟩ pre op post w hops hpre hcompletes
    have hw : w.Kept := hkept pre (op :: post) w hops hpre
    -- the operation that completes the body returns, and leaves the PINGREQ deferred
    cases op with
    | sendPublishData data =>
        obtain ⟨w', hstep, -, -⟩ := World.sendPublishData_accepts hd (le_of_eq hcompletes.1)
        have hstep' : w.step d (.sendPublishData data) = some (false, w') := hstep
        refine (World.step_kept_iff hd hw hstep').1 (hkept (pre ++ [.sendPublishData data]) post w'
          (by rw [hops, List.append_assoc]; rfl) ?_) hcompletes
        rw [World.runOps_append, hpre, Option.bind_some, World.runOps, hstep']
        rfl
    | _ => exact hcompletes.elim
  · intro hnone
    refine ⟨?_, ?_⟩
    · intro pre post w hops hpre
      refine World.runOps_kept hd (fun hping => ?_) ?_ hpre
      · cases hping
      · intro pre' op post' w₁ hpre' hrun
        exact hnone pre' op (post' ++ post) w₁ (by rw [hops, hpre']; simp) hrun
    · intro pre data post w ok w' hops hpre hcompletes
      exact absurd hcompletes (hnone pre _ post w hops hpre)

/-- With a PINGREQ that is asked for inside the body, and no more data. -/
theorem pingKept_iff_example :
    World.PingKept quiet ⟨zeroed.reset 0, (), []⟩ [.sendPublishHeader [7] 2, .sendPing] := by
  refine (pingKept_iff quiet (fun _ _ => rfl) zeroed 0 () _).2 fun pre op post w heq _ => ?_
  have hop : op ∈ [SendOp.sendPublishHeader [7] 2, .sendPing] := by
    rw [heq]
    exact List.mem_append_right pre List.mem_cons_self
  simp only [List.mem_cons, List.not_mem_nil, or_false] at hop
  rcases hop with rfl | rfl <;> exact id

/-- A body of one byte, with a PINGREQ that is asked for before it is handed over. -/
theorem ping_lost :
    ¬ ∀ (d : Downstream Unit), World.Accepts d → ∀ (h : MQTTSocketHandler) (now : UInt64)
      (ops : List SendOp), World.PingKept d ⟨h.reset now, (), []⟩ ops := by
  intro hall
  obtain ⟨hkept, -⟩ := hall quiet (fun _ _ => rfl) zeroed 0
    [.sendPublishHeader [7] 1, .sendPing, .sendPublishData [9]]
  have hrun : ((⟨zeroed.reset 0, (), []⟩ : World Unit).runOps quiet
      [.sendPublishHeader [7] 1, .sendPing, .sendPublishData [9]]).map
        (fun w => (w.handler.pendingPing, w.handler.pendingSendDataLen)) = some (true, 0) := by
    decide +kernel
  obtain ⟨w, hw, hfields⟩ := Option.map_eq_some_iff.1 hrun
  obtain ⟨hping, hlen⟩ := Prod.mk.inj hfields
  have hpos := hkept _ [] w (List.append_nil _).symm hw hping
  omega

end Mqtt
