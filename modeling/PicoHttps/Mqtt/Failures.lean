/-
**Sends that fail.**

`ISessionSender::send` takes either all of the bytes or, when it answers an error, none of them.
The handler updates what is pending as if the bytes had always been taken: a PUBLISH whose beginning
has been refused is one whose body is owed, a piece of the body that has been refused counts as
handed over, and a PINGREQ that has been refused is not deferred any more.  What the downstream has
taken is then no longer what `m_pendingSendDataLen` says.

Main definitions:

* `Mqtt.World.accepted` — the bytes that the downstream has taken;
* `Mqtt.World.Failed`, `Mqtt.World.Moves` — a call with a send that fails, and the calls that change
  what is pending together with their first send;
* `Mqtt.World.Synchronised` — **failed sends do not desynchronise the stream**.

Main results:

* `Mqtt.World.step_sends` — the sends of a call;
* `Mqtt.World.step_sameBody_iff` — a call that fails leaves what is pending unless it moves it;
* `Mqtt.World.step_accepted` — what the downstream takes of a call keeps the framing;
* `Mqtt.synchronised_iff` — **the stream is desynchronised exactly by the calls that move it**.
-/

import PicoHttps.Mqtt.Reports

set_option relaxedAutoImplicit false
set_option autoImplicit false

namespace Mqtt

namespace World

variable {κ : Type} {d : Downstream κ} {w w' : World (κ × List Int8)} {ok : Bool}

/-- The bytes of the sends that have been answered with `ERR_OK`. -/
def taken (sends : List (List UInt8 × Int8)) : List UInt8 :=
  (sends.filter fun s => s.2 == 0).flatMap (·.1)

/-- The bytes that the downstream has taken. -/
def accepted (w : World (κ × List Int8)) : List UInt8 := taken (w.handed.zip w.env.2)

/-- Every answer belongs to a send. -/
def Answered (w : World (κ × List Int8)) : Prop := w.handed.length = w.env.2.length

/-- A send of the call from `w` to `w'` has been answered with an error. -/
def Failed (w w' : World (κ × List Int8)) : Prop :=
  ∃ codes, w'.env.2 = w.env.2 ++ codes ∧ ∃ code ∈ codes, code ≠ 0

/-- The call changes what is pending together with its first send: it begins a PUBLISH with a
payload, hands over some of the payload, or is about to send the deferred PINGREQ. -/
def Moves (w : World κ) : SendOp → Prop
  | .sendPublishHeader _ messageLength => 0 < messageLength
  | .sendPublishData data =>
    0 < data.length ∨ w.handler.pendingSendDataLen = 0 ∧ w.handler.pendingPing = true
  | .sendPing | .update _ => w.handler.pendingPing = true
  | .sendConnect .. | .sendSubscribe _ => False

/-- **Failed sends do not desynchronise the stream**: a call with a send that fails leaves what is
pending as it was; and every call returns, with what the downstream has taken so far being complete
packets, and at most one PUBLISH that lacks `m_pendingSendDataLen` bytes. -/
structure Synchronised (d : Downstream κ) (w : World (κ × List Int8)) (ops : List SendOp) :
    Prop where
  restored : ∀ pre op post w₁ ok w₂, ops = pre ++ op :: post → w.runOps d.noted pre = some w₁ →
    w₁.step d.noted op = some (ok, w₂) → Failed w₁ w₂ → w₁.SameBody w₂
  framed : ∀ pre post, ops = pre ++ post → ∃ w₁, w.runOps d.noted pre = some w₁ ∧
    Framed w₁.accepted w₁.handler.pendingSendDataLen

/-! ### The sends of a call -/

/-- The call from `w` to `w'` has made the sends, with these answers. -/
structure Sent (w w' : World (κ × List Int8)) (sends : List (List UInt8 × Int8)) : Prop where
  handed : w'.handed = w.handed ++ sends.map (·.1)
  codes : w'.env.2 = w.env.2 ++ sends.map (·.2)

theorem sent_nil (hhanded : w'.handed = w.handed) (hcodes : w'.env.2 = w.env.2) : Sent w w' [] :=
  ⟨hhanded.trans (List.append_nil _).symm, hcodes.trans (List.append_nil _).symm⟩

/-- One send. -/
theorem sent_send {h : MQTTSocketHandler} {env : κ × List Int8} {handed : List (List UInt8)}
    {bytes : List UInt8} (heq : (ok, w') = World.send d.noted ⟨h, env, handed⟩ bytes)
    (hhanded : handed = w.handed) (henv : env.2 = w.env.2) :
    Sent w w' [(bytes, (d.send bytes env.1).1)] := by
  cases heq
  exact ⟨congrArg (· ++ _) hhanded, congrArg (· ++ _) henv⟩

variable {sends : List (List UInt8 × Int8)}

theorem Sent.trans {w₁ : World (κ × List Int8)} {sends' : List (List UInt8 × Int8)}
    (h : Sent w w₁ sends) (h' : Sent w₁ w' sends') : Sent w w' (sends ++ sends') := by
  constructor
  · rw [h'.handed, h.handed, List.append_assoc, List.map_append]
  · rw [h'.codes, h.codes, List.append_assoc, List.map_append]

theorem Sent.failed_iff (h : Sent w w' sends) : Failed w w' ↔ ∃ s ∈ sends, s.2 ≠ 0 := by
  constructor
  · rintro ⟨codes, hcodes, code, hmem, hne⟩
    obtain rfl : codes = sends.map (·.2) := List.append_cancel_left (hcodes.symm.trans h.codes)
    obtain ⟨s, hs, rfl⟩ := List.mem_map.1 hmem
    exact ⟨s, hs, hne⟩
  · rintro ⟨s, hs, hne⟩
    exact ⟨sends.map (·.2), h.codes, s.2, List.mem_map_of_mem hs, hne⟩

theorem Sent.answered (h : Sent w w' sends) (hw : w.Answered) : w'.Answered := by
  rw [Answered, h.handed, h.codes, List.length_append, List.length_append, List.length_map,
    List.length_map, hw]

theorem taken_append (sends sends' : List (List UInt8 × Int8)) :
    taken (sends ++ sends') = taken sends ++ taken sends' := by
  rw [taken, List.filter_append, List.flatMap_append]
  rfl

/-- What the downstream has taken, after a call. -/
theorem Sent.accepted (h : Sent w w' sends) (hw : w.Answered) :
    w'.accepted = w.accepted ++ taken sends := by
  rw [World.accepted, h.handed, h.codes, List.zip_append hw, taken_append, ← List.unzip_fst,
    ← List.unzip_snd, List.zip_unzip]
  rfl

/-- Sends that do not fail are taken. -/
theorem taken_of_not_failed (h : ∀ s ∈ sends, s.2 = 0) :
    taken sends = (sends.map (·.1)).flatten := by
  have hall : sends.filter (fun s => s.2 == 0) = sends :=
    List.filter_eq_self.2 fun s hs => beq_iff_eq.2 (h s hs)
  rw [taken, hall, List.flatMap_def]

/-- A send that fails is not taken. -/
theorem taken_failed {bytes : List UInt8} {code : Int8} (h : code ≠ 0) :
    taken [(bytes, code)] = [] := by
  have hnone : [(bytes, code)].filter (fun s => s.2 == 0) = [] :=
    List.filter_eq_nil_iff.2 fun s hs => by
      rw [List.mem_singleton.1 hs]
      exact fun hzero => h (beq_iff_eq.1 hzero)
  rw [taken, hnone, List.flatMap_nil]

/-- What the sends of a call are: none; one, and what is pending changes with it in the calls that
move it; or two, of which the first one has failed and moved it. -/
inductive Sends (w : World (κ × List Int8)) (op : SendOp) (w' : World (κ × List Int8)) : Prop
  | nothing (hsent : Sent w w' [])
  | once (s : List UInt8 × Int8) (hsent : Sent w w' [s])
      (hbody : s.2 ≠ 0 → (w.SameBody w' ↔ ¬ w.Moves op))
  | twice (s t : List UInt8 × Int8) (hsent : Sent w w' [s, t]) (hfailed : s.2 ≠ 0)
      (hmoves : w.Moves op) (hbody : ¬ w.SameBody w')

/-- A PINGREQ is sent in the place of the deferred one. -/
theorem sendPing_sends (h : w.sendPing d.noted = some (ok, w')) : Sent w w' [] ∨
    ∃ s, Sent w w' [s] ∧ (w.SameBody w' ↔ ¬ w.handler.pendingPing = true) := by
  rcases sendPing_cases h with ⟨-, -, rfl⟩ | ⟨-, bytes, heq⟩
  · exact .inl (sent_nil rfl rfl)
  · refine .inr ⟨_, sent_send heq rfl rfl, ?_⟩
    cases heq
    constructor
    · rintro ⟨hping, -⟩ hdeferred
      rw [hdeferred] at hping
      cases hping
    · intro hnone
      exact ⟨(Bool.eq_false_of_not_eq_true hnone).symm, rfl⟩

theorem update_sends {nowUs : UInt64} (h : w.update d.noted nowUs = some (ok, w')) :
    Sends w (.update nowUs) w' := by
  rcases hconnected : d.noted.isConnected w.env with ⟨connected, env⟩
  have henv : w.env.2 = env.2 := congrArg (fun r => r.2.2) hconnected
  rw [update, hconnected] at h
  dsimp only at h
  split at h
  · split at h
    · obtain ⟨⟨ok', w₁⟩, hping, h⟩ := Option.bind_eq_some_iff.1 h
      cases h
      rcases sendPing_sends hping with hnone | ⟨s, hsent, hbody⟩
      · refine .nothing ⟨hnone.handed, ?_⟩
        rw [henv]
        exact hnone.codes
      · refine .once s ⟨hsent.handed, ?_⟩ fun _ => hbody
        rw [henv]
        exact hsent.codes
    · cases h
      exact .nothing (sent_nil rfl henv.symm)
  · cases h
    exact .nothing (sent_nil rfl henv.symm)

/-- The payload is sent, and the deferred PINGREQ after the last of it when that has failed. -/
theorem sendPublishData_sends {data : List UInt8}
    (h : w.sendPublishData d.noted data = some (ok, w')) : Sends w (.sendPublishData data) w' := by
  rcases sendPublishData_cases h with ⟨-, -, rfl⟩ | ⟨hle, sent, w₁, heq, hrest⟩
  · exact .nothing (sent_nil rfl rfl)
  have hsent := sent_send (w := w) heq rfl rfl
  have hcode : sent = ((d.send data w.env.1).1 != 0) := congrArg Prod.fst heq
  have hlen : w₁.handler.pendingSendDataLen = w.handler.pendingSendDataLen - data.length :=
    congrArg (fun r => r.2.handler.pendingSendDataLen) heq
  have hping : w₁.handler.pendingPing = w.handler.pendingPing :=
    congrArg (fun r => r.2.handler.pendingPing) heq
  rw [hlen, hping] at hrest
  split at hrest
  · rename_i hall
    obtain ⟨hfailed, hlast, hdeferred⟩ := hall
    rcases sendPing_cases hrest with ⟨hpos, -⟩ | ⟨-, bytes, heq'⟩
    · omega
    · have hsent' := sent_send (w := w₁) heq' rfl rfl
      have hcode' : (d.send data w.env.1).1 ≠ 0 := bne_iff_ne.1 (hcode ▸ hfailed)
      refine .twice _ _ (hsent.trans hsent') hcode' ?_ ?_
      · rw [Moves]
        rcases Nat.eq_zero_or_pos data.length with hzero | hpos
        · exact .inr ⟨by omega, hdeferred⟩
        · exact .inl hpos
      · rintro ⟨hsame, -⟩
        cases heq'
        rw [hdeferred] at hsame
        cases hsame
  · rename_i hnot
    obtain ⟨rfl, rfl⟩ := hrest
    refine .once _ hsent fun hfailed => ?_
    have hnot' : ¬ (w.handler.pendingSendDataLen - data.length = 0 ∧
        w.handler.pendingPing = true) := by
      intro hall
      exact hnot ⟨hcode.trans (bne_iff_ne.2 hfailed), hall⟩
    rw [SameBody, Moves, hlen, hping]
    constructor
    · rintro ⟨-, hsame⟩ (hpos | hdeferred)
      · omega
      · exact hnot' ⟨by omega, hdeferred.2⟩
    · intro hmoves
      rw [not_or] at hmoves
      exact ⟨rfl, by omega⟩

/-- **The sends of a call.** -/
theorem step_sends {op : SendOp} (h : w.step d.noted op = some (ok, w')) : Sends w op w' := by
  cases op with
  | sendConnect cleanSession keepaliveSeconds id willTopic willMessage user pass =>
      have hbody := sendConnect_sameBody h
      rcases sendConnect_cases h with ⟨-, rfl⟩ | ⟨-, bytes, heq⟩
      · exact .nothing (sent_nil rfl rfl)
      · exact .once _ (sent_send heq rfl rfl) fun _ => iff_of_true hbody not_false
  | sendSubscribe topic =>
      have hbody := sendSubscribe_sameBody h
      rcases sendSubscribe_cases h with ⟨-, rfl⟩ | ⟨-, bytes, heq⟩
      · exact .nothing (sent_nil rfl rfl)
      · exact .once _ (sent_send heq rfl rfl) fun _ => iff_of_true hbody not_false
  | sendPublishHeader topic messageLength =>
      obtain ⟨⟨messageId, ok', w₁⟩, hresult, heq⟩ := Option.map_eq_some_iff.1 h
      cases heq
      rcases sendPublishHeader_cases hresult with ⟨-, rfl⟩ | ⟨hzero, bytes, heq⟩
      · exact .nothing (sent_nil rfl rfl)
      · refine .once _ (sent_send heq rfl rfl) fun _ => ?_
        cases heq
        rw [SameBody, Moves, Nat.not_lt, Nat.le_zero, hzero]
        exact ⟨fun hsame => hsame.2, fun hlen => ⟨rfl, hlen⟩⟩
  | sendPublishData data => exact sendPublishData_sends h
  | sendPing =>
      rcases sendPing_sends h with hnone | ⟨s, hsent, hbody⟩
      · exact .nothing hnone
      · exact .once s hsent fun _ => hbody
  | update nowUs => exact update_sends h

/-- **A call that fails leaves what is pending unless it moves it.** -/
theorem step_sameBody_iff {op : SendOp} (h : w.step d.noted op = some (ok, w'))
    (hfailed : Failed w w') : w.SameBody w' ↔ ¬ w.Moves op := by
  cases step_sends h with
  | nothing hsent =>
      obtain ⟨s, hs, -⟩ := hsent.failed_iff.1 hfailed
      exact absurd hs List.not_mem_nil
  | once s hsent hbody =>
      obtain ⟨s', hs, hne⟩ := hsent.failed_iff.1 hfailed
      rw [List.mem_singleton.1 hs] at hne
      exact hbody hne
  | twice s t hsent _ hmoves hbody => exact iff_of_false hbody (not_not_intro hmoves)

/-- **What the downstream takes of a call keeps the framing.** -/
theorem step_accepted {op : SendOp} (hop : op.Sized) (hw : w.Answered)
    (hframed : Framed w.accepted w.handler.pendingSendDataLen)
    (h : w.step d.noted op = some (ok, w')) (hmoves : Failed w w' → ¬ w.Moves op) :
    w'.Answered ∧ Framed w'.accepted w'.handler.pendingSendDataLen := by
  obtain ⟨r, out, hresult, hhanded, hhands⟩ := step_fits (d := d.noted) (w := w) hop
  obtain rfl : (ok, w') = r := Option.some.inj (h.symm.trans hresult)
  have hsends := step_sends h
  by_cases hfailed : Failed w w'
  · -- one send, which has failed: nothing is taken, and the same is pending
    have hbody := (step_sameBody_iff h hfailed).2 (hmoves hfailed)
    rw [hbody.2]
    cases hsends with
    | nothing hsent =>
        refine ⟨hsent.answered hw, ?_⟩
        rw [hsent.accepted hw, taken, List.filter_nil, List.flatMap_nil, List.append_nil]
        exact hframed
    | once s hsent =>
        obtain ⟨s', hs, hne⟩ := hsent.failed_iff.1 hfailed
        rw [List.mem_singleton.1 hs] at hne
        refine ⟨hsent.answered hw, ?_⟩
        rw [hsent.accepted hw, taken_failed hne, List.append_nil]
        exact hframed
    | twice s t hsent _ _ hmoved => exact absurd hbody hmoved
  · -- everything is taken
    have hall : ∃ sends, Sent w w' sends := by
      cases hsends with
      | nothing hsent => exact ⟨_, hsent⟩
      | once s hsent => exact ⟨_, hsent⟩
      | twice s t hsent => exact ⟨_, hsent⟩
    obtain ⟨sends, hsent⟩ := hall
    have hout : sends.map (·.1) = out := List.append_cancel_left (hsent.handed.symm.trans hhanded)
    have hzero : ∀ s ∈ sends, s.2 = 0 := by
      intro s hs
      by_contra hne
      exact hfailed (hsent.failed_iff.2 ⟨s, hs, hne⟩)
    refine ⟨hsent.answered hw, ?_⟩
    rw [hsent.accepted hw, taken_of_not_failed hzero, hout]
    exact hframed.hands hhands

/-! ### Runs -/

/-- **The calls of a run that fail do not move what is pending.** -/
def NoFailureMoves (d : Downstream κ) (w : World (κ × List Int8)) (ops : List SendOp) : Prop :=
  ∀ pre op post w₁ ok w₂, ops = pre ++ op :: post → w.runOps d.noted pre = some w₁ →
    w₁.step d.noted op = some (ok, w₂) → Failed w₁ w₂ → ¬ w₁.Moves op

/-- **A run in which the calls that fail do not move what is pending keeps the framing.** -/
theorem runOps_accepted {ops : List SendOp} : ∀ {w : World (κ × List Int8)},
    (∀ op ∈ ops, op.Sized) → w.NoFailureMoves d ops → w.Answered →
    Framed w.accepted w.handler.pendingSendDataLen →
    ∃ w', w.runOps d.noted ops = some w' ∧ Framed w'.accepted w'.handler.pendingSendDataLen := by
  induction ops with
  | nil => intro w _ _ _ hframed; exact ⟨w, rfl, hframed⟩
  | cons op ops ih =>
      intro w hops hno hw hframed
      have hop := hops op List.mem_cons_self
      obtain ⟨⟨ok, w₁⟩, out, hstep, -⟩ := step_fits (d := d.noted) (w := w) hop
      obtain ⟨hw₁, hframed₁⟩ :=
        step_accepted hop hw hframed hstep (hno [] op ops w ok w₁ rfl rfl hstep)
      have hno₁ : w₁.NoFailureMoves d ops := by
        intro pre op' post w₂ ok' w₃ hpost hpre
        refine hno (op :: pre) op' post w₂ ok' w₃ (by rw [hpost]; rfl) ?_
        rw [runOps, hstep]
        exact hpre
      obtain ⟨w', hrun, hframed'⟩ :=
        ih (fun op' h' => hops op' (List.mem_cons_of_mem op h')) hno₁ hw₁ hframed₁
      refine ⟨w', ?_, hframed'⟩
      rw [runOps, hstep]
      exact hrun

theorem NoFailureMoves.of_append {pre post : List SendOp} {w : World (κ × List Int8)}
    (h : w.NoFailureMoves d (pre ++ post)) : w.NoFailureMoves d pre := by
  intro pre' op post' w₁ ok w₂ hpre
  exact h pre' op (post' ++ post) w₁ ok w₂ (by rw [hpre]; simp)

end World

/-- **The stream is desynchronised exactly by the calls that move it.**  In a run since the last
reset of calls whose packets are as long as they announce, whatever the downstream answers: no
failed send desynchronises the stream if and only if no call with a send that fails begins a PUBLISH
with a payload, hands over payload, or is about to send the deferred PINGREQ. -/
theorem synchronised_iff {κ : Type} (d : Downstream κ) (h : MQTTSocketHandler) (now : UInt64)
    (env : κ) (ops : List SendOp) (hops : ∀ op ∈ ops, op.Sized) :
    World.Synchronised d ⟨h.reset now, (env, []), []⟩ ops ↔
      World.NoFailureMoves d ⟨h.reset now, (env, []), []⟩ ops := by
  constructor
  · intro hsync pre op post w₁ ok w₂ heq hpre hstep hfailed
    exact (World.step_sameBody_iff hstep hfailed).1
      (hsync.restored pre op post w₁ ok w₂ heq hpre hstep hfailed)
  · intro hno
    refine ⟨?_, ?_⟩
    · intro pre op post w₁ ok w₂ heq hpre hstep hfailed
      exact (World.step_sameBody_iff hstep hfailed).2
        (hno pre op post w₁ ok w₂ heq hpre hstep hfailed)
    · rintro pre post rfl
      exact World.runOps_accepted (fun op hop => hops op (List.mem_append_left post hop))
        hno.of_append rfl Framed.nil

/-- A downstream that refuses everything. -/
def broken : Downstream Unit := { quiet with send := fun _ _ => (-1, ()) }

/-- A PUBLISH without payload and a SUBSCRIBE, both of which are refused. -/
theorem synchronised_iff_example :
    World.Synchronised broken ⟨zeroed.reset 0, ((), []), []⟩
      [.sendPublishHeader [7] 0, .sendSubscribe [7]] := by
  refine (synchronised_iff broken zeroed 0 () _ fun op hop => ?_).2 ?_
  · simp only [List.mem_cons, List.not_mem_nil, or_false] at hop
    rcases hop with rfl | rfl
    · show 4 + [(7 : UInt8)].length % 2 ^ 16 + 0 < 2 ^ 32
      decide
    · trivial
  · intro pre op post w₁ ok w₂ heq _ _ _ hmoves
    have hop : op ∈ [SendOp.sendPublishHeader [7] 0, .sendSubscribe [7]] := by
      rw [heq]
      exact List.mem_append_right pre List.mem_cons_self
    simp only [List.mem_cons, List.not_mem_nil, or_false] at hop
    rcases hop with rfl | rfl
    · exact Nat.lt_irrefl 0 hmoves
    · exact hmoves

/-- The beginning of a PUBLISH is refused, and its payload is owed all the same. -/
theorem refused_header_desynchronises :
    ¬ ∀ (d : Downstream Unit) (h : MQTTSocketHandler) (now : UInt64) (ops : List SendOp),
      World.Synchronised d ⟨h.reset now, ((), []), []⟩ ops := by
  intro hall
  have hsync := hall broken zeroed 0 [.sendPublishHeader [7] 1]
  have hrun : ((⟨zeroed.reset 0, ((), []), []⟩ : World (Unit × List Int8)).step broken.noted
      (.sendPublishHeader [7] 1)).map
        (fun r => (r.2.env.2, r.2.handler.pendingSendDataLen)) = some ([-1], 1) := by
    decide +kernel
  obtain ⟨⟨ok, w⟩, hstep, hfields⟩ := Option.map_eq_some_iff.1 hrun
  obtain ⟨hcodes, hpending⟩ := Prod.mk.inj hfields
  obtain ⟨-, hsame⟩ := hsync.restored [] _ [] _ ok w rfl rfl hstep
    ⟨[-1], hcodes, -1, List.mem_singleton_self _, by decide⟩
  rw [hpending] at hsame
  cases hsame

end Mqtt
