/-
**What a rejection does.**

Each call of the upstream interface answers whether to go on.  `on_recv` discards the answers: it
goes on whatever they are, and it answers false only when the bytes themselves are refused.  So a
rejection is obeyed only by chance, where the rest of the chunk is refused before it causes another
call.

Main definitions:

* `Mqtt.Upstream` — an implementation of the upstream interface;
* `Mqtt.Obeys`, `Mqtt.ObeysRun` — a call that is rejected is the last one of its `on_recv`, which
  then answers false;
* `Mqtt.RefusedAnyway`, `Mqtt.RefusedAnywayRun` — **what follows a rejected call in its chunk is
  refused without a call**.

Main results:

* `Mqtt.obeys_reader_iff`, `Mqtt.obeys_iff` — the reader, and the handler, on one chunk;
* `Mqtt.obeysRun_iff` — **rejections are obeyed exactly where the rest is refused anyway**.
-/

import PicoHttps.Mqtt.Cuts

set_option relaxedAutoImplicit false
set_option autoImplicit false

namespace Mqtt

open MQTTSocketHandler

/-- An implementation of the upstream interface: its answer to a call, after the calls before. -/
abbrev Upstream := List UpstreamCall → UpstreamCall → Bool

/-- In a call of `on_recv` on `x`, after the calls `before` of earlier ones, a call of the upstream
interface that is rejected is the last one, and `on_recv` answers false. -/
def Obeys (up : Upstream) (before : List UpstreamCall) (h : MQTTSocketHandler) (x : List UInt8) :
    Prop :=
  ∀ calls call, While.Emits decodeTurn (h, x) calls call → up (before ++ calls) call = false →
    OnRecv h x (calls ++ [call]) none

/-- The same in every call of `on_recv`, when the chunks `cs` arrive. -/
def ObeysRun (up : Upstream) (h : MQTTSocketHandler) (cs : List (List UInt8)) : Prop :=
  ∀ pre x post, cs = pre ++ x :: post → ∀ before h', Chunk.Fed OnRecv h pre before (some h') →
    Obeys up before h' x

/-- In the bytes `x`, after `calls`, the bytes in front of `rest` cause `call`. -/
def Causes (st : St) (x : List UInt8) (calls : List UpstreamCall) (call : UpstreamCall) (st' : St)
    (rest : List UInt8) : Prop :=
  ∃ s, While.Steps readTurn (st, x) calls s ∧ readTurn s = ([call], .inl (st', rest))

/-- In the bytes `x`, a call that is rejected is at the end of a packet, and what follows the packet
is refused without a call. -/
def RefusedAnyway (up : Upstream) (before : List UpstreamCall) (st : St) (x : List UInt8) : Prop :=
  ∀ calls call st' rest, Causes st x calls call st' rest → up (before ++ calls) call = false →
    st' = .start ∧ SilentlyRefused rest

/-- The same in every one of the chunks `cs`. -/
def RefusedAnywayRun (up : Upstream) (st : St) (cs : List (List UInt8)) : Prop :=
  ∀ pre x post, cs = pre ++ x :: post → ∀ before st', Chunk.Fed Read st pre before (some st') →
    RefusedAnyway up before st' x

/-! ### The reader -/

/-- A turn of the reader that makes a call makes one, and goes on at the start of a packet or in a
payload. -/
theorem readTurn_call {s : St × List UInt8} {fs gs : List UpstreamCall} {call : UpstreamCall}
    {next : (St × List UInt8) ⊕ Option St} (h : readTurn s = (fs ++ call :: gs, next)) :
    fs = [] ∧ gs = [] ∧ ∃ st rest, next = .inl (st, rest) ∧ (st = .start ∨ ∃ n, st = .payload n) := by
  have hone : ∀ {c : UpstreamCall}, fs ++ call :: gs = [c] → fs = [] ∧ gs = [] := by
    intro c hc
    cases fs with
    | nil => exact ⟨rfl, (List.cons.inj hc).2⟩
    | cons f fs => simp at hc
  obtain ⟨st, x⟩ := s
  generalize hcalls : fs ++ call :: gs = calls at h
  cases turned h with
  | nil => simp at hcalls
  | part =>
      obtain ⟨rfl, rfl⟩ := hone hcalls
      exact ⟨rfl, rfl, _, _, rfl, .inr ⟨_, rfl⟩⟩
  | full =>
      obtain ⟨rfl, rfl⟩ := hone hcalls
      exact ⟨rfl, rfl, _, _, rfl, .inl rfl⟩
  | more => simp at hcalls
  | refused => simp at hcalls
  | publish =>
      obtain ⟨rfl, rfl⟩ := hone hcalls
      exact ⟨rfl, rfl, _, _, rfl, .inr ⟨_, rfl⟩⟩
  | back => simp at hcalls
  | @packet B x c need size hx hhead hon =>
      cases c with
      | none => simp at hcalls
      | some c =>
          obtain ⟨rfl, rfl⟩ := hone hcalls
          exact ⟨rfl, rfl, _, _, rfl, .inl rfl⟩

/-- Bytes in a payload are not refused without a call. -/
theorem not_read_payload {n : ℕ} {x : List UInt8} : ¬ Read (.payload n) x [] none := by
  intro h
  by_cases hx : x = []
  · rw [hx, Read, While.exec_leave_iff (readTurn_nil _)] at h
    exact absurd h.2 (by simp)
  · have hturn := readTurn_payload hx n
    split at hturn
    · rw [Read, While.exec_turn_iff hturn] at h
      obtain ⟨calls, hcalls, -⟩ := h
      cases hcalls
    · rw [Read, While.exec_turn_iff hturn] at h
      obtain ⟨calls, hcalls, -⟩ := h
      cases hcalls

/-- **The reader obeys rejections exactly where the rest is refused anyway.** -/
theorem obeys_reader_iff (up : Upstream) (before : List UpstreamCall) (st : St) (x : List UInt8) :
    (∀ calls call, While.Emits readTurn (st, x) calls call → up (before ++ calls) call = false →
      Read st x (calls ++ [call]) none) ↔ RefusedAnyway up before st x := by
  constructor
  · rintro hobeys calls call st' rest ⟨s, hsteps, hturn⟩ hreject
    have hread := hobeys calls call ⟨calls, s, [], [], _, hsteps, hturn, by simp⟩ hreject
    rw [Read, hsteps.exec_iff, While.exec_turn_iff hturn] at hread
    obtain ⟨calls', hcalls, hrest⟩ := hread
    obtain rfl : calls' = [] := by simpa using hcalls.symm
    obtain ⟨-, -, st'', rest', heq, hst⟩ := readTurn_call
      (show readTurn s = ([] ++ call :: [], .inl (st', rest)) from hturn)
    cases heq
    rcases hst with rfl | ⟨n, rfl⟩
    · exact ⟨rfl, silentlyRefused_of_read hrest rfl⟩
    · exact absurd hrest not_read_payload
  · rintro hrefused calls call ⟨calls₀, s, fs, gs, next, hsteps, hturn, rfl⟩ hreject
    obtain ⟨rfl, rfl, st', rest, rfl, -⟩ := readTurn_call hturn
    rw [List.append_nil] at hreject ⊢
    obtain ⟨rfl, hrest⟩ := hrefused calls₀ call st' rest ⟨s, hsteps, hturn⟩ hreject
    rw [Read, hsteps.exec_iff]
    exact .turn hturn (silentlyRefused_read hrest)

/-! ### The handler -/

/-- **The handler obeys rejections exactly where the reader does.** -/
theorem obeys_iff {h : MQTTSocketHandler} {st : St} (hrel : Rel h st) (up : Upstream)
    (before : List UpstreamCall) (x : List UInt8) :
    Obeys up before h x ↔ RefusedAnyway up before st x := by
  rw [← obeys_reader_iff]
  refine forall_congr' fun calls => forall_congr' fun call => ?_
  have hemits : While.Emits decodeTurn (h, x) calls call ↔
      While.Emits readTurn (st, x) calls call :=
    ⟨sim.emits ⟨hrel, rfl⟩, sim.symm.emits ⟨hrel, rfl⟩⟩
  have hrecv : OnRecv h x (calls ++ [call]) none ↔ Read st x (calls ++ [call]) none := by
    constructor
    · intro hrecv
      obtain ⟨out, hread, hout⟩ := read_of_onRecv hrel hrecv
      cases hout
      exact hread
    · intro hread
      obtain ⟨answer, hrecv, hout⟩ := onRecv_of_read hrel hread
      cases hout
      exact hrecv
  rw [hemits, hrecv]

/-- **In a run, rejections are obeyed exactly where the rest is refused anyway.** -/
theorem obeysRun_iff (up : Upstream) (h : MQTTSocketHandler) (now : UInt64)
    (cs : List (List UInt8)) :
    ObeysRun up (h.reset now) cs ↔ RefusedAnywayRun up .start cs := by
  have hstart := rel_reset h now
  constructor
  · intro hobeys pre x post hcs before st' hfed
    obtain ⟨answer, hfed', hrel⟩ := fed_of_reader hstart hfed
    cases hrel with
    | some hrel => exact (obeys_iff hrel up before x).1 (hobeys pre x post hcs before _ hfed')
  · intro hrefused pre x post hcs before h' hfed
    obtain ⟨out, hfed', hrel⟩ := fed_of_handler hstart hfed
    cases hrel with
    | some hrel => exact (obeys_iff hrel up before x).2 (hrefused pre x post hcs before _ hfed')

/-- Two PINGREQ in one chunk, whose calls are rejected: the second call is made all the same. -/
theorem rejection_not_obeyed :
    ¬ ∀ (up : Upstream) (h : MQTTSocketHandler) (now : UInt64) (cs : List (List UInt8)),
      ObeysRun up (h.reset now) cs := by
  intro hall
  have hrel := rel_reset zeroed 0
  have hfirst : readTurn (.start, [0xC0, 0, 0xC0, 0]) = ([.onPingReq], .inl (.start, [0xC0, 0])) :=
    readTurn_packet (B := .empty) (List.cons_ne_nil _ _)
      (show head [0xC0, 0, 0xC0, 0] = .packet (some .onPingReq) 2 2 by decide)
  have hsecond : readTurn (.start, [0xC0, 0]) = ([.onPingReq], .inl (.start, [])) :=
    readTurn_packet (B := .empty) (List.cons_ne_nil _ _)
      (show head [0xC0, 0] = .packet (some .onPingReq) 2 2 by decide)
  have hcall : While.Emits readTurn (.start, [0xC0, 0, 0xC0, 0]) [] .onPingReq :=
    ⟨[], _, [], [], _, .refl _, hfirst, rfl⟩
  have hrecv := hall (fun _ _ => false) zeroed 0 [[0xC0, 0, 0xC0, 0]] [] [0xC0, 0, 0xC0, 0] [] rfl
    [] (zeroed.reset 0) (.nil _) [] .onPingReq (sim.symm.emits ⟨hrel, rfl⟩ hcall) rfl
  obtain ⟨out, hread, -⟩ := read_of_onRecv hrel hrecv
  rw [Read, While.exec_turn_iff hfirst] at hread
  obtain ⟨calls, hcalls, hrest⟩ := hread
  -- the second call is not among those of an `on_recv` that stops at the first one
  rw [While.exec_turn_iff hsecond] at hrest
  obtain ⟨calls', rfl, -⟩ := hrest
  simp at hcalls

end Mqtt
