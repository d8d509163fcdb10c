/-
**Loops that emit events and may leave early.**

A `while` loop of an imperative program is given by its body: a function that, from the state at
the loop head, emits a list of events and either comes back to the loop head with a new state or
leaves the loop with a result.  Nothing is assumed about termination, so a loop can be run with a
bounded number of turns (`While.run`), described by the derivation of a complete execution
(`While.Exec`), or shown to turn for ever (`While.Diverges`).

Main definitions:

* `While.Body` — the body of a loop;
* `While.run` — at most `n` turns of the loop;
* `While.Exec` — a complete execution, with its events and its result;
* `While.Diverges` — no number of turns is enough;
* `While.Steps`, `While.Emits` — some turns of the loop, whether it leaves or not, and an event that
  it emits.

Main results:

* `While.exec_iff_run` — a complete execution is a run with enough turns;
* `While.Exec.det` — a loop has at most one complete execution;
* `While.Steps.exec_iff` — an execution goes on after its first turns;
* `While.Sim.exec`, `While.Sim.emits` — a loop whose turns are those of another loop has its
  executions, and its events;
* `While.Steps.closed`, `While.Exec.closed` — what the turns of a loop preserve;
* `While.run_of_measure` — a loop whose turns decrease a measure always leaves, within as many
  turns as the measure says;
* `While.diverges_of_closed` — a loop that stays inside a closed set of states never leaves.
-/

import Mathlib.Data.Nat.Notation
import Mathlib.Tactic.Common

set_option relaxedAutoImplicit false
set_option autoImplicit false

namespace While

/-- The body of a loop: the events of one turn, and the next state or the result. -/
abbrev Body (σ ε ρ : Type) := σ → List ε × (σ ⊕ ρ)

variable {σ ε ρ : Type} {body : Body σ ε ρ}

/-! ### Runs and executions -/

/-- At most `n` turns of the loop from the state `s`; `none` when they are not enough. -/
def run (body : Body σ ε ρ) : ℕ → σ → Option (List ε × ρ)
  | 0, _ => none
  | n + 1, s =>
    match body s with
    | (es, .inr r) => some (es, r)
    | (es, .inl s') => (run body n s').map fun out => (es ++ out.1, out.2)

/-- `Exec body s es r` : from the state `s` the loop emits `es` and leaves with the result `r`. -/
inductive Exec (body : Body σ ε ρ) : σ → List ε → ρ → Prop
  | leave {s : σ} {es : List ε} {r : ρ} : body s = (es, .inr r) → Exec body s es r
  | turn {s s' : σ} {es es' : List ε} {r : ρ} :
      body s = (es, .inl s') → Exec body s' es' r → Exec body s (es ++ es') r

/-- The loop turns for ever from the state `s`. -/
def Diverges (body : Body σ ε ρ) (s : σ) : Prop := ∀ n, run body n s = none

theorem run_leave {s : σ} {es : List ε} {r : ρ} (h : body s = (es, .inr r)) (n : ℕ) :
    run body (n + 1) s = some (es, r) := by
  simp only [run, h]

theorem run_turn {s s' : σ} {es : List ε} (h : body s = (es, .inl s')) (n : ℕ) :
    run body (n + 1) s = (run body n s').map fun out => (es ++ out.1, out.2) := by
  simp only [run, h]

/-- A run that has left is a complete execution. -/
theorem exec_of_run : ∀ (n : ℕ) (s : σ) (es : List ε) (r : ρ),
    run body n s = some (es, r) → Exec body s es r := by
  intro n
  induction n with
  | zero => intro s es r h; simp [run] at h
  | succ n ih =>
      intro s es r h
      rcases hb : body s with ⟨fs, s' | r'⟩
      · rw [run_turn hb] at h
        obtain ⟨⟨gs, q⟩, hq, heq⟩ := Option.map_eq_some_iff.1 h
        obtain ⟨rfl, rfl⟩ := Prod.mk.inj heq
        exact .turn hb (ih s' gs q hq)
      · rw [run_leave hb] at h
        obtain ⟨rfl, rfl⟩ := Prod.mk.inj (Option.some.inj h)
        exact .leave hb

/-- **A complete execution is a run with enough turns.** -/
theorem exec_iff_run {s : σ} {es : List ε} {r : ρ} :
    Exec body s es r ↔ ∃ n, run body n s = some (es, r) := by
  constructor
  · intro h
    induction h with
    | leave hb => exact ⟨1, run_leave hb 0⟩
    | turn hb _ ih =>
        obtain ⟨n, hn⟩ := ih
        exact ⟨n + 1, by rw [run_turn hb, hn]; rfl⟩
  · rintro ⟨n, hn⟩
    exact exec_of_run n s es r hn

/-- A turn of the body is the first turn of every execution from its state. -/
theorem exec_turn_iff {s s' : σ} {es fs : List ε} {r : ρ} (hb : body s = (es, .inl s')) :
    Exec body s fs r ↔ ∃ es', fs = es ++ es' ∧ Exec body s' es' r := by
  constructor
  · intro h
    cases h with
    | leave hb' => rw [hb] at hb'; cases hb'
    | turn hb' h' =>
        rw [hb] at hb'
        cases hb'
        exact ⟨_, rfl, h'⟩
  · rintro ⟨es', rfl, h'⟩
    exact .turn hb h'

/-- A body that leaves gives the only execution from its state. -/
theorem exec_leave_iff {s : σ} {es fs : List ε} {r q : ρ} (hb : body s = (es, .inr r)) :
    Exec body s fs q ↔ fs = es ∧ q = r := by
  constructor
  · intro h
    cases h with
    | leave hb' => rw [hb] at hb'; cases hb'; exact ⟨rfl, rfl⟩
    | turn hb' _ => rw [hb] at hb'; cases hb'
  · rintro ⟨rfl, rfl⟩
    exact .leave hb

/-- **A loop has at most one complete execution.** -/
theorem Exec.det {s : σ} {es fs : List ε} {r q : ρ} (h : Exec body s es r)
    (h' : Exec body s fs q) : es = fs ∧ r = q := by
  induction h generalizing fs with
  | leave hb =>
      obtain ⟨rfl, rfl⟩ := (exec_leave_iff hb).1 h'
      exact ⟨rfl, rfl⟩
  | turn hb _ ih =>
      obtain ⟨gs, rfl, h''⟩ := (exec_turn_iff hb).1 h'
      obtain ⟨rfl, rfl⟩ := ih h''
      exact ⟨rfl, rfl⟩

/-! ### Some turns of a loop -/

/-- `Steps body s es s'` : from the state `s` some turns of the loop emit `es` and come back to its
head in the state `s'`. -/
inductive Steps (body : Body σ ε ρ) : σ → List ε → σ → Prop
  | refl (s : σ) : Steps body s [] s
  | turn {s s' s'' : σ} {es es' : List ε} :
      body s = (es, .inl s') → Steps body s' es' s'' → Steps body s (es ++ es') s''

/-- The loop emits the event `e` after the events `es`, whether it leaves later or not. -/
def Emits (body : Body σ ε ρ) (s : σ) (es : List ε) (e : ε) : Prop :=
  ∃ es₀ s' fs gs next, Steps body s es₀ s' ∧ body s' = (fs ++ e :: gs, next) ∧ es = es₀ ++ fs

/-- **An execution goes on after its first turns.** -/
theorem Steps.exec_iff {s s' : σ} {es fs : List ε} {r : ρ} (h : Steps body s es s') :
    Exec body s (es ++ fs) r ↔ Exec body s' fs r := by
  induction h with
  | refl s => rfl
  | turn hb _ ih =>
      rw [List.append_assoc, exec_turn_iff hb, ← ih]
      constructor
      · rintro ⟨es', heq, hexec⟩
        rwa [List.append_cancel_left heq]
      · intro hexec
        exact ⟨_, rfl, hexec⟩

/-- An execution starts with the first turns. -/
theorem Steps.exec_split {s s' : σ} {es gs : List ε} {r : ρ} (h : Steps body s es s')
    (he : Exec body s gs r) : ∃ fs, gs = es ++ fs ∧ Exec body s' fs r := by
  induction h generalizing gs with
  | refl s => exact ⟨gs, rfl, he⟩
  | turn hb _ ih =>
      obtain ⟨es', rfl, he'⟩ := (exec_turn_iff hb).1 he
      obtain ⟨fs, rfl, he''⟩ := ih he'
      exact ⟨fs, (List.append_assoc ..).symm, he''⟩

/-! ### Two loops that turn together -/

/-- The bodies, from related states, emit the same events and both turn, to related states, or
both leave, with related results. -/
def Sim {σ' ρ' : Type} (body : Body σ ε ρ) (body' : Body σ' ε ρ') (R : σ → σ' → Prop)
    (Q : ρ → ρ' → Prop) : Prop :=
  ∀ s s', R s s' → (body s).1 = (body' s').1 ∧ Sum.LiftRel R Q (body s).2 (body' s').2

section Sim

variable {σ' ρ' : Type} {body' : Body σ' ε ρ'} {R : σ → σ' → Prop} {Q : ρ → ρ' → Prop}

theorem Sim.symm (h : Sim body body' R Q) : Sim body' body (flip R) (flip Q) := by
  intro s' s hs
  obtain ⟨hev, hnext⟩ := h s s' hs
  refine ⟨hev.symm, ?_⟩
  generalize (body s).2 = x, (body' s').2 = x' at hnext ⊢
  cases hnext with
  | inl ht => exact .inl ht
  | inr hr => exact .inr hr

/-- A turn of one loop is a turn of the other. -/
theorem Sim.turn (h : Sim body body' R Q) {s t : σ} {u : σ'} {es : List ε} (hs : R s u)
    (hb : body s = (es, .inl t)) : ∃ t', body' u = (es, .inl t') ∧ R t t' := by
  obtain ⟨hev, hnext⟩ := h s u hs
  rw [hb] at hev hnext
  rcases hb' : body' u with ⟨fs, t' | r'⟩
  · rw [hb'] at hev hnext
    obtain rfl : es = fs := hev
    cases hnext with
    | inl ht => exact ⟨t', rfl, ht⟩
  · rw [hb'] at hnext; cases hnext

/-- The end of one loop is the end of the other. -/
theorem Sim.leave (h : Sim body body' R Q) {s : σ} {u : σ'} {es : List ε} {r : ρ} (hs : R s u)
    (hb : body s = (es, .inr r)) : ∃ r', body' u = (es, .inr r') ∧ Q r r' := by
  obtain ⟨hev, hnext⟩ := h s u hs
  rw [hb] at hev hnext
  rcases hb' : body' u with ⟨fs, t' | r'⟩
  · rw [hb'] at hnext; cases hnext
  · rw [hb'] at hev hnext
    obtain rfl : es = fs := hev
    cases hnext with
    | inr hr => exact ⟨r', rfl, hr⟩

/-- The runs of one loop are runs of the other, turn by turn. -/
theorem Sim.run (h : Sim body body' R Q) {n : ℕ} : ∀ {s : σ} {es : List ε} {r : ρ},
    While.run body n s = some (es, r) → ∀ s' : σ', R s s' →
      ∃ r', While.run body' n s' = some (es, r') ∧ Q r r' := by
  induction n with
  | zero => intro s es r hrun; cases hrun
  | succ n ih =>
      intro s es r hrun s' hs
      rcases hb : body s with ⟨fs, t | q⟩
      · rw [run_turn hb] at hrun
        obtain ⟨⟨gs, q⟩, hrest, heq⟩ := Option.map_eq_some_iff.1 hrun
        cases heq
        obtain ⟨t', hb', ht⟩ := h.turn hs hb
        obtain ⟨r', hrun', hr⟩ := ih hrest t' ht
        exact ⟨r', by rw [run_turn hb', hrun']; rfl, hr⟩
      · rw [run_leave hb] at hrun
        cases hrun
        obtain ⟨r', hb', hr⟩ := h.leave hs hb
        exact ⟨r', run_leave hb' n, hr⟩

/-- **The executions of one loop are executions of the other.** -/
theorem Sim.exec (h : Sim body body' R Q) {s : σ} {es : List ε} {r : ρ} (he : Exec body s es r) :
    ∀ s' : σ', R s s' → ∃ r', Exec body' s' es r' ∧ Q r r' := by
  induction he with
  | leave hb =>
      intro s' hs
      obtain ⟨r', hb', hr⟩ := h.leave hs hb
      exact ⟨r', .leave hb', hr⟩
  | turn hb _ ih =>
      intro s' hs
      obtain ⟨t', hb', ht⟩ := h.turn hs hb
      obtain ⟨r', he', hr⟩ := ih t' ht
      exact ⟨r', .turn hb' he', hr⟩

theorem Sim.steps (h : Sim body body' R Q) {s t : σ} {es : List ε} (hs : Steps body s es t) :
    ∀ s' : σ', R s s' → ∃ t', Steps body' s' es t' ∧ R t t' := by
  induction hs with
  | refl s =>
      intro s' hs'
      exact ⟨s', .refl s', hs'⟩
  | turn hb _ ih =>
      intro s' hs'
      obtain ⟨u', hb', hu⟩ := h.turn hs' hb
      obtain ⟨t', ht', hr⟩ := ih u' hu
      exact ⟨t', .turn hb' ht', hr⟩

/-- **The events of one loop are events of the other.** -/
theorem Sim.emits (h : Sim body body' R Q) {s : σ} {s' : σ'} (hs : R s s') {es : List ε} {e : ε}
    (he : Emits body s es e) : Emits body' s' es e := by
  obtain ⟨es₀, t, fs, gs, next, hsteps, hb, rfl⟩ := he
  obtain ⟨t', hsteps', hr⟩ := h.steps hsteps s' hs
  obtain ⟨hev, -⟩ := h t t' hr
  rw [hb] at hev
  exact ⟨es₀, t', fs, gs, (body' t').2, hsteps', Prod.ext hev.symm rfl, rfl⟩

end Sim

/-! ### Termination and divergence -/

/-- What the turns of a loop preserve holds after some of them. -/
theorem Steps.closed {P : σ → Prop} (hP : ∀ s s' es, P s → body s = (es, .inl s') → P s')
    {s s' : σ} {es : List ε} (h : Steps body s es s') (hs : P s) : P s' := by
  induction h with
  | refl s => exact hs
  | turn hb _ ih => exact ih (hP _ _ _ hs hb)

/-- What holds of the results of a loop inside a closed set of states. -/
theorem Exec.closed {P : σ → Prop} {Q : ρ → Prop}
    (hP : ∀ s s' es, P s → body s = (es, .inl s') → P s')
    (hQ : ∀ s es r, P s → body s = (es, .inr r) → Q r)
    {s : σ} {es : List ε} {r : ρ} (h : Exec body s es r) (hs : P s) : Q r := by
  induction h with
  | leave hb => exact hQ _ _ _ hs hb
  | turn hb _ ih => exact ih (hP _ _ _ hs hb)

/-- **A loop whose turns decrease a measure always leaves**, inside a closed set of states, and
`μ s + 1` turns are enough. -/
theorem run_of_measure {P : σ → Prop} (hP : ∀ s s' es, P s → body s = (es, .inl s') → P s')
    (μ : σ → ℕ) (hμ : ∀ s s' es, P s → body s = (es, .inl s') → μ s' < μ s) :
    ∀ (n : ℕ) (s : σ), P s → μ s < n → ∃ out, run body n s = some out := by
  intro n
  induction n with
  | zero => intro s _ hn; omega
  | succ n ih =>
      intro s hs hn
      rcases hb : body s with ⟨es, s' | r⟩
      · have hlt : μ s' < μ s := hμ s s' es hs hb
        obtain ⟨out, hout⟩ := ih s' (hP s s' es hs hb) (by omega)
        exact ⟨_, by rw [run_turn hb, hout]; rfl⟩
      · exact ⟨_, run_leave hb n⟩

/-- A loop that diverges has no complete execution. -/
theorem Diverges.not_exec {s : σ} (h : Diverges body s) {es : List ε} {r : ρ} :
    ¬ Exec body s es r := by
  intro he
  obtain ⟨n, hn⟩ := exec_iff_run.1 he
  rw [h n] at hn
  cases hn

/-- A loop that reaches a diverging state diverges. -/
theorem Diverges.turn {s s' : σ} {es : List ε} (hb : body s = (es, .inl s'))
    (h : Diverges body s') : Diverges body s := by
  intro n
  cases n with
  | zero => rfl
  | succ n => rw [run_turn hb, h n]; rfl

/-- **A loop that stays inside a closed set of states never leaves.** -/
theorem diverges_of_closed (P : σ → Prop)
    (hP : ∀ s, P s → ∃ es s', body s = (es, .inl s') ∧ P s') {s : σ} (hs : P s) :
    Diverges body s := by
  intro n
  induction n generalizing s with
  | zero => rfl
  | succ n ih =>
      obtain ⟨es, s', hb, hs'⟩ := hP s hs
      rw [run_turn hb, ih hs']
      rfl

end While
