/-
**Code that is entered again while it waits.**

An object whose methods call out, to an application or to a network stack, can be entered again
before such a call is answered.  Here the code of a method is a tree, `Reentrant.Res`: it is done,
or it has made a call and goes on from the answer and from the state it then finds, which need not
be the state it left.  A machine runs such methods under an environment that makes one move at a
time: it enters a method, on top of whatever is waiting, or it answers the call made last.

A `Reentrant.Contract` is a rely and guarantee for all that: what holds whenever the environment is
to move, and how the state may change while a call waits.  If every method keeps the contract when
the others do, then so does every run, however the environment nests and orders its moves.

Main definitions:

* `Reentrant.Res`, `Reentrant.Prog` — what code comes to, and code; `Reentrant.Prog` is a monad;
* `Reentrant.Move`, `Reentrant.Config`, `Reentrant.run` — the machine;
* `Reentrant.Contract`, `Reentrant.Contract.Spec` — a contract, and that code keeps it;
* `Reentrant.Contract.Stretch` — that each stretch of code, from one call to the next, keeps a
  guarantee;
* `Reentrant.Part`, `Reentrant.Res.link`, `Reentrant.Res.Serves` — code of a part of a system, in
  the system: its calls are handled there;
* `Reentrant.Res.Makes`, `Reentrant.Res.Within` — code that makes certain calls only, and code that
  stays within a relation on states;
* `Reentrant.Contract.ofKinds` — a contract that tells calls of two kinds apart;
* `Reentrant.Res.Goes` — one invocation from its beginning to its end, with the calls it makes.

Main results:

* `Reentrant.step_cases`, `Reentrant.run_closed` — what a move is, and **what every move keeps,
  every run keeps**;
* `Reentrant.Contract.Spec.bind`, `Reentrant.Contract.Spec.mono` — the rules for code;
* `Reentrant.Contract.Sound.run` — **a contract that every method keeps holds in every run**, and
  every invocation that has returned satisfies its postcondition;
* `Reentrant.Contract.Guarded.run` — **a guarantee that every method keeps holds of every move**;
* `Reentrant.Res.Serves.link`, `Reentrant.Contract.Spec.link` — **a part keeps the contract of the
  whole** when what handles its calls does;
* `Reentrant.Res.Within.link` — code of a part stays within a relation of the whole;
* `Reentrant.Res.goes_bind` — **an invocation of one piece of code after another** is an invocation
  of each.
-/

import Mathlib.Data.Nat.Notation
import Mathlib.Tactic.Common

set_option relaxedAutoImplicit false
set_option autoImplicit false

namespace Reentrant

/-! ### Code -/

/-- What code over the states `σ` comes to: it is done, or it has made the call `c` and waits. -/
inductive Res (σ C : Type) (A : C → Type) (α : Type)
  | done (a : α) (s : σ)
  | call (c : C) (s : σ) (k : A c → σ → Res σ C A α)

/-- Code over the states `σ` that makes calls `c : C`, answered by an `A c`. -/
def Prog (σ C : Type) (A : C → Type) (α : Type) := σ → Res σ C A α

section code

variable {σ C : Type} {A : C → Type} {α β : Type}

/-- One piece of code after another. -/
def Res.bind : Res σ C A α → (α → σ → Res σ C A β) → Res σ C A β
  | .done a s, f => f a s
  | .call c s k, f => .call c s fun a s' => (k a s').bind f

@[simp] theorem Res.bind_done (a : α) (s : σ) (f : α → σ → Res σ C A β) :
    (Res.done a s).bind f = f a s := rfl

@[simp] theorem Res.bind_call (c : C) (s : σ) (k : A c → σ → Res σ C A α)
    (f : α → σ → Res σ C A β) :
    (Res.call c s k).bind f = .call c s fun a s' => (k a s').bind f := rfl

@[simp] theorem Res.bind_pure (r : Res σ C A α) : (r.bind fun a s => .done a s) = r := by
  induction r with
  | done a s => rfl
  | call c s k ih =>
      rw [Res.bind_call]
      congr 1
      funext a s'
      exact ih a s'

theorem Res.bind_congr {r : Res σ C A α} {f g : α → σ → Res σ C A β} (h : ∀ a s, f a s = g a s) :
    r.bind f = r.bind g := congrArg r.bind (funext₂ h)

namespace Prog

instance : Monad (Prog σ C A) where
  pure a := fun s => .done a s
  bind x f := fun s => (x s).bind fun a s' => f a s'

/-- The state. -/
def get : Prog σ C A σ := fun s => .done s s

/-- Changes the state. -/
def modify (f : σ → σ) : Prog σ C A Unit := fun s => .done () (f s)

/-- Makes a call. -/
def call (c : C) : Prog σ C A (A c) := fun s => .call c s .done

@[simp] theorem pure_apply (a : α) (s : σ) : (pure a : Prog σ C A α) s = .done a s := rfl

@[simp] theorem bind_apply (x : Prog σ C A α) (f : α → Prog σ C A β) (s : σ) :
    (x >>= f) s = (x s).bind fun a s' => f a s' := rfl

@[simp] theorem get_apply (s : σ) : (get : Prog σ C A σ) s = .done s s := rfl

@[simp] theorem modify_apply (f : σ → σ) (s : σ) :
    (modify f : Prog σ C A Unit) s = .done () (f s) := rfl

@[simp] theorem call_apply (c : C) (s : σ) :
    (call c : Prog σ C A (A c)) s = .call c s .done := rfl

@[simp] theorem if_apply (p : Prop) [Decidable p] (x y : Prog σ C A α) (s : σ) :
    (if p then x else y) s = if p then x s else y s := by
  split <;> rfl

end Prog

end code

/-! ### The machine -/

/-- A move of the environment: it enters a method, or answers the call made last. -/
inductive Move (E C : Type) (A : C → Type)
  | enter (e : E)
  | answer (c : C) (a : A c)

/-- An invocation that waits: what it is of, the state it began in, its call, and the rest. -/
structure Frame (σ E C : Type) (A : C → Type) (ρ : Type) where
  entry : E
  before : σ
  request : C
  resume : A request → σ → Res σ C A ρ

/-- An invocation that has returned, and the calls that were waiting below it. -/
structure Record (σ E C ρ : Type) where
  below : List C
  entry : E
  before : σ
  result : ρ
  after : σ

/-- The machine when the environment is to move; the invocation entered last is first. -/
structure Config (σ E C : Type) (A : C → Type) (ρ : Type) where
  stack : List (Frame σ E C A ρ)
  state : σ
  history : List (Record σ E C ρ)

section machine

variable {σ E C ρ : Type} {A : C → Type}

/-- The calls that wait in a stack. -/
def pending (stack : List (Frame σ E C A ρ)) : List C := stack.map (·.request)

@[simp] theorem pending_nil : pending ([] : List (Frame σ E C A ρ)) = [] := rfl

@[simp] theorem pending_cons (f : Frame σ E C A ρ) (stack : List (Frame σ E C A ρ)) :
    pending (f :: stack) = f.request :: pending stack := rfl

/-- The calls that wait. -/
def Config.pending (c : Config σ E C A ρ) : List C := Reentrant.pending c.stack

/-- Nothing has happened yet. -/
def Config.start (s : σ) : Config σ E C A ρ := ⟨[], s, []⟩

/-- The machine after an invocation has come to a call or to its end. -/
def settle (e : E) (before : σ) (stack : List (Frame σ E C A ρ)) (history : List (Record σ E C ρ)) :
    Res σ C A ρ → Config σ E C A ρ
  | .done r s => ⟨stack, s, history ++ [⟨pending stack, e, before, r, s⟩]⟩
  | .call c s k => ⟨⟨e, before, c, k⟩ :: stack, s, history⟩

/-- A move; `none` for an answer to a call that was not made last. -/
def step [DecidableEq C] (method : E → Prog σ C A ρ) (c : Config σ E C A ρ) :
    Move E C A → Option (Config σ E C A ρ)
  | .enter e => some (settle e c.state c.stack c.history (method e c.state))
  | .answer request a =>
    match c.stack with
    | [] => none
    | f :: stack =>
      if h : request = f.request then
        some (settle f.entry f.before stack c.history (f.resume (h ▸ a) c.state))
      else none

/-- Moves that the environment may make, one after the other. -/
def run [DecidableEq C] (method : E → Prog σ C A ρ) (ok : List C → σ → Move E C A → Prop)
    [∀ p s m, Decidable (ok p s m)] : List (Move E C A) → Config σ E C A ρ →
      Option (Config σ E C A ρ)
  | [], c => some c
  | m :: moves, c =>
    if ok c.pending c.state m then (step method c m).bind (run method ok moves) else none

variable [DecidableEq C] {method : E → Prog σ C A ρ}

/-- What a move is: an entry, or an answer for the invocation on top. -/
theorem step_cases {stack : List (Frame σ E C A ρ)} {s : σ} {history : List (Record σ E C ρ)}
    {m : Move E C A} {c' : Config σ E C A ρ} (h : step method ⟨stack, s, history⟩ m = some c') :
    (∃ e, m = .enter e ∧ c' = settle e s stack history (method e s)) ∨
      ∃ f rest a, m = .answer f.request a ∧ stack = f :: rest ∧
        c' = settle f.entry f.before rest history (f.resume a s) := by
  cases m with
  | enter e => exact .inl ⟨e, rfl, (Option.some.inj h).symm⟩
  | answer request a =>
      cases stack with
      | nil => cases h
      | cons f rest =>
          simp only [step] at h
          split at h
          · rename_i hrequest
            subst hrequest
            exact .inr ⟨f, rest, a, rfl, rfl, (Option.some.inj h).symm⟩
          · cases h

/-- **What every move keeps, every run keeps.** -/
theorem run_closed {ok : List C → σ → Move E C A → Prop} [∀ p s m, Decidable (ok p s m)]
    {P : Config σ E C A ρ → Prop}
    (hstep : ∀ {c c' m}, P c → ok c.pending c.state m → step method c m = some c' → P c')
    (moves : List (Move E C A)) :
    ∀ {c c' : Config σ E C A ρ}, P c → run method ok moves c = some c' → P c' := by
  induction moves with
  | nil =>
      intro c c' h hrun
      obtain rfl := Option.some.inj hrun
      exact h
  | cons m moves ih =>
      intro c c' h hrun
      rw [run] at hrun
      split at hrun
      · rename_i hok
        obtain ⟨c₁, hmove, hrun⟩ := Option.bind_eq_some_iff.1 hrun
        exact ih (hstep h hok hmove) hrun
      · cases hrun

end machine

/-! ### Contracts -/

/-- A rely and guarantee: the moves of the environment, what holds when it is to move, and how the
state may have changed since the call made last. -/
structure Contract (σ E C : Type) (A : C → Type) where
  ok : List C → σ → Move E C A → Prop
  good : List C → σ → Prop
  rely : List C → σ → σ → Prop

namespace Contract

variable {σ E C ρ : Type} {A : C → Type} (K : Contract σ E C A) {α β : Type}

/-- **The contract is kept** by code that runs while the calls `below` wait, and `post` holds when
it is done. -/
def Spec (below : List C) (post : α → σ → Prop) : Res σ C A α → Prop
  | .done a s => post a s
  | .call c s k => K.good (c :: below) s ∧
      ∀ a s', K.good (c :: below) s' → K.rely (c :: below) s s' →
        K.ok (c :: below) s' (.answer c a) → Spec below post (k a s')

variable {K} {below : List C}

@[simp] theorem spec_done {post : α → σ → Prop} {a : α} {s : σ} :
    K.Spec below post (.done a s) ↔ post a s := Iff.rfl

theorem spec_call {post : α → σ → Prop} {c : C} {s : σ} {k : A c → σ → Res σ C A α} :
    K.Spec below post (.call c s k) ↔ K.good (c :: below) s ∧
      ∀ a s', K.good (c :: below) s' → K.rely (c :: below) s s' →
        K.ok (c :: below) s' (.answer c a) → K.Spec below post (k a s') := Iff.rfl

theorem Spec.mono {post post' : α → σ → Prop} {r : Res σ C A α} (h : K.Spec below post r)
    (hpost : ∀ a s, post a s → post' a s) : K.Spec below post' r := by
  induction r with
  | done a s => exact hpost a s h
  | call c s k ih =>
      obtain ⟨hgood, hk⟩ := h
      refine ⟨hgood, fun a s' hs' hrely hok => ?_⟩
      exact ih a s' (hk a s' hs' hrely hok)

theorem Spec.bind {post : α → σ → Prop} {post' : β → σ → Prop} {r : Res σ C A α}
    {f : α → σ → Res σ C A β} (h : K.Spec below post r)
    (hf : ∀ a s, post a s → K.Spec below post' (f a s)) : K.Spec below post' (r.bind f) := by
  induction r with
  | done a s => exact hf a s h
  | call c s k ih =>
      obtain ⟨hgood, hk⟩ := h
      refine ⟨hgood, fun a s' hs' hrely hok => ?_⟩
      exact ih a s' (hk a s' hs' hrely hok)

variable (K)

/-- Every method keeps the contract, and its invocations satisfy `post`. -/
structure Sound (method : E → Prog σ C A ρ) (post : List C → E → σ → ρ → σ → Prop) : Prop where
  refl : ∀ below s, K.rely below s s
  trans : ∀ below s s' s'', K.rely below s s' → K.rely below s' s'' → K.rely below s s''
  method : ∀ below s e, K.good below s → K.ok below s (.enter e) →
    K.Spec below (fun r s' => K.good below s' ∧ K.rely below s s' ∧ post below e s r s')
      (method e s)

/-- **What is known of a stack**: `next` holds of every invocation that waits when it goes on, in
place of what is known of the stack below it. -/
def Standing (next : (f : Frame σ E C A ρ) → List C → (σ → Prop) → A f.request → σ → Prop) :
    List (Frame σ E C A ρ) → σ → Prop
  | [], s => K.good [] s
  | f :: stack, s => K.good (f.request :: pending stack) s ∧
      ∃ s₀, K.rely (f.request :: pending stack) s₀ s ∧
        ∀ a s', K.good (f.request :: pending stack) s' →
          K.rely (f.request :: pending stack) s₀ s' →
          K.ok (f.request :: pending stack) s' (.answer f.request a) →
          next f (pending stack) (fun s'' => Standing next stack s'') a s'

/-- A stack whose invocations keep the contract when they go on. -/
def Stacked (post : List C → E → σ → ρ → σ → Prop) : List (Frame σ E C A ρ) → σ → Prop :=
  K.Standing fun f below rest a s =>
    K.Spec below (fun r s' => rest s' ∧ post below f.entry f.before r s') (f.resume a s)

/-- What a run keeps. -/
def Holds (post : List C → E → σ → ρ → σ → Prop) (c : Config σ E C A ρ) : Prop :=
  K.Stacked post c.stack c.state ∧ ∀ r ∈ c.history, post r.below r.entry r.before r.result r.after

variable {K} {method : E → Prog σ C A ρ} {post : List C → E → σ → ρ → σ → Prop}
  {next : (f : Frame σ E C A ρ) → List C → (σ → Prop) → A f.request → σ → Prop}

theorem Standing.good : ∀ {stack : List (Frame σ E C A ρ)} {s : σ}, K.Standing next stack s →
    K.good (pending stack) s
  | [], _, h => h
  | _ :: _, _, h => h.1

/-- What an invocation on top of the stack leaves of it. -/
theorem Standing.after
    (htrans : ∀ below s s' s'', K.rely below s s' → K.rely below s' s'' → K.rely below s s'')
    {stack : List (Frame σ E C A ρ)} {s s' : σ} (h : K.Standing next stack s)
    (hgood : K.good (pending stack) s') (hrely : K.rely (pending stack) s s') :
    K.Standing next stack s' := by
  cases stack with
  | nil => exact hgood
  | cons f stack =>
      obtain ⟨-, s₀, hs₀, hnext⟩ := h
      exact ⟨hgood, s₀, htrans _ _ _ _ hs₀ hrely, hnext⟩

theorem Holds.settle (hK : K.Sound method post) {e : E} {before : σ}
    {stack : List (Frame σ E C A ρ)} {history : List (Record σ E C ρ)} {r : Res σ C A ρ}
    (hhistory : ∀ r ∈ history, post r.below r.entry r.before r.result r.after)
    (hr : K.Spec (pending stack)
      (fun r s => K.Stacked post stack s ∧ post (pending stack) e before r s) r) :
    K.Holds post (settle e before stack history r) := by
  cases r with
  | done a s =>
      refine ⟨hr.1, fun r hr' => ?_⟩
      rcases List.mem_append.1 hr' with hr' | hr'
      · exact hhistory r hr'
      · obtain rfl := List.mem_singleton.1 hr'
        exact hr.2
  | call c s k =>
      obtain ⟨hgood, hk⟩ := hr
      exact ⟨⟨hgood, s, hK.refl _ _, hk⟩, hhistory⟩

/-- What a move keeps. -/
theorem Holds.step [DecidableEq C] (hK : K.Sound method post) {c c' : Config σ E C A ρ}
    {m : Move E C A} (h : K.Holds post c) (hok : K.ok c.pending c.state m)
    (hstep : Reentrant.step method c m = some c') : K.Holds post c' := by
  obtain ⟨stack, s, history⟩ := c
  obtain ⟨hstack, hhistory⟩ := h
  rcases step_cases hstep with ⟨e, rfl, rfl⟩ | ⟨f, rest, a, rfl, rfl, rfl⟩
  · refine Holds.settle hK hhistory ((hK.method _ s e hstack.good hok).mono ?_)
    rintro r s' ⟨hgood, hrely, hpost⟩
    exact ⟨hstack.after hK.trans hgood hrely, hpost⟩
  · obtain ⟨hgood, s₀, hs₀, hresume⟩ := hstack
    exact Holds.settle hK hhistory (hresume a s hgood hs₀ hok)

/-- What a run keeps. -/
theorem Holds.run [DecidableEq C] [∀ p s m, Decidable (K.ok p s m)] (hK : K.Sound method post)
    (moves : List (Move E C A)) {c c' : Config σ E C A ρ} (h : K.Holds post c)
    (hrun : Reentrant.run method K.ok moves c = some c') : K.Holds post c' :=
  run_closed (fun h hok hstep => h.step hK hok hstep) moves h hrun

/-- **A contract that every method keeps holds in every run**, and every invocation that has
returned satisfies its postcondition. -/
theorem Sound.run [DecidableEq C] [∀ p s m, Decidable (K.ok p s m)] (hK : K.Sound method post)
    {s : σ} (hs : K.good [] s) {moves : List (Move E C A)} {c : Config σ E C A ρ}
    (hrun : Reentrant.run method K.ok moves (.start s) = some c) :
    K.good c.pending c.state ∧
      ∀ r ∈ c.history, post r.below r.entry r.before r.result r.after := by
  have h : K.Holds post (.start s : Config σ E C A ρ) :=
    ⟨hs, fun r hr => absurd hr List.not_mem_nil⟩
  obtain ⟨hstack, hhistory⟩ := h.run hK moves hrun
  exact ⟨hstack.good, hhistory⟩

/-! #### Guarantees -/

section guarantee

variable (K) (G : Move E C A → σ → σ → Prop)

/-- **Every stretch of code keeps the guarantee.**  A stretch begins with the move `m`, made in the
state `s₀`, and ends with a call or with the code, where `post` holds. -/
def Stretch (below : List C) (post : Move E C A → σ → α → σ → Prop) :
    Move E C A → σ → Res σ C A α → Prop
  | m, s₀, .done a s => post m s₀ a s
  | m, s₀, .call c s k => K.good (c :: below) s ∧ G m s₀ s ∧
      ∀ a s', K.good (c :: below) s' → K.rely (c :: below) s s' →
        K.ok (c :: below) s' (.answer c a) → Stretch below post (.answer c a) s' (k a s')

variable {K G} {below : List C}

theorem stretch_call {post : Move E C A → σ → α → σ → Prop} {m : Move E C A} {s₀ s : σ} {c : C}
    {k : A c → σ → Res σ C A α} :
    K.Stretch G below post m s₀ (.call c s k) ↔ K.good (c :: below) s ∧ G m s₀ s ∧
      ∀ a s', K.good (c :: below) s' → K.rely (c :: below) s s' →
        K.ok (c :: below) s' (.answer c a) →
          K.Stretch G below post (.answer c a) s' (k a s') := Iff.rfl

theorem Stretch.bind {post : Move E C A → σ → α → σ → Prop}
    {post' : Move E C A → σ → β → σ → Prop} {m : Move E C A} {s₀ : σ} {r : Res σ C A α}
    {f : α → σ → Res σ C A β} (h : K.Stretch G below post m s₀ r)
    (hf : ∀ m s₀ a s, post m s₀ a s → K.Stretch G below post' m s₀ (f a s)) :
    K.Stretch G below post' m s₀ (r.bind f) := by
  induction r generalizing m s₀ with
  | done a s => exact hf m s₀ a s h
  | call c s k ih =>
      obtain ⟨hgood, hG, hk⟩ := h
      refine ⟨hgood, hG, fun a s' hs' hrely hok => ?_⟩
      exact ih a s' (hk a s' hs' hrely hok)

theorem Stretch.mono {post post' : Move E C A → σ → α → σ → Prop} {m : Move E C A} {s₀ : σ}
    {r : Res σ C A α} (h : K.Stretch G below post m s₀ r)
    (hpost : ∀ m s₀ a s, post m s₀ a s → post' m s₀ a s) : K.Stretch G below post' m s₀ r := by
  rw [← Res.bind_pure r]
  exact h.bind hpost

variable (K G)

/-- Every method keeps the contract, and each stretch of it the guarantee. -/
structure Guarded (method : E → Prog σ C A ρ) : Prop where
  refl : ∀ below s, K.rely below s s
  trans : ∀ below s s' s'', K.rely below s s' → K.rely below s' s'' → K.rely below s s''
  method : ∀ below s e, K.good below s → K.ok below s (.enter e) →
    K.Stretch G below (fun m s₀ _ s' => G m s₀ s' ∧ K.good below s' ∧ K.rely below s s')
      (.enter e) s (method e s)

/-- A stack whose invocations keep the guarantee when they go on. -/
def Waiting : List (Frame σ E C A ρ) → σ → Prop :=
  K.Standing fun f below rest a s =>
    K.Stretch G below (fun m s₀ _ s' => G m s₀ s' ∧ rest s') (.answer f.request a) s (f.resume a s)

variable {K G} {method : E → Prog σ C A ρ}

theorem Waiting.settle (hK : K.Guarded G method) {e : E} {before : σ}
    {stack : List (Frame σ E C A ρ)} {history : List (Record σ E C ρ)} {m : Move E C A} {s₀ : σ}
    {r : Res σ C A ρ}
    (hr : K.Stretch G (pending stack) (fun m s₀ _ s => G m s₀ s ∧ K.Waiting G stack s) m s₀ r) :
    G m s₀ (settle e before stack history r).state ∧
      K.Waiting G (settle e before stack history r).stack
        (settle e before stack history r).state := by
  cases r with
  | done a s => exact hr
  | call c s k =>
      obtain ⟨hgood, hG, hk⟩ := hr
      exact ⟨hG, hgood, s, hK.refl _ _, hk⟩

/-- A move keeps the guarantee. -/
theorem Waiting.step [DecidableEq C] (hK : K.Guarded G method) {c c' : Config σ E C A ρ}
    {m : Move E C A} (h : K.Waiting G c.stack c.state) (hok : K.ok c.pending c.state m)
    (hstep : Reentrant.step method c m = some c') :
    G m c.state c'.state ∧ K.Waiting G c'.stack c'.state := by
  obtain ⟨stack, s, history⟩ := c
  rcases step_cases hstep with ⟨e, rfl, rfl⟩ | ⟨f, rest, a, rfl, rfl, rfl⟩
  · refine Waiting.settle hK ((hK.method _ s e h.good hok).mono ?_)
    rintro m s₀ r s' ⟨hG, hgood, hrely⟩
    exact ⟨hG, h.after hK.trans hgood hrely⟩
  · obtain ⟨hgood, s₀, hs₀, hresume⟩ := h
    exact Waiting.settle hK (hresume a s hgood hs₀ hok)

theorem Waiting.run [DecidableEq C] [∀ p s m, Decidable (K.ok p s m)] (hK : K.Guarded G method)
    (moves : List (Move E C A)) {c c' : Config σ E C A ρ} (h : K.Waiting G c.stack c.state)
    (hrun : Reentrant.run method K.ok moves c = some c') : K.Waiting G c'.stack c'.state :=
  run_closed (P := fun c => K.Waiting G c.stack c.state)
    (fun h hok hstep => (Waiting.step hK h hok hstep).2) moves h hrun

/-- **A guarantee that every method keeps holds of every move in every run.** -/
theorem Guarded.run [DecidableEq C] [∀ p s m, Decidable (K.ok p s m)] (hK : K.Guarded G method)
    {s : σ} (hs : K.good [] s) {moves : List (Move E C A)} {c c' : Config σ E C A ρ}
    (hrun : Reentrant.run method K.ok moves (.start s) = some c) {m : Move E C A}
    (hok : K.ok c.pending c.state m) (hstep : Reentrant.step method c m = some c') :
    G m c.state c'.state := by
  have h : K.Waiting G (.start s : Config σ E C A ρ).stack s := hs
  exact ((h.run hK moves hrun).step hK hok hstep).1

end guarantee

end Contract

/-! ### Linking -/

/-- Where the states `σ` of a part are in the states `σ'` of the whole. -/
structure Part (σ σ' : Type) where
  part : σ' → σ
  put : σ → σ' → σ'

section link

variable {σ C σ' C' α β : Type} {A : C → Type} {A' : C' → Type} (L : Part σ σ')
  (handle : (c : C) → Prog σ' C' A' (A c))

/-- **Code of a part, in the whole**: what it calls is handled there. -/
def Res.link : Res σ C A α → σ' → Res σ' C' A' α
  | .done a s, w => .done a (L.put s w)
  | .call c s k, w => (handle c (L.put s w)).bind fun a w' => (k a (L.part w')).link w'

@[simp] theorem Res.link_done (a : α) (s : σ) (w : σ') :
    (Res.done a s : Res σ C A α).link L handle w = .done a (L.put s w) := rfl

@[simp] theorem Res.link_call (c : C) (s : σ) (k : A c → σ → Res σ C A α) (w : σ') :
    (Res.call c s k).link L handle w =
      (handle c (L.put s w)).bind fun a w' => (k a (L.part w')).link L handle w' := rfl

/-- A method of a part, in the whole. -/
def Prog.link (x : Prog σ C A α) : Prog σ' C' A' α := fun w => (x (L.part w)).link L handle w

/-- What the whole needs to know of the code of a part.  A stretch of it, from the state `s₀` in
which it begins, may make a call `c` in the state `s` when `pre s₀ c s`, and may end there when
`post s₀ a s`; the states in which calls are answered are `good`. -/
def Res.Serves (good : σ → Prop) (pre : σ → C → σ → Prop) (post : σ → α → σ → Prop) :
    σ → Res σ C A α → Prop
  | s₀, .done a s => post s₀ a s
  | s₀, .call c s k => pre s₀ c s ∧ ∀ a s', good s' → Serves good pre post s' (k a s')

variable {L handle} {good : σ → Prop} {pre : σ → C → σ → Prop}

theorem Res.serves_call {post : σ → α → σ → Prop} {s₀ s : σ} {c : C} {k : A c → σ → Res σ C A α} :
    Res.Serves good pre post s₀ (.call c s k) ↔
      pre s₀ c s ∧ ∀ a s', good s' → Res.Serves good pre post s' (k a s') := Iff.rfl

theorem Res.Serves.bind {post : σ → α → σ → Prop} {post' : σ → β → σ → Prop} {s₀ : σ}
    {r : Res σ C A α} {f : α → σ → Res σ C A β} (h : r.Serves good pre post s₀)
    (hf : ∀ s₀ a s, post s₀ a s → (f a s).Serves good pre post' s₀) :
    (r.bind f).Serves good pre post' s₀ := by
  induction r generalizing s₀ with
  | done a s => exact hf s₀ a s h
  | call c s k ih =>
      obtain ⟨hpre, hk⟩ := h
      exact ⟨hpre, fun a s' hs' => ih a s' (hk a s' hs')⟩

/-- **A part keeps the contract of the whole** when what handles its calls does. -/
theorem Res.Serves.link {E' : Type} {K : Contract σ' E' C' A'} {below : List C'} {P : σ' → Prop}
    {post : σ → α → σ → Prop}
    (hhandle : ∀ c w s, P w → pre (L.part w) c s →
      K.Spec below (fun _ w' => P w' ∧ good (L.part w')) (handle c (L.put s w)))
    {r : Res σ C A α} {w : σ'} (h : r.Serves good pre post (L.part w)) (hw : P w) :
    K.Spec below (fun a w' => ∃ w₁ s, P w₁ ∧ post (L.part w₁) a s ∧ w' = L.put s w₁)
      (r.link L handle w) := by
  induction r generalizing w with
  | done a s => exact ⟨w, s, hw, h, rfl⟩
  | call c s k ih =>
      obtain ⟨hpre, hk⟩ := h
      refine (hhandle c w s hw hpre).bind ?_
      rintro a w' ⟨hw', hgood⟩
      exact ih a (L.part w') (hk a (L.part w') hgood) hw'

/-- **Code that keeps a contract of the part keeps the one of the whole** when what handles its
calls answers them as the contract of the part permits. -/
theorem Contract.Spec.link {E E' : Type} {K : Contract σ E C A} {K' : Contract σ' E' C' A'}
    {below : List C} {below' : List C'} {P : σ' → Prop} {post : α → σ → Prop}
    (hhandle : ∀ c w s, P w → K.good (c :: below) s →
      K'.Spec below' (fun a w' => P w' ∧ K.good (c :: below) (L.part w') ∧
        K.rely (c :: below) s (L.part w') ∧ K.ok (c :: below) (L.part w') (.answer c a))
        (handle c (L.put s w)))
    {r : Res σ C A α} {w : σ'} (h : K.Spec below post r) (hw : P w) :
    K'.Spec below' (fun a w' => ∃ w₁ s, P w₁ ∧ post a s ∧ w' = L.put s w₁) (r.link L handle w) := by
  induction r generalizing w with
  | done a s => exact ⟨w, s, hw, h, rfl⟩
  | call c s k ih =>
      obtain ⟨hgood, hk⟩ := h
      refine (hhandle c w s hw hgood).bind ?_
      rintro a w' ⟨hw', hgood', hrely, hok⟩
      exact ih a (L.part w') (hk a (L.part w') hgood' hrely hok) hw'

end link

/-! ### Code of one kind -/

section within

variable {σ C σ' C' α β : Type} {A : C → Type} {A' : C' → Type}

/-- Code that makes calls of the kind `may` only. -/
def Res.Makes (may : C → Prop) : Res σ C A α → Prop
  | .done _ _ => True
  | .call c _ k => may c ∧ ∀ a s, Makes may (k a s)

/-- **Code that stays within a relation**: the states at both ends of each of its stretches, the
first of which begins in the state `s₀`, are related by `R`, whatever it is answered; it makes calls
of the kind `may` only. -/
abbrev Res.Within (R : σ → σ → Prop) (may : C → Prop) (s₀ : σ) (r : Res σ C A α) : Prop :=
  r.Serves (fun _ => True) (fun s₀ c s => R s₀ s ∧ may c) (fun s₀ _ s => R s₀ s) s₀

variable {R R' : σ → σ → Prop} {may may' : C → Prop} {s₀ s : σ} {r : Res σ C A α}

theorem Res.Makes.bind {f : α → σ → Res σ C A β} (h : r.Makes may)
    (hf : ∀ a s, (f a s).Makes may) : (r.bind f).Makes may := by
  induction r with
  | done a s => exact hf a s
  | call c s k ih => exact ⟨h.1, fun a s' => ih a s' (h.2 a s')⟩

theorem Res.makes_any (r : Res σ C A α) : r.Makes fun _ => True := by
  induction r with
  | done a s => trivial
  | call c s k ih => exact ⟨trivial, ih⟩

theorem Res.Makes.mono (h : r.Makes may) (hmay : ∀ c, may c → may' c) : r.Makes may' := by
  induction r with
  | done a s => trivial
  | call c s k ih => exact ⟨hmay c h.1, fun a s' => ih a s' (h.2 a s')⟩

/-- Code of a part whose calls are answered at once. -/
theorem Res.Makes.link_done {L : Part σ σ'} {handle : (c : C) → Prog σ' C' A' (A c)}
    (h : r.Makes may) (hhandle : ∀ c, may c → ∀ w, ∃ a w', handle c w = .done a w') :
    ∀ w, ∃ a w', r.link L handle w = .done a w' := by
  induction r with
  | done a s => exact fun w => ⟨a, L.put s w, rfl⟩
  | call c s k ih =>
      intro w
      obtain ⟨a, w', hdone⟩ := hhandle c h.1 (L.put s w)
      rw [Res.link_call, hdone, Res.bind_done]
      exact ih a (L.part w') (h.2 a (L.part w')) w'

/-- The calls of a part, and those that are made to handle them. -/
theorem Res.Makes.link {L : Part σ σ'} {handle : (c : C) → Prog σ' C' A' (A c)} {may' : C' → Prop}
    (h : r.Makes may) (hhandle : ∀ c, may c → ∀ w, (handle c w).Makes may') :
    ∀ w, (r.link L handle w).Makes may' := by
  induction r with
  | done a s => exact fun _ => trivial
  | call c s k ih =>
      intro w
      refine (hhandle c h.1 _).bind fun a w' => ?_
      exact ih a (L.part w') (h.2 a (L.part w')) w'

theorem Res.Within.call {c : C} {k : A c → σ → Res σ C A α} (h : R s₀ s) (hc : may c)
    (hk : ∀ a s', (k a s').Within R may s') : (Res.call c s k).Within R may s₀ :=
  Res.serves_call.2 ⟨⟨h, hc⟩, fun a s' _ => hk a s'⟩

theorem Res.Within.mono (h : r.Within R may s₀) (hR : ∀ s s', R s s' → R' s s')
    (hmay : ∀ c, may c → may' c) : r.Within R' may' s₀ := by
  induction r generalizing s₀ with
  | done a s => exact hR s₀ s h
  | call c s k ih =>
      exact ⟨⟨hR s₀ s h.1.1, hmay c h.1.2⟩, fun a s' hs' => ih a s' (h.2 a s' hs')⟩

theorem Res.Makes.within (h : r.Makes may) : r.Within (fun _ _ => True) may s₀ := by
  induction r generalizing s₀ with
  | done a s => trivial
  | call c s k ih => exact ⟨⟨trivial, h.1⟩, fun a s' _ => ih a s' (h.2 a s')⟩

/-- Code that begins in a later state. -/
theorem Res.Within.after (htrans : ∀ s s' s'', R s s' → R s' s'' → R s s'') (hs : R s₀ s)
    (h : r.Within R may s) : r.Within R may s₀ := by
  cases r with
  | done a s' => exact htrans _ _ _ hs h
  | call c s' k => exact ⟨⟨htrans _ _ _ hs h.1.1, h.1.2⟩, h.2⟩

theorem Res.Within.bind (htrans : ∀ s s' s'', R s s' → R s' s'' → R s s'')
    {f : α → σ → Res σ C A β} (h : r.Within R may s₀) (hf : ∀ a s, (f a s).Within R may s) :
    (r.bind f).Within R may s₀ :=
  Res.Serves.bind h fun _ a s hs => Res.Within.after htrans hs (hf a s)

/-- **Code of a part stays within a relation of the whole** when what handles its calls does. -/
theorem Res.Within.link {L : Part σ σ'} {handle : (c : C) → Prog σ' C' A' (A c)}
    {Q : σ' → σ' → Prop} {may' : C' → Prop} (htrans : ∀ w w' w'', Q w w' → Q w' w'' → Q w w'')
    (hput : ∀ {w s}, R (L.part w) s → Q w (L.put s w))
    (hhandle : ∀ c, may c → ∀ w, (handle c w).Within Q may' w) {w : σ'}
    (h : r.Within R may (L.part w)) : (r.link L handle w).Within Q may' w := by
  induction r generalizing w with
  | done a s => exact hput h
  | call c s k ih =>
      obtain ⟨⟨hs, hc⟩, hk⟩ := h
      refine Res.Within.after htrans (hput hs) (Res.Within.bind htrans (hhandle c hc _) ?_)
      exact fun a w' => ih a (L.part w') (hk a (L.part w') trivial)

/-- **Code that stays within a relation keeps a contract** that does, too, while its calls wait. -/
theorem Contract.spec_of_within {E : Type} {K : Contract σ E C A} {below : List C}
    (htrans : ∀ s s' s'', R s s' → R s' s'' → R s s'')
    (hgood : ∀ c s, may c → R s₀ s → K.good (c :: below) s)
    (hrely : ∀ c s s', may c → K.rely (c :: below) s s' → R s s') (h : r.Within R may s₀) :
    K.Spec below (fun _ s => R s₀ s) r := by
  induction r with
  | done a s => exact h
  | call c s k ih =>
      obtain ⟨⟨hs, hc⟩, hk⟩ := h
      refine ⟨hgood c s hc hs, fun a s' _ hs' _ => ?_⟩
      have hnow := htrans _ _ _ hs (hrely c s s' hc hs')
      exact ih a s' (Res.Within.after htrans hnow (hk a s' trivial))

end within

/-! ### Calls of two kinds -/

section kinds

variable {σ E C α : Type} {A : C → Type}

/-- **A contract for calls of two kinds**: `ready` holds whenever the call made last is of the kind
`out`, and while a call waits that is not `free`, the states are related by `R`. -/
def Contract.ofKinds (ok : List C → σ → Move E C A → Prop) (out free : C → Bool) (ready : σ → Prop)
    (R : σ → σ → Prop) : Contract σ E C A where
  ok := ok
  good pending s := (∃ c ∈ pending.head?, out c = true) → ready s
  rely pending s s' := (∃ c ∈ pending, free c = false) → R s s'

namespace Contract

variable {ok : List C → σ → Move E C A → Prop} {out free : C → Bool} {ready : σ → Prop}
  {R : σ → σ → Prop} {below : List C} {post : α → σ → Prop} {c : C} {s s' : σ}
  {k : A c → σ → Res σ C A α}

theorem good_of_not_out (hc : out c = false) :
    (ofKinds ok out free ready R).good (c :: below) s := by
  rintro ⟨c', hc', hout⟩
  obtain rfl : c = c' := Option.some.inj hc'
  rw [hc] at hout
  cases hout

/-- A call of the kind `out`. -/
theorem spec_out (hc : out c = true) (hfree : free c = false) (hs : ready s)
    (hk : ∀ a s', R s s' → ready s' → ok (c :: below) s' (.answer c a) →
      (ofKinds ok out free ready R).Spec below post (k a s')) :
    (ofKinds ok out free ready R).Spec below post (.call c s k) := by
  refine ⟨fun _ => hs, fun a s' hgood hrely hok => hk a s' (hrely ?_) (hgood ?_) hok⟩
  · exact ⟨c, List.mem_cons_self, hfree⟩
  · exact ⟨c, rfl, hc⟩

/-- A call of neither kind. -/
theorem spec_waits (hc : out c = false) (hfree : free c = false)
    (hk : ∀ a s', R s s' → (ofKinds ok out free ready R).Spec below post (k a s')) :
    (ofKinds ok out free ready R).Spec below post (.call c s k) :=
  ⟨good_of_not_out hc, fun a s' _ hrely _ => hk a s' (hrely ⟨c, List.mem_cons_self, hfree⟩)⟩

/-- The contract asks for nothing while only free calls wait. -/
theorem good_of_free (hkinds : ∀ c, out c = true → free c = false)
    (hfree : ∀ c ∈ below, free c = true) : (ofKinds ok out free ready R).good below s := by
  rintro ⟨c, hc, hout⟩
  have hc := hfree c (List.mem_of_head? hc)
  rw [hkinds c hout] at hc
  cases hc

theorem rely_of_free (hfree : ∀ c ∈ below, free c = true) :
    (ofKinds ok out free ready R).rely below s s' := by
  rintro ⟨c, hc, hnot⟩
  rw [hfree c hc] at hnot
  cases hnot

/-- Code that makes no call of the kind `out`. -/
theorem spec_of_not_out {Q : σ → σ → Prop} {r : Res σ C A α} {may : C → Prop}
    (h : r.Within Q may s) (hmay : ∀ c, may c → out c = false) :
    (ofKinds ok out free ready R).Spec below (fun _ _ => True) r := by
  have hany : r.Within (fun _ _ => True) (fun c => out c = false) s :=
    Res.Within.mono h (fun _ _ _ => trivial) hmay
  exact spec_of_within (fun _ _ _ _ _ => trivial) (fun c s' hc _ => good_of_not_out hc)
    (fun _ _ _ _ _ => trivial) hany

end Contract

end kinds

/-! ### One invocation -/

section goes

variable {σ C α β : Type} {A : C → Type}

/-- A call that has been answered: the answer, and the state in which the code then goes on. -/
structure Answered (σ C : Type) (A : C → Type) where
  request : C
  answer : A request
  state : σ

/-- **An invocation from its beginning to its end**: the code makes the calls of a path, each of
which is answered as `env` permits, and it is done with a value in a state. -/
inductive Res.Goes (env : (c : C) → σ → A c → σ → Prop) :
    Res σ C A α → List (Answered σ C A) → α → σ → Prop
  | done (a : α) (s : σ) : Goes env (.done a s) [] a s
  | call {c : C} {s s' s'' : σ} {k : A c → σ → Res σ C A α} {b : A c}
      {path : List (Answered σ C A)} {a : α} (hanswer : env c s b s')
      (hgoes : Goes env (k b s') path a s'') : Goes env (.call c s k) (⟨c, b, s'⟩ :: path) a s''

variable {env : (c : C) → σ → A c → σ → Prop} {path : List (Answered σ C A)}

theorem Res.goes_done {a a' : α} {s s' : σ} :
    (Res.done a s : Res σ C A α).Goes env path a' s' ↔ path = [] ∧ a' = a ∧ s' = s := by
  constructor
  · rintro ⟨⟩
    exact ⟨rfl, rfl, rfl⟩
  · rintro ⟨rfl, rfl, rfl⟩
    exact .done _ _

theorem Res.goes_call {c : C} {s s'' : σ} {k : A c → σ → Res σ C A α} {a : α} :
    (Res.call c s k).Goes env path a s'' ↔
      ∃ b s' rest, path = ⟨c, b, s'⟩ :: rest ∧ env c s b s' ∧ (k b s').Goes env rest a s'' := by
  constructor
  · rintro ⟨⟩
    exact ⟨_, _, _, rfl, ‹_›, ‹_›⟩
  · rintro ⟨b, s', rest, rfl, hanswer, hgoes⟩
    exact .call hanswer hgoes

/-- The path of one piece of code after another. -/
theorem Res.goes_bind {r : Res σ C A α} {f : α → σ → Res σ C A β} {b : β} {s'' : σ} :
    (r.bind f).Goes env path b s'' ↔
      ∃ p q a s', path = p ++ q ∧ r.Goes env p a s' ∧ (f a s').Goes env q b s'' := by
  induction r generalizing path with
  | done a s =>
      rw [Res.bind_done]
      constructor
      · exact fun h => ⟨[], path, a, s, rfl, .done _ _, h⟩
      · rintro ⟨p, q, a', s', rfl, h, h'⟩
        obtain ⟨rfl, rfl, rfl⟩ := Res.goes_done.1 h
        exact h'
  | call c s k ih =>
      rw [Res.bind_call, Res.goes_call]
      constructor
      · rintro ⟨a, s', rest, rfl, hanswer, hgoes⟩
        obtain ⟨p, q, a', s₁, rfl, h, h'⟩ := (ih a s').1 hgoes
        exact ⟨_ :: p, q, a', s₁, rfl, .call hanswer h, h'⟩
      · rintro ⟨p, q, a', s₁, rfl, h, h'⟩
        obtain ⟨a, s', rest, rfl, hanswer, hgoes⟩ := Res.goes_call.1 h
        exact ⟨a, s', rest ++ q, rfl, hanswer, (ih a s').2 ⟨rest, q, a', s₁, rfl, hgoes, h'⟩⟩

end goes

end Reentrant
