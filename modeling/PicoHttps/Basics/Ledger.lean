/-
**A ledger of invocations.**

Some methods of a system put something on record, such as the bytes that they write.  Between the
parts of what one invocation puts there, others may run, so the record need not show one invocation
after the other.  It does when each such invocation is alone: when it is entered, no other one is
waiting, and those that are entered while it waits leave the record as it is.

The states of the ledger are an arbitrary type `M`, and `bal m s` says that the ledger `m` shows
what is on record in the state `s`.

Main definitions:

* `Reentrant.Res.Silent` — code that leaves the record as it is;
* `Reentrant.Contract.Ledger` — the methods that book, and when they are alone;
* `Reentrant.Contract.Ledger.booked` — the ledger of a history.

Main results:

* `Reentrant.Contract.Ledger.run` — **the ledger of the history shows what is on record** whenever
  no invocation that books is waiting.
-/

import PicoHttps.Basics.Reentrant

set_option relaxedAutoImplicit false
set_option autoImplicit false

namespace Reentrant

variable {σ E C ρ α β M : Type} {A : C → Type}

/-! ### Silent code -/

/-- Every balance is kept from one state to another. -/
def Keeps (bal : M → σ → Prop) (s s' : σ) : Prop := ∀ m, bal m s → bal m s'

/-- **Code that leaves the record as it is**; it makes calls of the kind `may` only. -/
abbrev Res.Silent (bal : M → σ → Prop) (may : C → Prop) (s₀ : σ) (r : Res σ C A α) : Prop :=
  r.Within (Keeps bal) may s₀

variable {bal : M → σ → Prop} {may : C → Prop} {s s' : σ}

namespace Contract

/-! ### Ledgers -/

/-- **A ledger of the methods `books`.**  An invocation of one of them makes no calls that are
`free`, and is entered only while free calls are waiting; when it has returned, `book` shows what
it has put on record.  All others are silent. -/
structure Ledger (K : Contract σ E C A) (method : E → Prog σ C A ρ)
    (post : List C → E → σ → ρ → σ → Prop) (bal : M → σ → Prop) (book : Record σ E C ρ → M → M)
    (books : E → Prop) (free may : C → Prop) : Prop where
  alone : ∀ {below s e}, K.ok below s (.enter e) → books e → ∀ c ∈ below, free c
  waits : ∀ {e} s, books e → (method e s).Makes fun c => ¬ free c
  silent : ∀ {e} s, ¬ books e → (method e s).Silent bal may s
  idle : ∀ {r m}, ¬ books r.entry → book r m = m
  advance : ∀ {r m}, books r.entry → post r.below r.entry r.before r.result r.after →
    bal m r.before → bal (book r m) r.after

/-- The ledger of a history. -/
def booked (book : Record σ E C ρ → M → M) (m : M) (history : List (Record σ E C ρ)) : M :=
  history.foldl (fun m r => book r m) m

variable {K : Contract σ E C A} {method : E → Prog σ C A ρ}
  {post : List C → E → σ → ρ → σ → Prop} {book : Record σ E C ρ → M → M}
  {books : E → Prop} {free may : C → Prop} {m : M} {stack : List (Frame σ E C A ρ)}
  {history : List (Record σ E C ρ)}

theorem booked_concat (r : Record σ E C ρ) :
    booked book m (history ++ [r]) = book r (booked book m history) := by
  rw [booked, List.foldl_append]
  rfl

namespace Ledger

/-- An invocation that waits: it is alone, or it is silent. -/
def Goes (bal : M → σ → Prop) (books : E → Prop) (free may : C → Prop) (f : Frame σ E C A ρ) :
    Prop :=
  (books f.entry ∧ ¬ free f.request ∧ ∀ a s, (f.resume a s).Makes fun c => ¬ free c) ∨
  (¬ books f.entry ∧ ∀ a s, (f.resume a s).Silent bal may s)

/-- The ledger shows what was on record when an invocation that books was entered, if one is
waiting, and what is there now, otherwise. -/
def Shows (bal : M → σ → Prop) (books : E → Prop) (m : M) : List (Frame σ E C A ρ) → σ → Prop
  | [], s => bal m s
  | f :: stack, s => (books f.entry ∧ bal m f.before ∧ ∀ g ∈ stack, ¬ books g.entry) ∨
    (¬ books f.entry ∧ Shows bal books m stack s)

theorem shows_iff (h : ∀ f ∈ stack, ¬ books f.entry) : Shows bal books m stack s ↔ bal m s := by
  induction stack with
  | nil => exact Iff.rfl
  | cons f stack ih =>
      have hf := h f List.mem_cons_self
      rw [Shows, or_iff_right (fun h => hf h.1), and_iff_right hf]
      exact ih fun g hg => h g (List.mem_cons_of_mem f hg)

theorem Shows.keeps (h : Shows bal books m stack s) (hs : Keeps bal s s') :
    Shows bal books m stack s' := by
  induction stack with
  | nil => exact hs m h
  | cons f stack ih => exact h.imp id (And.imp_right ih)

/-- When all calls that wait are free, no invocation that books is waiting. -/
theorem notMem_books (h : ∀ f ∈ stack, Goes bal books free may f)
    (hfree : ∀ c ∈ pending stack, free c) : ∀ f ∈ stack, ¬ books f.entry := by
  intro f hf hbooks
  rcases h f hf with ⟨-, hnot, -⟩ | ⟨hnot, -⟩
  · exact hnot (hfree f.request (List.mem_map_of_mem hf))
  · exact hnot hbooks

/-- What a run keeps. -/
structure Inv (bal : M → σ → Prop) (book : Record σ E C ρ → M → M) (books : E → Prop)
    (free may : C → Prop) (m : M) (c : Config σ E C A ρ) : Prop where
  goes : ∀ f ∈ c.stack, Goes bal books free may f
  shows : Shows bal books (booked book m c.history) c.stack c.state

/-- An invocation that books has come to a call or to its end. -/
theorem Inv.settle_books {e : E} {before : σ} {r : Res σ C A ρ}
    (hL : Ledger K method post bal book books free may)
    (hgoes : ∀ f ∈ stack, Goes bal books free may f)
    (hbooks : books e) (halone : ∀ f ∈ stack, ¬ books f.entry)
    (hbefore : bal (booked book m history) before) (hr : r.Makes fun c => ¬ free c)
    (hpost : ∀ x ∈ (settle e before stack history r).history,
      post x.below x.entry x.before x.result x.after) :
    Inv bal book books free may m (settle e before stack history r) := by
  cases r with
  | done a s =>
      refine ⟨hgoes, (shows_iff halone).2 ?_⟩
      have hrecord := hpost _ (List.mem_append_right history (List.mem_singleton_self _))
      rw [settle, booked_concat]
      exact hL.advance hbooks hrecord hbefore
  | call c s k =>
      refine ⟨fun f hf => ?_, .inl ⟨hbooks, hbefore, halone⟩⟩
      rcases List.mem_cons.1 hf with rfl | hf
      · exact .inl ⟨hbooks, hr⟩
      · exact hgoes f hf

/-- A silent invocation has come to a call or to its end. -/
theorem Inv.settle_silent {e : E} {before : σ} {r : Res σ C A ρ}
    (hL : Ledger K method post bal book books free may)
    (hgoes : ∀ f ∈ stack, Goes bal books free may f)
    (hbooks : ¬ books e) (hshows : Shows bal books (booked book m history) stack s)
    (hr : r.Silent bal may s) :
    Inv bal book books free may m (settle e before stack history r) := by
  cases r with
  | done a s' =>
      refine ⟨hgoes, ?_⟩
      rw [settle, booked_concat, hL.idle hbooks]
      exact hshows.keeps hr
  | call c s' k =>
      refine ⟨fun f hf => ?_, .inr ⟨hbooks, hshows.keeps hr.1.1⟩⟩
      rcases List.mem_cons.1 hf with rfl | hf
      · exact .inr ⟨hbooks, fun a s => hr.2 a s trivial⟩
      · exact hgoes f hf

/-- **A move.** -/
theorem Inv.step [DecidableEq C] (hL : Ledger K method post bal book books free may)
    {c c' : Config σ E C A ρ} {x : Move E C A} (h : Inv bal book books free may m c)
    (hok : K.ok c.pending c.state x) (hstep : Reentrant.step method c x = some c')
    (hpost : ∀ x ∈ c'.history, post x.below x.entry x.before x.result x.after) :
    Inv bal book books free may m c' := by
  obtain ⟨stack, s, history⟩ := c
  obtain ⟨hgoes, hshows⟩ := h
  rcases step_cases hstep with ⟨e, rfl, rfl⟩ | ⟨f, stack, a, rfl, rfl, rfl⟩
  · by_cases hbooks : books e
    · have halone := notMem_books hgoes (hL.alone hok hbooks)
      exact .settle_books hL hgoes hbooks halone ((shows_iff halone).1 hshows)
        (hL.waits s hbooks) hpost
    · exact .settle_silent hL hgoes hbooks hshows (hL.silent s hbooks)
  · have hrest : ∀ g ∈ stack, Goes bal books free may g :=
      fun g hg => hgoes g (List.mem_cons_of_mem f hg)
    rcases hgoes f List.mem_cons_self with ⟨hbooks, -, hmakes⟩ | ⟨hbooks, hsilent⟩
    · obtain ⟨-, hbefore, halone⟩ := hshows.resolve_right fun h => h.1 hbooks
      exact .settle_books hL hrest hbooks halone hbefore (hmakes a s) hpost
    · obtain ⟨-, hshows⟩ := hshows.resolve_left fun h => hbooks h.1
      exact .settle_silent hL hrest hbooks hshows (hsilent a s)

/-- What every run keeps. -/
theorem Inv.run [DecidableEq C] [∀ p s x, Decidable (K.ok p s x)] (hK : K.Sound method post)
    (hL : Ledger K method post bal book books free may) (moves : List (Move E C A))
    {c c' : Config σ E C A ρ} (hholds : K.Holds post c) (h : Inv bal book books free may m c)
    (hrun : Reentrant.run method K.ok moves c = some c') : Inv bal book books free may m c' := by
  refine (run_closed (P := fun c => K.Holds post c ∧ Inv bal book books free may m c) ?_ moves
    ⟨hholds, h⟩ hrun).2
  rintro c c' x ⟨hholds, h⟩ hok hstep
  have hholds' := hholds.step hK hok hstep
  exact ⟨hholds', h.step hL hok hstep hholds'.2⟩

/-- **The ledger of the history shows what is on record** whenever only free calls are waiting. -/
theorem run [DecidableEq C] [∀ p s x, Decidable (K.ok p s x)] (hK : K.Sound method post)
    (hL : Ledger K method post bal book books free may) (hgood : K.good [] s) (hs : bal m s)
    {moves : List (Move E C A)} {c : Config σ E C A ρ}
    (hrun : Reentrant.run method K.ok moves (.start s) = some c) (hfree : ∀ x ∈ c.pending, free x) :
    bal (booked book m c.history) c.state := by
  have hholds : K.Holds post (.start s : Config σ E C A ρ) :=
    ⟨hgood, fun r hr => absurd hr List.not_mem_nil⟩
  have hstart : Inv bal book books free may m (.start s : Config σ E C A ρ) :=
    ⟨fun f hf => absurd hf List.not_mem_nil, hs⟩
  have hinv := hstart.run hK hL moves hholds hrun
  exact (shows_iff (notMem_books hinv.goes hfree)).1 hinv.shows

end Ledger

end Contract

end Reentrant
