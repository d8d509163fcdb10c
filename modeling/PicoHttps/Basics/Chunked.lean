/-
**Processing a stream that arrives in chunks.**

A stream processor receives a byte stream cut into chunks: each chunk is processed from the state
left by the one before, emits events, and either leaves a state or stops the processing for good.
Whether the result depends on the cuts is decided by one law about a single cut: processing
`x ++ y` at once is processing `x` and then `y`.  This module states that law up to an
equivalence of event lists (two pieces of data may stand for one) and relative to a set of inputs
on which it holds (`Chunk.Lawful`), and proves from it that every way of cutting gives what
the uncut stream gives.

Main definitions:

* `Chunk.Proc` — a processor of one chunk;
* `Chunk.feed` — processing a list of chunks, up to the first one that stops;
* `Chunk.Congr` — an equivalence of event lists that is respected by concatenation;
* `Chunk.Lawful` — the law of one cut, on a set of inputs;
* `Chunk.ofStep` — the processor that takes the elements of a chunk one by one;
* `Chunk.Fed` — processing a list of chunks with a processor that need not return.

Main results:

* `Chunk.Lawful.feed` — **every way of cutting gives the result of the uncut stream**;
* `Chunk.feed_ofStep` — a processor that takes one element at a time does not see the cuts;
* `Chunk.Fed.det`, `Chunk.Fed.map` — determinism, and simulation, of such a processor;
* `Chunk.prefix_of_first` — the first chunk of a log.
-/

import Mathlib.Data.List.Basic
import Mathlib.Tactic.Common

set_option relaxedAutoImplicit false
set_option autoImplicit false

namespace Chunk

/-- A processor of one chunk: from a state, the events it emits, and the state it leaves or the
reason why it stops. -/
abbrev Proc (S β ε τ : Type) := S → List β → List ε × (S ⊕ τ)

variable {S β ε τ : Type}

/-- Processing a list of chunks, up to the first one that stops. -/
def feed (P : Proc S β ε τ) : S → List (List β) → List ε × (S ⊕ τ)
  | s, [] => ([], .inl s)
  | s, c :: cs =>
    match P s c with
    | (es, .inr t) => (es, .inr t)
    | (es, .inl s') => (es ++ (feed P s' cs).1, (feed P s' cs).2)

@[simp] theorem feed_nil (P : Proc S β ε τ) (s : S) : feed P s [] = ([], .inl s) := rfl

theorem feed_cons_stop {P : Proc S β ε τ} {s : S} {c : List β} {es : List ε} {t : τ}
    (h : P s c = (es, .inr t)) (cs : List (List β)) : feed P s (c :: cs) = (es, .inr t) := by
  simp only [feed, h]

theorem feed_cons_go {P : Proc S β ε τ} {s s' : S} {c : List β} {es : List ε}
    (h : P s c = (es, .inl s')) (cs : List (List β)) :
    feed P s (c :: cs) = (es ++ (feed P s' cs).1, (feed P s' cs).2) := by
  simp only [feed, h]

/-! ### The law of one cut -/

/-- An equivalence of event lists that concatenation respects. -/
structure Congr (R : List ε → List ε → Prop) : Prop where
  equivalence : Equivalence R
  append : ∀ {a b c d : List ε}, R a b → R c d → R (a ++ c) (b ++ d)

/-- The equality of event lists. -/
theorem Congr.eq : Congr (@Eq (List ε)) :=
  ⟨eq_equivalence, fun h h' => by rw [h, h']⟩

/-- The law of one cut, up to `R`, on the inputs in `Safe`. -/
structure Lawful (P : Proc S β ε τ) (R : List ε → List ε → Prop)
    (Safe : S → List β → Prop) : Prop where
  /-- An empty chunk changes nothing. -/
  nil : ∀ s, P s [] = ([], .inl s)
  /-- A processor that stopped in `x` has stopped in `x ++ y`. -/
  stop : ∀ {s x es t}, P s x = (es, .inr t) → ∀ y, Safe s (x ++ y) →
    R (P s (x ++ y)).1 es ∧ (P s (x ++ y)).2 = .inr t
  /-- Otherwise `x ++ y` is processed as `x` and then `y`. -/
  go : ∀ {s x es s'}, P s x = (es, .inl s') → ∀ y, Safe s (x ++ y) →
    R (P s (x ++ y)).1 (es ++ (P s' y).1) ∧ (P s (x ++ y)).2 = (P s' y).2
  /-- What is left of a safe input is safe for the state reached. -/
  rest : ∀ {s x es s'}, P s x = (es, .inl s') → ∀ y, Safe s (x ++ y) → Safe s' y

/-- **Every way of cutting a safe stream gives what the uncut stream gives.** -/
theorem Lawful.feed {P : Proc S β ε τ} {R : List ε → List ε → Prop}
    {Safe : S → List β → Prop} (hP : Lawful P R Safe) (hR : Congr R) (cs : List (List β)) :
    ∀ s, Safe s cs.flatten →
      R (Chunk.feed P s cs).1 (P s cs.flatten).1 ∧
        (Chunk.feed P s cs).2 = (P s cs.flatten).2 := by
  induction cs with
  | nil =>
      intro s _
      rw [List.flatten_nil, hP.nil, feed_nil]
      exact ⟨hR.equivalence.refl _, rfl⟩
  | cons c cs ih =>
      intro s hs
      rw [List.flatten_cons] at hs ⊢
      rcases hc : P s c with ⟨es, s' | t⟩
      · obtain ⟨hev, hst⟩ := hP.go hc cs.flatten hs
        obtain ⟨ihev, ihst⟩ := ih s' (hP.rest hc cs.flatten hs)
        rw [feed_cons_go hc, hst]
        exact ⟨hR.equivalence.trans (hR.append (hR.equivalence.refl es) ihev)
          (hR.equivalence.symm hev), ihst⟩
      · obtain ⟨hev, hst⟩ := hP.stop hc cs.flatten hs
        rw [feed_cons_stop hc, hst]
        exact ⟨hR.equivalence.symm hev, rfl⟩

/-! ### Processors that take one element at a time -/

/-- The processor that takes the elements of a chunk one by one. -/
def ofStep (step : S → β → List ε × (S ⊕ τ)) : Proc S β ε τ
  | s, [] => ([], .inl s)
  | s, b :: bs =>
    match step s b with
    | (es, .inr t) => (es, .inr t)
    | (es, .inl s') => (es ++ (ofStep step s' bs).1, (ofStep step s' bs).2)

section ofStep

variable {step : S → β → List ε × (S ⊕ τ)}

@[simp] theorem ofStep_nil (s : S) : ofStep step s [] = ([], .inl s) := rfl

theorem ofStep_cons_stop {s : S} {b : β} {es : List ε} {t : τ} (h : step s b = (es, .inr t))
    (bs : List β) : ofStep step s (b :: bs) = (es, .inr t) := by
  simp only [ofStep, h]

theorem ofStep_cons_go {s s' : S} {b : β} {es : List ε} (h : step s b = (es, .inl s'))
    (bs : List β) :
    ofStep step s (b :: bs) = (es ++ (ofStep step s' bs).1, (ofStep step s' bs).2) := by
  simp only [ofStep, h]

theorem ofStep_singleton (s : S) (b : β) : ofStep step s [b] = step s b := by
  rcases hb : step s b with ⟨es, s' | t⟩
  · rw [ofStep_cons_go hb, ofStep_nil, List.append_nil]
  · exact ofStep_cons_stop hb []

theorem ofStep_append_stop {x : List β} : ∀ {s : S} {es : List ε} {t : τ},
    ofStep step s x = (es, .inr t) → ∀ y, ofStep step s (x ++ y) = (es, .inr t) := by
  induction x with
  | nil => intro s es t h; cases h
  | cons b x ih =>
      intro s es t h y
      rcases hb : step s b with ⟨fs, s' | t'⟩
      · rw [ofStep_cons_go hb] at h
        obtain ⟨rfl, h₂⟩ := Prod.mk.inj h
        rw [List.cons_append, ofStep_cons_go hb, ih (Prod.ext rfl h₂) y]
      · rw [ofStep_cons_stop hb] at h
        rw [List.cons_append, ofStep_cons_stop hb, h]

theorem ofStep_append_go {x : List β} : ∀ {s s' : S} {es : List ε},
    ofStep step s x = (es, .inl s') → ∀ y,
      ofStep step s (x ++ y) = (es ++ (ofStep step s' y).1, (ofStep step s' y).2) := by
  induction x with
  | nil =>
      intro s s' es h y
      obtain ⟨rfl, h⟩ := Prod.mk.inj h
      cases h
      simp
  | cons b x ih =>
      intro s s' es h y
      rcases hb : step s b with ⟨fs, s₁ | t'⟩
      · rw [ofStep_cons_go hb] at h
        obtain ⟨rfl, h₂⟩ := Prod.mk.inj h
        rw [List.cons_append, ofStep_cons_go hb, ih (Prod.ext rfl h₂) y]
        simp [List.append_assoc]
      · rw [ofStep_cons_stop hb] at h
        cases h

/-- Where a processor of elements stops: the elements before have been taken. -/
theorem ofStep_stop {x : List β} : ∀ {s : S} {es : List ε} {t : τ},
    ofStep step s x = (es, .inr t) → ∃ before b after es₀ s₀ es₁, x = before ++ b :: after ∧
      ofStep step s before = (es₀, .inl s₀) ∧ step s₀ b = (es₁, .inr t) := by
  induction x with
  | nil => intro s es t h; cases h
  | cons b x ih =>
      intro s es t h
      rcases hb : step s b with ⟨fs, s' | t'⟩
      · rw [ofStep_cons_go hb] at h
        obtain ⟨before, b', after, es₀, s₀, es₁, rfl, hbefore, hstop⟩ :=
          ih (Prod.ext rfl (Prod.mk.inj h).2)
        refine ⟨b :: before, b', after, fs ++ es₀, s₀, es₁, rfl, ?_, hstop⟩
        rw [ofStep_cons_go hb, hbefore]
      · rw [ofStep_cons_stop hb] at h
        obtain ⟨-, h⟩ := Prod.mk.inj h
        cases h
        exact ⟨[], b, x, [], s, fs, rfl, rfl, hb⟩

/-- A processor that takes the elements one by one does not see the cuts at all. -/
theorem lawful_ofStep : Lawful (ofStep step) Eq fun _ _ => True where
  nil _ := rfl
  stop h y _ := by rw [ofStep_append_stop h y]; exact ⟨rfl, rfl⟩
  go h y _ := by rw [ofStep_append_go h y]; exact ⟨rfl, rfl⟩
  rest _ _ _ := trivial

theorem feed_ofStep (s : S) (cs : List (List β)) :
    feed (ofStep step) s cs = ofStep step s cs.flatten :=
  Prod.ext_iff.2 (lawful_ofStep.feed .eq cs s trivial)

end ofStep

/-! ### Processors that need not return -/

/-- `Fed P s cs es out` : the chunks `cs` are processed one after the other from the state `s`, up
to the first one that is refused; `out` is the state left, if none is.  Here `P s c es out` says
that processing the chunk `c` returns, after the events `es`. -/
inductive Fed (P : S → List β → List ε → Option S → Prop) :
    S → List (List β) → List ε → Option S → Prop
  | nil (s : S) : Fed P s [] [] (some s)
  | stop {s : S} {c : List β} {cs : List (List β)} {es : List ε} :
      P s c es none → Fed P s (c :: cs) es none
  | go {s s' : S} {c : List β} {cs : List (List β)} {es es' : List ε} {out : Option S} :
      P s c es (some s') → Fed P s' cs es' out → Fed P s (c :: cs) (es ++ es') out

section Fed

variable {S' : Type} {P : S → List β → List ε → Option S → Prop}
  {P' : S' → List β → List ε → Option S' → Prop}

/-- A processor that returns in at most one way processes chunks in at most one way. -/
theorem Fed.det
    (hP : ∀ {s c es es' out out'}, P s c es out → P s c es' out' → es = es' ∧ out = out')
    {s : S} {cs : List (List β)} {es es' : List ε} {out out' : Option S} (h : Fed P s cs es out)
    (h' : Fed P s cs es' out') : es = es' ∧ out = out' := by
  induction h generalizing es' with
  | nil s => cases h'; exact ⟨rfl, rfl⟩
  | stop hc =>
      cases h' with
      | stop hc' => exact hP hc hc'
      | go hc' _ => have := (hP hc hc').2; cases this
  | go hc _ ih =>
      cases h' with
      | stop hc' => have := (hP hc hc').2; cases this
      | go hc' hcs' =>
          obtain ⟨rfl, hs⟩ := hP hc hc'
          cases hs
          obtain ⟨rfl, rfl⟩ := ih hcs'
          exact ⟨rfl, rfl⟩

/-- A processor that is followed by another, state for state, is followed over any chunks. -/
theorem Fed.map {R : S → S' → Prop}
    (hP : ∀ {s s' c es out}, R s s' → P s c es out →
      ∃ out', P' s' c es out' ∧ Option.Rel R out out')
    {s : S} {cs : List (List β)} {es : List ε} {out : Option S} (h : Fed P s cs es out) :
    ∀ {s' : S'}, R s s' → ∃ out', Fed P' s' cs es out' ∧ Option.Rel R out out' := by
  induction h with
  | nil s => intro s' hs; exact ⟨some s', .nil s', .some hs⟩
  | stop hc =>
      intro s' hs
      obtain ⟨out', hc', hr⟩ := hP hs hc
      cases hr
      exact ⟨none, .stop hc', .none⟩
  | go hc _ ih =>
      intro s' hs
      obtain ⟨out', hc', hr⟩ := hP hs hc
      cases hr with
      | some ht =>
          obtain ⟨out', hcs', hr'⟩ := ih ht
          exact ⟨out', .go hc' hcs', hr'⟩

end Fed

/-- The chunk that comes first in a log is at the front of all that comes. -/
theorem prefix_of_first {chunk : ε → Option (List β)} {bytes : ε → List β}
    (hbytes : ∀ e, bytes e = (chunk e).getD []) {log : List ε} {x : List β}
    (h : log.findSome? chunk = some x) : x <+: log.flatMap bytes := by
  obtain ⟨pre, e, post, rfl, he, hpre⟩ := List.findSome?_eq_some_iff.1 h
  have hnil : pre.flatMap bytes = [] := by
    refine List.flatMap_eq_nil_iff.2 fun e' he' => ?_
    rw [hbytes, hpre e' he']
    rfl
  rw [List.flatMap_append, hnil, List.flatMap_cons, hbytes, he]
  exact List.prefix_append _ _

end Chunk
