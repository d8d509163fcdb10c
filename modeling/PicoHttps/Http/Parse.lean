/-
**The parser finds what is read.**

`HTTPHeader::parse`, run inside any data, stays inside of it; it answers that there is a message
exactly when there is one at the front of the data, and then it has left the pieces of the message
as strings in the part of the data that the message has taken.

In each loop, the data is a part that has been gone over, which no later step changes, and a part
ahead that is as it was given.

Main definitions:

* `Http.HTTPHeader.HoldsHeaders`, `Http.HTTPHeader.Holds` — the pieces of a message are in memory;
* `Http.HTTPHeader.StandHeaders`, `Http.HTTPHeader.Marks` — where they stand in the data;
* `Http.HTTPHeader.behindFirst`, `behindWords`, `behindValue` — what is done from a place on.

Main results:

* `Http.HTTPHeader.tokenLoop_eq`, `Http.HTTPHeader.headerLoop_some`,
  `Http.HTTPHeader.headerLoop_none` — the loops;
* `Http.HTTPHeader.parse_some`, `Http.HTTPHeader.parse_none` — **the parser finds what is read**.
-/

import PicoHttps.Http.Message
import Mathlib.Data.List.Forall2
import Mathlib.Data.List.GetD

set_option relaxedAutoImplicit false
set_option autoImplicit false

namespace Http

/-! ### The loops of the parser -/

namespace HTTPHeader

/-- The data ends before an empty line does. -/
theorem endLoop_none {xs : List UInt8} (h : skipLines xs = none) (i : ℕ) : endLoop xs i = none := by
  induction xs generalizing i with
  | nil => rfl
  | cons b0 xs ih =>
      rcases xs with _ | ⟨b1, _ | ⟨b2, _ | ⟨b3, xs⟩⟩⟩
      · rfl
      · rfl
      · rfl
      · rw [skipLines] at h
        split at h
        · cases h
        · rename_i hblank
          rw [endLoop, if_neg hblank]
          exact ih h (i + 1)

/-- The loop ends at the end of a line with an empty line after it. -/
theorem endLoop_some {xs rest : List UInt8} (h : skipLines xs = some rest) (i : ℕ) :
    ∃ before, xs = before ++ [CR, LF, CR, LF] ++ rest ∧
      endLoop xs i = some (i + before.length) := by
  induction xs generalizing i with
  | nil => cases h
  | cons b0 xs ih =>
      rcases xs with _ | ⟨b1, _ | ⟨b2, _ | ⟨b3, xs⟩⟩⟩
      · cases h
      · cases h
      · cases h
      · rw [skipLines] at h
        split at h
        · rename_i hblank
          obtain ⟨rfl, rfl, rfl, rfl⟩ := hblank
          cases h
          exact ⟨[], rfl, if_pos ⟨rfl, rfl, rfl, rfl⟩⟩
        · rename_i hblank
          obtain ⟨before, heq, hloop⟩ := ih h (i + 1)
          refine ⟨b0 :: before, by rw [heq]; rfl, ?_⟩
          rw [endLoop, if_neg hblank, hloop, List.length_cons, Nat.add_assoc, Nat.add_comm 1]

/-- A path is skipped. -/
theorem tokenLoop_path {a : List UInt8} (ha : SPACE ∉ a) (b : List UInt8) (i code : ℕ) :
    tokenLoop SLASH (a ++ b) i code = tokenLoop SLASH b (i + a.length) code := by
  induction a generalizing i with
  | nil => rfl
  | cons x a ih =>
      rw [List.mem_cons, not_or] at ha
      rw [List.cons_append, tokenLoop, if_neg (Ne.symm ha.1), if_neg (by simp), ih ha.2,
        List.length_cons, Nat.add_assoc, Nat.add_comm 1]

/-- Digits are added up. -/
theorem tokenLoop_digits {second0 : UInt8} (hsecond : second0 ≠ SLASH) {a : List UInt8}
    (ha : SPACE ∉ a) (hdigits : ∀ x ∈ a, IsDigit x) (b : List UInt8) (i code : ℕ) :
    tokenLoop second0 (a ++ b) i code = tokenLoop second0 b (i + a.length)
      (a.foldl (fun code _ => (code * 10 + (second0.toNat - 0x30)) % 2 ^ 16) code) := by
  induction a generalizing i code with
  | nil => rfl
  | cons x a ih =>
      rw [List.mem_cons, not_or] at ha
      rw [List.cons_append, tokenLoop, if_neg (Ne.symm ha.1), if_pos hsecond,
        if_neg (hdigits x List.mem_cons_self),
        ih ha.2 (fun y hy => hdigits y (List.mem_cons_of_mem x hy)), List.length_cons,
        Nat.add_assoc, Nat.add_comm 1]
      rfl

/-- Anything else is refused. -/
theorem tokenLoop_refuse {second0 : UInt8} (hsecond : second0 ≠ SLASH) {a : List UInt8}
    (ha : SPACE ∉ a) (hdigits : ¬ ∀ x ∈ a, IsDigit x) (b : List UInt8) (i code : ℕ) :
    (tokenLoop second0 (a ++ b) i code).1 = false := by
  induction a generalizing i code with
  | nil => exact absurd (by simp) hdigits
  | cons x a ih =>
      rw [List.mem_cons, not_or] at ha
      rw [List.cons_append, tokenLoop, if_neg (Ne.symm ha.1), if_pos hsecond]
      by_cases hx : IsDigit x
      · rw [if_neg hx]
        refine ih ha.2 (fun hall => hdigits ?_) (i + 1) _
        intro y hy
        rcases List.mem_cons.1 hy with rfl | hy
        · exact hx
        · exact hall y hy
      · rw [if_pos (not_not.1 hx)]

/-- **The loop over the second token** reads the code of the token. -/
theorem tokenLoop_eq {second : List UInt8} (hspace : SPACE ∉ second) {b : List UInt8}
    (hb : ∀ second0 i code, tokenLoop second0 b i code = (true, i, code)) (i : ℕ) :
    match codeOf second with
    | some code => tokenLoop ((second ++ b).getD 0 0) (second ++ b) i 0 =
        (true, i + second.length, code)
    | none => (tokenLoop ((second ++ b).getD 0 0) (second ++ b) i 0).1 = false := by
  cases second with
  | nil => exact hb _ i 0
  | cons second0 rest =>
      have hhead : (second0 :: rest ++ b).getD 0 0 = second0 := rfl
      rw [hhead, codeOf]
      by_cases hslash : second0 = SLASH
      · rw [if_pos hslash, hslash, tokenLoop_path (hslash ▸ hspace)]
        exact hb _ _ _
      · rw [if_neg hslash]
        cases hdigits : (second0 :: rest).all fun x => IsDigit x with
        | true =>
            rw [if_pos rfl, tokenLoop_digits hslash hspace (by simpa using hdigits)]
            exact hb _ _ _
        | false =>
            have hrefuse : ¬ ∀ x ∈ second0 :: rest, IsDigit x := by
              intro hall
              rw [List.all_eq_true.2 fun x hx => decide_eq_true (hall x hx)] at hdigits
              cases hdigits
            exact tokenLoop_refuse hslash hspace hrefuse b i 0

/-- Two bytes of the data, and whether they are an empty line. -/
theorem atBlankLine_eq {xs : List UInt8} {line : Option (List UInt8)}
    (h : blankLine xs = some line) (pre : List UInt8) :
    atBlankLine (pre ++ xs) pre.length = some line.isSome := by
  rcases xs with _ | ⟨b0, _ | ⟨b1, xs⟩⟩
  · cases h
  · cases h
  · obtain rfl := Option.some.inj h
    have h0 : (pre ++ b0 :: b1 :: xs)[pre.length]? = some b0 := by simp
    have h1 : (pre ++ b0 :: b1 :: xs)[pre.length + 1]? = some b1 := by simp
    simp only [atBlankLine, h0, h1, Option.bind_eq_bind, Option.bind_some]
    by_cases hb0 : b0 = CR
    · by_cases hb1 : b1 = LF
      · simp [hb0, hb1]
      · simp [hb0, hb1]
    · simp [hb0]

/-! ### The loop over the headers -/

/-- Names and values, as strings in a memory. -/
def HoldsHeaders (mem : List UInt8) (pointers : List (ℕ × ℕ))
    (headers : List (List UInt8 × List UInt8)) : Prop :=
  List.Forall₂ (fun p s => Text.PointsTo mem p.1 s.1 ∧ Text.PointsTo mem p.2 s.2) pointers headers

theorem HoldsHeaders.append {mem : List UInt8} {pointers : List (ℕ × ℕ)}
    {headers : List (List UInt8 × List UInt8)} (h : HoldsHeaders mem pointers headers)
    (ys : List UInt8) : HoldsHeaders (mem ++ ys) pointers headers :=
  h.imp fun _ _ hp => ⟨hp.1.append ys, hp.2.append ys⟩

/-- Names and values, where they stand in the data that is parsed. -/
def StandHeaders (data : List UInt8) (pointers : List (ℕ × ℕ))
    (headers : List (List UInt8 × List UInt8)) : Prop :=
  List.Forall₂ (fun p s => Text.StandsAt data p.1 s.1 ∧ Text.StandsAt data p.2 s.2) pointers headers

/-- A header line stands where it is found. -/
theorem standsAt_line {orig xs name ys value zs : List UInt8}
    (hname : Text.cut COLON xs = some (name, ys))
    (hvalue : Text.cut CR (ys.drop 1) = some (value, zs)) :
    Text.StandsAt (orig ++ xs) orig.length name ∧
      Text.StandsAt (orig ++ xs) (orig.length + name.length + 1 + 1) value := by
  obtain ⟨rfl, -⟩ := Text.cut_eq_some hname
  cases ys with
  | nil => cases hvalue
  | cons c ys =>
      obtain ⟨rfl, -⟩ := Text.cut_eq_some (show Text.cut CR ys = some (value, zs) from hvalue)
      refine ⟨⟨orig, COLON, _, rfl, rfl, by decide⟩,
        ⟨orig ++ name ++ [COLON, c], CR, zs, by simp, ?_, by decide⟩⟩
      simp
      omega

section headerLoop

variable {turns : ℕ} {h : HTTPHeader} {pre xs : List UInt8}

/-- What a turn does behind the value of a header, at the position `i`. -/
def behindValue (turns : ℕ) (h : HTTPHeader) (name value : ℕ) (data : List UInt8) (i : ℕ) :
    Option Parsed :=
  if i ≥ data.length then some (false, h, data)
  else do
    if (← data[i]?) ≠ LF then return (false, h, data)
    let i := i + 1
    if i + 1 ≥ data.length then return (false, h, data)
    let h := { h with headers := h.headers ++ [(name, value)] }
    if ← atBlankLine data i then
      return (true, { h with headerSize := (i + 2) % 2 ^ 16 }, data)
    headerLoop turns h data i

/-- A turn that finds a name and a value puts a zero byte behind each of them. -/
theorem headerLoop_value (turns : ℕ) (h : HTTPHeader) (pre : List UInt8)
    {name ys value zs : List UInt8} {c : UInt8} (hname : Text.cut COLON xs = some (name, c :: ys))
    (hvalue : Text.cut CR ys = some (value, zs)) :
    headerLoop (turns + 1) h (pre ++ xs) pre.length =
      behindValue turns h pre.length (pre.length + name.length + 1 + 1)
        (pre ++ name ++ [0, c] ++ value ++ [0] ++ zs)
        (pre ++ name ++ [0, c] ++ value ++ [0]).length := by
  obtain ⟨rfl, -⟩ := Text.cut_eq_some hname
  obtain ⟨rfl, -⟩ := Text.cut_eq_some hvalue
  -- the data after each of the two zeros
  let pre₁ := pre ++ name ++ [0, c]
  let pre₂ := pre₁ ++ value ++ [0]
  have hlen₁ : pre₁.length = pre.length + name.length + 1 + 1 := by
    simp [pre₁]
    omega
  have hlen₂ : pre₂.length = pre₁.length + value.length + 1 := by simp [pre₂]; omega
  have hpoke₁ : Text.poke (pre ++ (name ++ COLON :: c :: (value ++ CR :: zs)))
      (pre.length + name.length) 0 = some (pre₁ ++ (value ++ CR :: zs)) := by
    rw [Text.poke_word]
    simp [pre₁]
  have hpoke₂ : Text.poke (pre₁ ++ (value ++ CR :: zs)) (pre₁.length + value.length) 0 =
      some (pre₂ ++ zs) := Text.poke_word pre₁ value CR 0 zs
  change _ = behindValue turns h pre.length _ (pre₂ ++ zs) pre₂.length
  rw [headerLoop]
  dsimp only
  rw [List.drop_left, Text.skipTo_of_cut hname, if_neg (by simp), hpoke₁, Option.bind_eq_bind,
    Option.bind_some, ← hlen₁, List.drop_left, Text.skipTo_of_cut hvalue, if_neg (by simp), hpoke₂,
    Option.bind_some, ← hlen₂]
  rfl

/-- Behind the value, a line feed and the beginning of another line. -/
theorem behindValue_line (turns : ℕ) (h : HTTPHeader) (n v : ℕ) (pre : List UInt8)
    {zs : List UInt8} {line : Option (List UInt8)} (hline : blankLine zs = some line) :
    behindValue turns h n v (pre ++ LF :: zs) pre.length =
      if line.isSome then
        some (true, { h with
          headers := h.headers ++ [(n, v)]
          headerSize := ((pre ++ [LF]).length + 2) % 2 ^ 16 }, pre ++ [LF] ++ zs)
      else headerLoop turns { h with headers := h.headers ++ [(n, v)] } (pre ++ [LF] ++ zs)
        (pre ++ [LF]).length := by
  have hlen : (pre ++ [LF]).length = pre.length + 1 := by simp
  have hdata : pre ++ [LF] ++ zs = pre ++ LF :: zs := by simp
  have htwo : 2 ≤ zs.length := length_of_blankLine hline
  have hlf : (pre ++ LF :: zs)[pre.length]? = some LF := by simp
  have hroom : ¬ pre.length + 1 + 1 ≥ (pre ++ LF :: zs).length := by
    have happend : (pre ++ LF :: zs).length = pre.length + (zs.length + 1) := List.length_append
    omega
  have hblank : atBlankLine (pre ++ LF :: zs) (pre.length + 1) = some line.isSome := by
    have hsplit := atBlankLine_eq hline (pre ++ [LF])
    rwa [hdata, hlen] at hsplit
  rw [hlen, hdata, behindValue, if_neg (by simp), hlf, Option.bind_eq_bind, Option.bind_some,
    if_neg (by simp), if_neg hroom, hblank, Option.bind_eq_bind, Option.bind_some]
  rfl

/-- Behind the value, there is no complete line and the beginning of another. -/
theorem behindValue_stop {n v : ℕ} {zs : List UInt8}
    (hstop : ∀ tail line, lineFeed zs = some tail → blankLine tail ≠ some line) :
    ∃ h' data', behindValue turns h n v (pre ++ zs) pre.length = some (false, h', data') := by
  cases zs with
  | nil =>
      rw [behindValue, if_pos (by simp)]
      exact ⟨_, _, rfl⟩
  | cons b zs =>
      have hb : (pre ++ b :: zs)[pre.length]? = some b := by simp
      rw [behindValue, if_neg (by simp), hb, Option.bind_eq_bind, Option.bind_some]
      by_cases hlf : b = LF
      · -- the line is complete, so there is no room for another one behind it
        have hblank : zs.length ≤ 1 := by
          by_contra hlong
          obtain ⟨b0, b1, rest, rfl⟩ := Bytes.exists_two (show 2 ≤ zs.length by omega)
          exact hstop _ _ (if_pos hlf) rfl
        have hroom : pre.length + 1 + 1 ≥ (pre ++ b :: zs).length := by
          have happend : (pre ++ b :: zs).length = pre.length + (zs.length + 1) :=
            List.length_append
          omega
        rw [if_neg (not_not.2 hlf), if_pos hroom]
        exact ⟨_, _, rfl⟩
      · rw [if_pos hlf]
        exact ⟨_, _, rfl⟩

/-- A turn that finds a header. -/
theorem headerLoop_line (turns : ℕ) (h : HTTPHeader) (pre : List UInt8)
    {xs name ys value zs tail : List UInt8} {line : Option (List UInt8)}
    (hname : Text.cut COLON xs = some (name, ys))
    (hvalue : Text.cut CR (ys.drop 1) = some (value, zs)) (htail : lineFeed zs = some tail)
    (hline : blankLine tail = some line) :
    ∃ pre' v, headerLoop (turns + 1) h (pre ++ xs) pre.length =
        (if line.isSome then
          some (true, { h with
            headers := h.headers ++ [(pre.length, v)]
            headerSize := (pre'.length + 2) % 2 ^ 16 }, pre' ++ tail)
        else headerLoop turns { h with headers := h.headers ++ [(pre.length, v)] } (pre' ++ tail)
          pre'.length) ∧
      pre <+: pre' ∧ pre'.length + tail.length = pre.length + xs.length ∧
      Text.PointsTo pre' pre.length name ∧ Text.PointsTo pre' v value ∧
      v = pre.length + name.length + 1 + 1 := by
  obtain ⟨rfl, -⟩ := Text.cut_eq_some hname
  cases ys with
  | nil => cases hvalue
  | cons c ys =>
      have hcut : Text.cut CR ys = some (value, zs) := hvalue
      obtain ⟨rfl, -⟩ := Text.cut_eq_some hcut
      cases zs with
      | nil => cases htail
      | cons b zs =>
          obtain ⟨rfl, rfl⟩ : b = LF ∧ zs = tail := by
            simp only [lineFeed] at htail
            split at htail
            · rename_i hb
              exact ⟨hb, Option.some.inj htail⟩
            · cases htail
          let pre₂ := pre ++ name ++ [0, c] ++ value ++ [0]
          refine ⟨pre₂ ++ [LF], pre.length + name.length + 1 + 1, ?_, ?_, ?_, ?_, ?_, rfl⟩
          · rw [headerLoop_value turns h pre hname hcut]
            exact behindValue_line turns h _ _ pre₂ hline
          · exact ⟨name ++ [0, c] ++ value ++ [0] ++ [LF], by simp [pre₂]⟩
          · simp [pre₂]
            omega
          · exact ⟨pre, c :: (value ++ [0, LF]), by simp [pre₂], rfl⟩
          · refine ⟨pre ++ name ++ [0, c], [LF], by simp [pre₂], ?_⟩
            simp
            omega

/-- A turn that finds no header stays inside the data. -/
theorem headerLoop_stop (hstop : ∀ name ys value zs tail line, Text.cut COLON xs = some (name, ys) →
      Text.cut CR (ys.drop 1) = some (value, zs) → lineFeed zs = some tail →
      blankLine tail ≠ some line) :
    ∃ h' data', headerLoop (turns + 1) h (pre ++ xs) pre.length = some (false, h', data') := by
  cases hname : Text.cut COLON xs with
  | none =>
      rw [headerLoop]
      dsimp only
      rw [List.drop_left, Text.skipTo_of_cut_none hname, if_pos (by simp)]
      exact ⟨_, _, rfl⟩
  | some r =>
      obtain ⟨name, ys⟩ := r
      -- the byte behind the colon is skipped without being looked at
      cases hvalue : Text.cut CR (ys.drop 1) with
      | none =>
          obtain ⟨heq, -⟩ := Text.cut_eq_some hname
          have hlt : ¬ pre.length + name.length ≥ (pre ++ xs).length := by
            rw [heq]
            simp
          have hpoke : Text.poke (pre ++ xs) (pre.length + name.length) 0 =
              some (pre ++ name ++ 0 :: ys) := by
            rw [heq, ← List.append_assoc, ← List.length_append, Text.poke_append]
          have hdrop : (pre ++ name ++ 0 :: ys).drop (pre.length + name.length + 1 + 1) =
              ys.drop 1 := by
            rw [← List.length_append, Nat.add_assoc, ← List.drop_drop, List.drop_left]
            rfl
          have hlen := List.length_drop (i := 1) (l := ys)
          rw [headerLoop]
          dsimp only
          rw [List.drop_left, Text.skipTo_of_cut hname, if_neg hlt, hpoke, Option.bind_eq_bind,
            Option.bind_some, hdrop, Text.skipTo_of_cut_none hvalue, if_pos (by simp; omega)]
          exact ⟨_, _, rfl⟩
      | some r =>
          obtain ⟨value, zs⟩ := r
          obtain ⟨c, ys, rfl⟩ : ∃ c ys', ys = c :: ys' := by
            cases ys with
            | nil => cases hvalue
            | cons c ys => exact ⟨c, ys, rfl⟩
          rw [headerLoop_value turns h pre hname hvalue]
          exact behindValue_stop fun tail line htail => hstop name _ value zs tail line hname hvalue
            htail

end headerLoop

/-- **The loop over the headers** finds what is read, and leaves it in the data. -/
theorem headerLoop_some {turns : ℕ} : ∀ (h : HTTPHeader) (pre : List UInt8) {xs rest : List UInt8}
    {headers : List (List UInt8 × List UInt8)}, readHeaders turns xs = some (headers, rest) →
    ∃ pointers pre', headerLoop turns h (pre ++ xs) pre.length =
        some (true, { h with
          headers := h.headers ++ pointers
          headerSize := pre'.length % 2 ^ 16 }, pre' ++ rest) ∧
      pre <+: pre' ∧ pre'.length + rest.length = pre.length + xs.length ∧
      HoldsHeaders pre' pointers headers ∧
      ∀ orig : List UInt8, orig.length = pre.length →
        StandHeaders (orig ++ xs) pointers headers := by
  induction turns with
  | zero =>
      intro h pre xs rest headers hread
      obtain ⟨r, hskip, heq⟩ := Option.map_eq_some_iff.1 hread
      cases heq
      obtain ⟨before, rfl, hloop⟩ := endLoop_some hskip pre.length
      refine ⟨[], pre ++ (before ++ [CR, LF, CR, LF]), ?_, List.prefix_append _ _, ?_, .nil,
        fun _ _ => .nil⟩
      · rw [headerLoop, List.drop_left, hloop]
        simp [Nat.add_assoc]
      · simp
        omega
  | succ turns ih =>
      intro h pre xs rest headers hread
      obtain ⟨name, ys, value, zs, tail, line, hname, hvalue, htail, hline, hrest⟩ :=
        readHeaders_succ hread
      obtain ⟨pre₁, v, hloop, hpre, hlen, hpn, hpv, rfl⟩ :=
        headerLoop_line turns h pre hname hvalue htail hline
      have hstand : ∀ orig : List UInt8, orig.length = pre.length →
          Text.StandsAt (orig ++ xs) pre.length name ∧
            Text.StandsAt (orig ++ xs) (pre.length + name.length + 1 + 1) value := by
        intro orig horig
        rw [← horig]
        exact standsAt_line hname hvalue
      rw [hloop]
      rcases hrest with ⟨rfl, rfl⟩ | ⟨rfl, headers', hheaders, rfl⟩
      · -- the empty line is there
        obtain rfl := eq_of_blankLine hline
        refine ⟨[(pre.length, pre.length + name.length + 1 + 1)], pre₁ ++ [CR, LF], ?_,
          hpre.trans (List.prefix_append _ _), ?_,
          .cons ⟨hpn.append _, hpv.append _⟩ .nil, fun orig horig => .cons (hstand orig horig) .nil⟩
        · simp
        · rw [← hlen]
          simp
          omega
      · obtain ⟨pointers, pre', hloop', hpre', hlen', hholds, hstands⟩ :=
          ih { h with
            headers := h.headers ++ [(pre.length, pre.length + name.length + 1 + 1)] } pre₁ hheaders
        obtain ⟨more, rfl⟩ := hpre'
        refine ⟨(pre.length, pre.length + name.length + 1 + 1) :: pointers, pre₁ ++ more, ?_,
          hpre.trans (List.prefix_append _ _), hlen'.trans hlen,
          .cons ⟨hpn.append _, hpv.append _⟩ hholds, fun orig horig => ?_⟩
        · rw [hloop']
          simp
        · -- the lines that follow are where the part gone over ends
          obtain ⟨line', hline'⟩ : tail <:+ xs := (lineFeed_suffix htail).trans
            ((cut_suffix hvalue).trans ((List.drop_suffix 1 ys).trans (cut_suffix hname)))
          have hlen'' : (orig ++ line').length = pre₁.length := by
            have happend : (orig ++ line').length = orig.length + line'.length :=
              List.length_append
            have hxs : xs.length = line'.length + tail.length := by
              rw [← hline', List.length_append]
            omega
          refine .cons (hstand orig horig) ?_
          rw [← hline', ← List.append_assoc]
          exact hstands _ hlen''

/-- Where nothing is read, the loop over the headers says so, and has stayed inside the data. -/
theorem headerLoop_none {turns : ℕ} : ∀ {h : HTTPHeader} {pre xs : List UInt8},
    readHeaders turns xs = none →
    ∃ h' data', headerLoop turns h (pre ++ xs) pre.length = some (false, h', data') := by
  induction turns with
  | zero =>
      intro h pre xs hread
      have hloop := endLoop_none (Option.map_eq_none_iff.1 hread) pre.length
      refine ⟨h, pre ++ xs, ?_⟩
      rw [headerLoop, List.drop_left, hloop]
  | succ turns ih =>
      intro h pre xs hread
      by_cases hline : ∃ name ys value zs tail line, Text.cut COLON xs = some (name, ys) ∧
          Text.cut CR (ys.drop 1) = some (value, zs) ∧ lineFeed zs = some tail ∧
          blankLine tail = some line
      · obtain ⟨name, ys, value, zs, tail, line, hname, hvalue, htail, hline⟩ := hline
        simp only [readHeaders, hname, hvalue, htail, hline, Option.bind_eq_bind,
          Option.bind_some] at hread
        obtain ⟨pre₁, v, hloop, -⟩ :=
          headerLoop_line turns h pre hname hvalue htail hline
        rw [hloop]
        cases line with
        | some rest => cases hread
        | none =>
            cases hheaders : readHeaders turns tail with
            | none => exact ih hheaders
            | some r => rw [hheaders] at hread; cases hread
      · exact headerLoop_stop fun name ys value zs tail line hname hvalue htail hblank =>
          hline ⟨name, ys, value, zs, tail, line, hname, hvalue, htail, hblank⟩

/-! ### The parser -/

/-- The pieces of a message are in the memory, where the header says. -/
structure Holds (h : HTTPHeader) (mem : List UInt8) (m : Message) : Prop where
  first : ∃ p, h.first = some p ∧ Text.PointsTo mem p m.first
  second : ∃ p, h.second = some p ∧ Text.PointsTo mem p m.second
  headers : HoldsHeaders mem h.headers m.headers
  responseCode : h.responseCode = m.code
  headerSize : h.headerSize = m.size % 2 ^ 16

theorem Holds.append {h : HTTPHeader} {mem : List UInt8} {m : Message} (hm : h.Holds mem m)
    (ys : List UInt8) : h.Holds (mem ++ ys) m := by
  obtain ⟨⟨p, hp, hfirst⟩, ⟨q, hq, hsecond⟩, hheaders, hcode, hsize⟩ := hm
  exact ⟨⟨p, hp, hfirst.append ys⟩, ⟨q, hq, hsecond.append ys⟩, hheaders.append ys, hcode, hsize⟩

/-- The pieces of a message stand in the data, where the header says. -/
structure Marks (h : HTTPHeader) (data : List UInt8) (m : Message) : Prop where
  first : ∃ p, h.first = some p ∧ Text.StandsAt data p m.first
  second : ∃ p, h.second = some p ∧ Text.StandsAt data p m.second
  headers : StandHeaders data h.headers m.headers

/-- The loop over the second token does not go on after it. -/
theorem tokenLoop_space (zs : List UInt8) (second0 : UInt8) (i code : ℕ) :
    tokenLoop second0 (SPACE :: zs) i code = (true, i, code) := if_pos rfl

/-- The header when the parser has read the first line. -/
def afterLine (h : HTTPHeader) (second code : ℕ) : HTTPHeader :=
  { h with
    headers := []
    responseCode := code
    headerSize := 0
    first := some 0
    second := some second }

/-- What is done behind the second word, at the position `i`. -/
def behindWords (h : HTTPHeader) (data : List UInt8) (i : ℕ) : Option Parsed :=
  let i := Text.skipTo LF (data.drop i) i
  let i := i + 1
  if i + 1 ≥ data.length then some (false, h, data)
  else do
    if ← atBlankLine data i then
      return (true, { h with headerSize := (i + 2) % 2 ^ 16 }, data)
    headerLoop MAX_HEADERS h data i

/-- What is done behind the first word, at the position `i`. -/
def behindFirst (h : HTTPHeader) (data : List UInt8) (i : ℕ) : Option Parsed := do
  let h := { h with second := some i }
  let (ok, i, code) := tokenLoop (data.getD i 0) (data.drop i) i 0
  let h := { h with responseCode := code }
  if !ok then return (false, h, data)
  if i ≥ data.length then return (false, h, data)
  let data ← Text.poke data i 0
  behindWords h data (i + 1)

theorem parse_first (h : HTTPHeader) {data first ys : List UInt8}
    (hfirst : Text.cut SPACE data = some (first, ys)) :
    h.parse data = behindFirst
      { h with headers := [], responseCode := 0, headerSize := 0, first := some 0 }
      (first ++ [0] ++ ys) (first ++ [0]).length := by
  obtain ⟨rfl, -⟩ := Text.cut_eq_some hfirst
  have hpoke : Text.poke (first ++ SPACE :: ys) first.length 0 = some (first ++ [0] ++ ys) := by
    rw [Text.poke_append]
    simp
  have hlen : (first ++ [0]).length = first.length + 1 := by simp
  rw [hlen, parse]
  dsimp only
  rw [Text.skipTo_of_cut hfirst, Nat.zero_add, if_neg (by simp), hpoke]
  rfl

theorem getD_append_length (pre ys : List UInt8) :
    (pre ++ ys).getD pre.length 0 = ys.getD 0 0 := by
  rw [List.getD_append_right _ _ _ _ (Nat.le_refl _), Nat.sub_self]

/-- A second word that is found. -/
theorem behindFirst_word (h : HTTPHeader) (pre : List UInt8) {ys second zs : List UInt8} {code : ℕ}
    (hsecond : Text.cut SPACE ys = some (second, zs)) (hcode : codeOf second = some code) :
    behindFirst h (pre ++ ys) pre.length =
      behindWords { h with second := some pre.length, responseCode := code }
        (pre ++ second ++ [0] ++ zs) (pre ++ second ++ [0]).length := by
  obtain ⟨rfl, hspace⟩ := Text.cut_eq_some hsecond
  have htoken := tokenLoop_eq hspace (tokenLoop_space zs) pre.length
  simp only [hcode] at htoken
  have hlen : (pre ++ second ++ [0]).length = pre.length + second.length + 1 := by simp; omega
  have hpoke : Text.poke (pre ++ (second ++ SPACE :: zs)) (pre.length + second.length) 0 =
      some (pre ++ second ++ [0] ++ zs) := Text.poke_word pre second SPACE 0 zs
  rw [behindFirst, getD_append_length, List.drop_left, htoken, hlen]
  dsimp only
  rw [Bool.not_true, if_neg Bool.false_ne_true, if_neg (by simp), hpoke]
  rfl

/-- A second word that is not found. -/
theorem behindFirst_stop {h : HTTPHeader} {pre ys : List UInt8}
    (hstop : ∀ second zs code, Text.cut SPACE ys = some (second, zs) →
      codeOf second ≠ some code) :
    ∃ h' data', behindFirst h (pre ++ ys) pre.length = some (false, h', data') := by
  rw [behindFirst, getD_append_length, List.drop_left]
  dsimp only
  cases hsecond : Text.cut SPACE ys with
  | none =>
      -- the second word goes on up to the end of the data
      have htoken := tokenLoop_eq (Text.cut_eq_none hsecond) (b := []) (fun _ _ _ => rfl) pre.length
      rw [List.append_nil] at htoken
      cases hcode : codeOf ys with
      | none =>
          simp only [hcode] at htoken
          rw [htoken]
          exact ⟨_, _, rfl⟩
      | some code =>
          simp only [hcode] at htoken
          rw [htoken]
          dsimp only
          rw [Bool.not_true, if_neg Bool.false_ne_true, if_pos (by simp)]
          exact ⟨_, _, rfl⟩
  | some r =>
      obtain ⟨second, zs⟩ := r
      obtain ⟨rfl, hspace⟩ := Text.cut_eq_some hsecond
      have htoken := tokenLoop_eq hspace (tokenLoop_space zs) pre.length
      simp only [Option.eq_none_iff_forall_not_mem.2 fun code => hstop second zs code hsecond]
        at htoken
      rw [htoken]
      exact ⟨_, _, rfl⟩

/-- Behind the second word, the end of the line and the beginning of another. -/
theorem behindWords_line (h : HTTPHeader) (pre : List UInt8) {zs version tail : List UInt8}
    {line : Option (List UInt8)} (hversion : Text.cut LF zs = some (version, tail))
    (hline : blankLine tail = some line) :
    behindWords h (pre ++ zs) pre.length =
      if line.isSome then
        some (true, { h with headerSize := ((pre ++ version ++ [LF]).length + 2) % 2 ^ 16 },
          pre ++ version ++ [LF] ++ tail)
      else headerLoop MAX_HEADERS h (pre ++ version ++ [LF] ++ tail)
        (pre ++ version ++ [LF]).length := by
  obtain ⟨rfl, -⟩ := Text.cut_eq_some hversion
  have htwo : 2 ≤ tail.length := length_of_blankLine hline
  let pre₃ := pre ++ version ++ [LF]
  have hlen : pre₃.length = pre.length + version.length + 1 := by simp [pre₃]; omega
  have hdata : pre ++ (version ++ LF :: tail) = pre₃ ++ tail := by simp [pre₃]
  have hroom : ¬ pre₃.length + 1 ≥ (pre₃ ++ tail).length := by
    have happend : (pre₃ ++ tail).length = pre₃.length + tail.length := List.length_append
    omega
  rw [behindWords, List.drop_left, Text.skipTo_of_cut hversion, ← hlen, hdata, if_neg hroom,
    atBlankLine_eq hline, Option.bind_eq_bind, Option.bind_some]
  rfl

/-- Behind the second word, there is no end of a line and the beginning of another. -/
theorem behindWords_stop {h : HTTPHeader} {pre zs : List UInt8}
    (hstop : ∀ version tail line, Text.cut LF zs = some (version, tail) →
      blankLine tail ≠ some line) :
    ∃ h' data', behindWords h (pre ++ zs) pre.length = some (false, h', data') := by
  have happend : (pre ++ zs).length = pre.length + zs.length := List.length_append
  have hroom : Text.skipTo LF zs pre.length + 1 + 1 ≥ (pre ++ zs).length := by
    cases hversion : Text.cut LF zs with
    | none =>
        rw [Text.skipTo_of_cut_none hversion]
        omega
    | some r =>
        obtain ⟨version, tail⟩ := r
        have hshort : tail.length ≤ 1 := by
          by_contra hlong
          obtain ⟨b0, b1, rest, rfl⟩ := Bytes.exists_two (show 2 ≤ tail.length by omega)
          exact hstop _ _ _ hversion rfl
        have hlen := congrArg List.length (Text.cut_eq_some hversion).1
        rw [List.length_append, List.length_cons] at hlen
        rw [Text.skipTo_of_cut hversion]
        omega
  rw [behindWords, List.drop_left, if_pos hroom]
  exact ⟨_, _, rfl⟩

/-- A first line that is found. -/
theorem parse_line (h : HTTPHeader) {data first ys second zs version tail : List UInt8}
    {line : Option (List UInt8)} {code : ℕ} (hfirst : Text.cut SPACE data = some (first, ys))
    (hsecond : Text.cut SPACE ys = some (second, zs)) (hcode : codeOf second = some code)
    (hversion : Text.cut LF zs = some (version, tail)) (hline : blankLine tail = some line) :
    ∃ pre p, h.parse data =
        (if line.isSome then
          some (true, { h.afterLine p code with headerSize := (pre.length + 2) % 2 ^ 16 },
            pre ++ tail)
        else headerLoop MAX_HEADERS (h.afterLine p code) (pre ++ tail) pre.length) ∧
      pre.length + tail.length = data.length ∧
      Text.PointsTo pre 0 first ∧ Text.PointsTo pre p second ∧ p = first.length + 1 := by
  -- what has been passed, with a zero byte behind each of the first two words
  let pre₁ := first ++ [0]
  let pre₂ := pre₁ ++ second ++ [0]
  let pre₃ := pre₂ ++ version ++ [LF]
  have hlen₁ : pre₁.length = first.length + 1 := by simp [pre₁]
  refine ⟨pre₃, pre₁.length, ?_, ?_, ⟨[], second ++ [0] ++ version ++ [LF], ?_, rfl⟩,
    ⟨pre₁, version ++ [LF], ?_, rfl⟩, hlen₁⟩
  · rw [parse_first h hfirst, behindFirst_word _ pre₁ hsecond hcode]
    exact behindWords_line _ pre₂ hversion hline
  · obtain ⟨rfl, -⟩ := Text.cut_eq_some hfirst
    obtain ⟨rfl, -⟩ := Text.cut_eq_some hsecond
    obtain ⟨rfl, -⟩ := Text.cut_eq_some hversion
    simp [pre₃, pre₂, pre₁]
    omega
  · simp [pre₃, pre₂, pre₁]
  · simp [pre₃, pre₂]

/-- A first line that is not found. -/
theorem parse_stop (h : HTTPHeader) {data : List UInt8}
    (hstop : ∀ first ys second zs version tail line code, Text.cut SPACE data = some (first, ys) →
      Text.cut SPACE ys = some (second, zs) → codeOf second = some code →
      Text.cut LF zs = some (version, tail) → blankLine tail ≠ some line) :
    ∃ h' data', h.parse data = some (false, h', data') := by
  cases hfirst : Text.cut SPACE data with
  | none =>
      rw [parse]
      dsimp only
      rw [Text.skipTo_of_cut_none hfirst, if_pos (by simp)]
      exact ⟨_, _, rfl⟩
  | some r =>
      obtain ⟨first, ys⟩ := r
      rw [parse_first h hfirst]
      by_cases hword : ∃ second zs code, Text.cut SPACE ys = some (second, zs) ∧
          codeOf second = some code
      · obtain ⟨second, zs, code, hsecond, hcode⟩ := hword
        rw [behindFirst_word _ (first ++ [0]) hsecond hcode]
        exact behindWords_stop fun version tail line hversion =>
          hstop _ _ _ _ _ _ _ _ hfirst hsecond hcode hversion
      · exact behindFirst_stop fun second zs code hsecond hcode =>
          hword ⟨second, zs, code, hsecond, hcode⟩

/-- **What is read is found**, and left in the part of the data that the message has taken. -/
theorem parse_some (h : HTTPHeader) {data : List UInt8} {m : Message}
    (hread : readMessage data = some m) :
    ∃ h' mem, h.parse data = some (true, h', mem ++ data.drop m.size) ∧ mem.length = m.size ∧
      h'.Holds mem m ∧ h'.Marks data m := by
  obtain ⟨ys, zs, version, tail, line, rest, hfirst, hsecond, hcode, hversion, hline, hsize,
    hrest⟩ := readMessage_some hread
  obtain ⟨pre, p, hparse, hlen, hp₁, hp₂, rfl⟩ :=
    parse_line h hfirst hsecond hcode hversion hline
  have hstand₁ : Text.StandsAt data 0 m.first := by
    obtain ⟨rfl, -⟩ := Text.cut_eq_some hfirst
    exact ⟨[], SPACE, ys, rfl, rfl, by decide⟩
  have hstand₂ : Text.StandsAt data (m.first.length + 1) m.second := by
    obtain ⟨rfl, -⟩ := Text.cut_eq_some hfirst
    obtain ⟨rfl, -⟩ := Text.cut_eq_some hsecond
    exact ⟨m.first ++ [SPACE], SPACE, zs, by simp, by simp, by decide⟩
  have htail : tail <:+ data :=
    (cut_suffix hversion).trans ((cut_suffix hsecond).trans (cut_suffix hfirst))
  -- what is left of the data is what follows the message
  have hleft : ∀ mem : List UInt8, mem.length + rest.length = data.length → rest <:+ data →
      mem.length = m.size ∧ data.drop m.size = rest := by
    intro mem hmem hsuf
    obtain ⟨before, rfl⟩ := hsuf
    rw [List.length_append] at hmem hsize
    refine ⟨by omega, ?_⟩
    rw [hsize, Nat.add_sub_cancel, List.drop_left]
  rw [hparse]
  rcases hrest with ⟨rfl, hnil⟩ | ⟨rfl, hheaders⟩
  · obtain rfl := eq_of_blankLine hline
    obtain ⟨hmem, hdrop⟩ := hleft (pre ++ [CR, LF])
      (by rw [← hlen]; simp; omega) ((blankLine_suffix hline).trans htail)
    refine ⟨{ h.afterLine (m.first.length + 1) m.code with
        headerSize := (pre.length + 2) % 2 ^ 16 }, pre ++ [CR, LF], ?_, hmem,
      ⟨⟨0, rfl, hp₁.append _⟩, ⟨_, rfl, hp₂.append _⟩, ?_, rfl, ?_⟩,
      ⟨⟨0, rfl, hstand₁⟩, ⟨_, rfl, hstand₂⟩, ?_⟩⟩
    · rw [hdrop]
      simp
    · rw [hnil]
      exact .nil
    · rw [← hmem, List.length_append]
      rfl
    · rw [hnil]
      exact .nil
  · obtain ⟨pointers, mem, hloop, hpre, hlen', hholds, hstands⟩ :=
      headerLoop_some (h.afterLine (m.first.length + 1) m.code) pre hheaders
    obtain ⟨hmem, hdrop⟩ := hleft mem (hlen'.trans hlen) ((readHeaders_suffix hheaders).trans htail)
    obtain ⟨more, rfl⟩ := hpre
    refine ⟨_, pre ++ more, by rw [hdrop]; exact hloop, hmem,
      ⟨⟨0, rfl, hp₁.append more⟩, ⟨_, rfl, hp₂.append more⟩, hholds, rfl, by rw [← hmem]⟩,
      ⟨⟨0, rfl, hstand₁⟩, ⟨_, rfl, hstand₂⟩, ?_⟩⟩
    obtain ⟨before, hbefore⟩ := htail
    rw [← hbefore]
    refine hstands before ?_
    have hdata : data.length = before.length + tail.length := by
      rw [← hbefore, List.length_append]
    omega

/-- **Where nothing is read, the parser says so**; it has stayed inside its data all the same. -/
theorem parse_none (h : HTTPHeader) {data : List UInt8} (hread : readMessage data = none) :
    ∃ h' data', h.parse data = some (false, h', data') := by
  by_cases hline : ∃ first ys second zs version tail line code,
      Text.cut SPACE data = some (first, ys) ∧ Text.cut SPACE ys = some (second, zs) ∧
      codeOf second = some code ∧ Text.cut LF zs = some (version, tail) ∧
      blankLine tail = some line
  · obtain ⟨first, ys, second, zs, version, tail, line, code, hfirst, hsecond, hcode, hversion,
      hline⟩ := hline
    obtain ⟨pre, p, hparse, -⟩ := parse_line h hfirst hsecond hcode hversion hline
    simp only [readMessage, hfirst, hsecond, hcode, hversion, hline, Option.bind_eq_bind,
      Option.bind_some] at hread
    rw [hparse]
    cases line with
    | some rest => cases hread
    | none =>
        cases hheaders : readHeaders MAX_HEADERS tail with
        | none => exact headerLoop_none hheaders
        | some r => rw [hheaders] at hread; cases hread
  · exact parse_stop h fun first ys second zs version tail line code h₁ h₂ h₃ h₄ h₅ =>
      hline ⟨first, ys, second, zs, version, tail, line, code, h₁, h₂, h₃, h₄, h₅⟩

end HTTPHeader

end Http
