/-
**Where a cut shows.**

A stream may reach `on_recv` in any pieces.  What the handler makes of it depends on the pieces
only through packets that are acted upon later than they end: a cut between the end of such a
packet and the bytes that are needed for it is noticed, as more bytes than the packet has are in
the buffer already.  `Mqtt.Defect` says that a stream has such a packet, and that the rest of the
stream does not make up for the difference.

Main definitions:

* `Mqtt.SilentlyRefused`, `Mqtt.Defect` — the streams for which the pieces matter;
* `Mqtt.CutsAgree` — any two ways of cutting a stream give the same.

Main results:

* `Mqtt.fed_of_not_defect` — **without a defect every cut gives what the uncut stream gives**;
* `Mqtt.defect_shows` — with a defect there is a cut that shows;
* `Mqtt.cutsAgree_iff` — exactly the streams without a defect are read independently of the cuts.
-/

import PicoHttps.Mqtt.Recv

set_option relaxedAutoImplicit false
set_option autoImplicit false

namespace Mqtt

/-! ### Streams for which the cuts matter -/

/-- An uncut stream that is refused before any call is made. -/
inductive SilentlyRefused : List UInt8 → Prop
  | refused {S : List UInt8} : head S = .refused → SilentlyRefused S
  | skip {S : List UInt8} {need size : ℕ} : head S = .packet none need size → 0 < size →
      SilentlyRefused (S.drop size) → SilentlyRefused S

/-- A stream has, among its packets, one that ends more than a byte before the bytes that are
needed for it; unless the packet causes no call and the rest of the stream is refused anyway. -/
inductive Defect : List UInt8 → Prop
  | here {S : List UInt8} {call : Option UpstreamCall} {need size : ℕ} :
      head S = .packet call need size → size + 1 < need →
      ¬ (call = none ∧ 0 < size ∧ SilentlyRefused (S.drop size)) → Defect S
  | packet {S : List UInt8} {call : Option UpstreamCall} {need size : ℕ} :
      head S = .packet call need size → 0 < size → Defect (S.drop size) → Defect S
  | publish {S topic : List UInt8} {messageId size n : ℕ} :
      head S = .publish topic messageId size n → Defect (S.drop (size + n)) → Defect S

/-- A stream with a defect starts with a packet that is acted upon. -/
theorem Defect.acted {S : List UInt8} (h : Defect S) : head S ≠ .more ∧ head S ≠ .refused := by
  cases h with
  | here hhead => rw [hhead]; exact ⟨nofun, nofun⟩
  | packet hhead => rw [hhead]; exact ⟨nofun, nofun⟩
  | publish hhead => rw [hhead]; exact ⟨nofun, nofun⟩

theorem not_defect_nil : ¬ Defect [] := fun h => h.acted.1 rfl

theorem SilentlyRefused.not_defect {S : List UInt8} (h : SilentlyRefused S) : ¬ Defect S := by
  induction h with
  | refused hhead => exact fun hd => hd.acted.2 hhead
  | skip hhead hsize hrest ih =>
      intro hd
      cases hd with
      | here h' _ hno =>
          rw [hhead] at h'
          cases h'
          exact hno ⟨rfl, hsize, hrest⟩
      | packet h' _ hd' =>
          rw [hhead] at h'
          cases h'
          exact ih hd'
      | publish h' => rw [hhead] at h'; cases h'

/-! ### Turns of the uncut stream -/

section turns

variable {S : List UInt8}

theorem ne_nil_of_head (h : head S ≠ .more) : S ≠ [] := by
  rintro rfl
  exact h rfl

theorem Pending.eq_empty {B : Pending} (h : B.bytes = []) : B = .empty := by
  cases B
  subst h
  rfl

/-- A stream that ends in a packet is kept. -/
theorem read_more (B : Pending) : Read .start B.bytes [] (some (.buffering B)) := by
  by_cases hB : B.bytes = []
  · rw [hB, Pending.eq_empty hB]
    exact .leave (readTurn_nil _)
  · exact .turn (readTurn_more (B := .empty) hB B.more) (.leave (readTurn_nil _))

theorem read_refused (h : head S = .refused) : Read .start S [] none :=
  .leave (readTurn_refused (B := .empty) (ne_nil_of_head (by rw [h]; nofun)) h)

theorem read_publish {topic : List UInt8} {messageId size n : ℕ}
    (h : head S = .publish topic messageId size n) {calls : List UpstreamCall} {out : Option St} :
    Read .start S calls out ↔ ∃ calls', calls = [.onPublishHeader topic messageId n] ++ calls' ∧
      Read (.payload n) (S.drop size) calls' out :=
  While.exec_turn_iff (readTurn_publish (B := .empty) (ne_nil_of_head (by rw [h]; nofun)) h)

theorem read_packet {call : Option UpstreamCall} {need size : ℕ}
    (h : head S = .packet call need size) {calls : List UpstreamCall} {out : Option St} :
    Read .start S calls out ↔ ∃ calls', calls = call.toList ++ calls' ∧
      Read .start (S.drop size) calls' out := by
  refine While.exec_turn_iff ?_
  rw [readTurn_packet (B := .empty) (ne_nil_of_head (by rw [h]; nofun)) h, if_neg (by simp)]
  rfl

/-- **Induction over the packets of an uncut stream**, up to the first PUBLISH. -/
theorem read_start_induction {motive : List UInt8 → List UpstreamCall → Option St → Prop}
    (more : ∀ B : Pending, motive B.bytes [] (some (.buffering B)))
    (refused : ∀ S, head S = .refused → motive S [] none)
    (publish : ∀ S topic messageId size n calls out, head S = .publish topic messageId size n →
      Read (.payload n) (S.drop size) calls out →
        motive S (.onPublishHeader topic messageId n :: calls) out)
    (packet : ∀ S call need size calls out, head S = .packet call need size →
      Read .start (S.drop size) calls out → motive (S.drop size) calls out →
        motive S (call.toList ++ calls) out)
    {calls : List UpstreamCall} {out : Option St} (h : Read .start S calls out) :
    motive S calls out := by
  rw [Read] at h
  generalize hs : (St.start, S) = s at h
  induction h generalizing S with
  | leave hb =>
      subst hs
      cases turned hb with
      | nil => exact more .empty
      | refused hS hhead => exact refused S hhead
      | back hS hhead hback => exact absurd hback (Nat.not_lt_zero _)
  | turn hb he ih =>
      subst hs
      cases turned hb with
      | more hS hhead =>
          obtain ⟨rfl, rfl⟩ := read_det he (.leave (readTurn_nil _))
          exact more ⟨S, hhead⟩
      | publish hS hhead => exact publish S _ _ _ _ _ _ hhead he
      | packet hS hhead hon => exact packet S _ _ _ _ _ hhead he (ih rfl)

/-- A payload that is complete, and followed by or made of at least one byte. -/
theorem read_payload_full {n : ℕ} (hS : S ≠ []) (h : n ≤ S.length) {calls : List UpstreamCall}
    {out : Option St} :
    Read (.payload n) S calls out ↔ ∃ calls', calls = [.onPublishData (S.take n) true] ++ calls' ∧
      Read .start (S.drop n) calls' out := by
  refine While.exec_turn_iff ?_
  rw [readTurn_payload hS, if_neg (by omega)]

/-- A payload that is not complete. -/
theorem read_payload_part {n : ℕ} (hS : S ≠ []) (h : S.length < n) :
    Read (.payload n) S [.onPublishData S false] (some (.payload (n - S.length))) := by
  have hturn := readTurn_payload hS n
  rw [if_pos h] at hturn
  exact .turn hturn (.leave (readTurn_nil _))

/-- Data that arrives in two pieces inside a payload. -/
theorem read_payload_append {c : List UInt8} {n : ℕ} (hc : c ≠ []) (h : c.length < n)
    {calls : List UpstreamCall} {out : Option St}
    (hread : Read (.payload (n - c.length)) S calls out) :
    ∃ calls', Read (.payload n) (c ++ S) calls' out ∧
      gather calls' = gather (.onPublishData c false :: calls) := by
  by_cases hS : S = []
  · subst hS
    obtain ⟨rfl, rfl⟩ := read_det hread (.leave (readTurn_nil _))
    rw [List.append_nil]
    exact ⟨_, read_payload_part hc h, rfl⟩
  · have hcS : c ++ S ≠ [] := by simp [hc]
    have hlen : (c ++ S).length = c.length + S.length := List.length_append
    rcases Nat.lt_or_ge S.length (n - c.length) with hlt | hge
    · obtain ⟨rfl, rfl⟩ := read_det hread (read_payload_part hS hlt)
      refine ⟨[.onPublishData (c ++ S) false], ?_, rfl⟩
      have := read_payload_part hcS (n := n) (by omega)
      rwa [hlen, ← Nat.sub_sub] at this
    · obtain ⟨calls', rfl, hrest⟩ := (read_payload_full hS hge).1 hread
      refine ⟨_, (read_payload_full hcS (by omega)).2 ⟨calls', rfl, ?_⟩, ?_⟩
      · rwa [List.drop_append, List.drop_eq_nil_of_le (by omega), List.nil_append]
      · rw [List.take_append, List.take_of_length_le (by omega)]
        exact (join_join _ _ false true _).symm

end turns

/-! ### Without a defect -/

/-- A turn of the reader in a chunk. -/
theorem fed_turn {st st' : St} {c c' : List UInt8} {es : List UpstreamCall}
    (hturn : readTurn (st, c) = (es, .inl (st', c'))) {cs : List (List UInt8)}
    {calls : List UpstreamCall} {out : Option St} (h : Chunk.Fed Read st' (c' :: cs) calls out) :
    Chunk.Fed Read st (c :: cs) (es ++ calls) out := by
  cases h with
  | stop hc => exact .stop (.turn hturn hc)
  | go hc hcs =>
      rw [← List.append_assoc]
      exact .go (.turn hturn hc) hcs

/-- An empty chunk changes nothing. -/
theorem fed_nil_chunk {st : St} {cs : List (List UInt8)} {calls : List UpstreamCall}
    {out : Option St} (h : Chunk.Fed Read st cs calls out) :
    Chunk.Fed Read st ([] :: cs) calls out :=
  show Chunk.Fed Read st ([] :: cs) ([] ++ calls) out from .go (.leave (readTurn_nil st)) h

/-- Reading, uncut, the bytes of a state and those that follow. -/
def Uncut : St → List UInt8 → List UpstreamCall → Option St → Prop
  | .buffering B, x => Read .start (B.bytes ++ x)
  | .payload n, x => Read (.payload n) x

/-- The bytes of a state and those that follow have a defect. -/
def DefectFrom : St → List UInt8 → Prop
  | .buffering B, x => Defect (B.bytes ++ x)
  | .payload n, x => Defect (x.drop n)

/-- What a turn, or the end of a chunk, makes smaller. -/
def ahead : St → List (List UInt8) → ℕ
  | .buffering B, cs => 2 * (B.bytes.length + cs.flatten.length) + cs.length
  | .payload _, cs => 2 * cs.flatten.length + 1 + cs.length

/-- The uncut stream and the chunks give the same. -/
def SameAs (st : St) (cs : List (List UInt8)) : Prop :=
  ∃ calls calls' out, Uncut st cs.flatten calls out ∧ Chunk.Fed Read st cs calls' out ∧
    gather calls = gather calls'

/-- A turn that the uncut stream takes as well. -/
theorem SameAs.turn {st st' : St} {c c' : List UInt8} {cs : List (List UInt8)}
    {es : List UpstreamCall} (hturn : readTurn (st, c) = (es, .inl (st', c')))
    (huncut : ∀ calls out, Uncut st' (c' :: cs).flatten calls out →
      Uncut st (c :: cs).flatten (es ++ calls) out)
    (h : SameAs st' (c' :: cs)) : SameAs st (c :: cs) := by
  obtain ⟨calls, calls', out, hun, hfed, hsame⟩ := h
  exact ⟨_, _, out, huncut calls out hun, fed_turn hturn hfed,
    gather_congr.append (a := es) rfl hsame⟩

theorem sameAs_nil (st : St) : SameAs st [] := by
  refine ⟨[], [], some st, ?_, .nil st, rfl⟩
  cases st with
  | buffering B =>
      rw [Uncut, List.flatten_nil, List.append_nil]
      exact read_more B
  | payload n => exact .leave (readTurn_nil _)

theorem SameAs.nil_chunk {st : St} {cs : List (List UInt8)} (h : SameAs st cs) :
    SameAs st ([] :: cs) := by
  obtain ⟨calls, calls', out, hun, hfed, hsame⟩ := h
  exact ⟨calls, calls', out, hun, fed_nil_chunk hfed, hsame⟩

theorem silentlyRefused_read {S : List UInt8} (h : SilentlyRefused S) : Read .start S [] none := by
  induction h with
  | refused hhead => exact read_refused hhead
  | skip hhead _ _ ih => exact (read_packet hhead).2 ⟨[], rfl, ih⟩

/-- A payload in chunks. -/
theorem sameAs_payload {n : ℕ} {c : List UInt8} {cs : List (List UInt8)} (hc : c ≠ [])
    (hd : ¬ DefectFrom (.payload n) (c :: cs).flatten)
    (ih : ∀ st' cs', ahead st' cs' < ahead (.payload n) (c :: cs) →
      ¬ DefectFrom st' cs'.flatten → SameAs st' cs') : SameAs (.payload n) (c :: cs) := by
  have hpos := List.length_pos_of_ne_nil hc
  have hturn := readTurn_payload hc n
  have hflat : (c :: cs).flatten = c ++ cs.flatten := rfl
  by_cases hlt : c.length < n
  · rw [if_pos hlt] at hturn
    have hd' : ¬ DefectFrom (.payload (n - c.length)) cs.flatten := by
      rwa [DefectFrom, hflat, List.drop_append, List.drop_eq_nil_of_le (by omega),
        List.nil_append] at hd
    obtain ⟨calls, calls', out, hun, hfed, hsame⟩ :=
      ih (.payload (n - c.length)) cs (by simp [ahead]; omega) hd'
    obtain ⟨calls'', hun', hsame'⟩ := read_payload_append hc hlt hun
    refine ⟨calls'', _, out, hun', fed_turn hturn (fed_nil_chunk hfed), ?_⟩
    rw [hsame', gather_cons, hsame]
    rfl
  · rw [if_neg hlt] at hturn
    have hsplit : (c.drop n :: cs).flatten = (c :: cs).flatten.drop n := by
      rw [hflat, List.drop_append_of_le_length (by omega)]
      rfl
    have htake : c.take n = (c :: cs).flatten.take n := by
      rw [hflat, List.take_append_of_le_length (by omega)]
    refine SameAs.turn hturn (fun calls out hun => ?_) (ih _ _ ?_ ?_)
    · refine (read_payload_full (by simp [hc]) (by simp; omega)).2 ⟨calls, by rw [htake], ?_⟩
      rwa [← hsplit]
    · have hdrop : (c.drop n).length = c.length - n := List.length_drop
      simp only [ahead, Pending.bytes_empty, List.length_nil, List.flatten_cons,
        List.length_append, List.length_cons, hdrop]
      omega
    · rwa [DefectFrom, Pending.bytes_empty, List.nil_append, hsplit]

/-- The bytes of a packet in chunks. -/
theorem sameAs_buffering {B : Pending} {c : List UInt8} {cs : List (List UInt8)} (hc : c ≠ [])
    (hd : ¬ DefectFrom (.buffering B) (c :: cs).flatten)
    (ih : ∀ st' cs', ahead st' cs' < ahead (.buffering B) (c :: cs) →
      ¬ DefectFrom st' cs'.flatten → SameAs st' cs') : SameAs (.buffering B) (c :: cs) := by
  have hpos := List.length_pos_of_ne_nil hc
  have hflat : B.bytes ++ (c :: cs).flatten = (B.bytes ++ c) ++ cs.flatten := by simp
  have hlen : (B.bytes ++ c).length = B.bytes.length + c.length := List.length_append
  rw [DefectFrom, hflat] at hd
  by_cases hmore : head (B.bytes ++ c) = .more
  · -- the chunk only adds to the bytes of the packet
    have hd' : ¬ DefectFrom (.buffering ⟨B.bytes ++ c, hmore⟩) cs.flatten := hd
    obtain ⟨calls, calls', out, hun, hfed, hsame⟩ :=
      ih (.buffering ⟨B.bytes ++ c, hmore⟩) cs (by simp [ahead]; omega) hd'
    refine ⟨calls, calls', out, ?_, ?_, hsame⟩
    · rw [Uncut, hflat]
      exact hun
    · exact fed_turn (readTurn_more hc hmore) (fed_nil_chunk hfed)
  · have hwhole : head (B.bytes ++ (c :: cs).flatten) = head (B.bytes ++ c) := by
      rw [hflat, head_append hmore]
    cases hhead : head (B.bytes ++ c) with
    | more => exact absurd hhead hmore
    | refused =>
        rw [hhead] at hwhole
        exact ⟨[], [], none, read_refused hwhole,
          .stop (.leave (readTurn_refused hc hhead)), rfl⟩
    | publish topic messageId size n =>
        rw [hhead] at hwhole
        obtain ⟨hmin, hle⟩ := publish_size hhead
        have hsplit : ((B.bytes ++ c).drop size :: cs).flatten =
            (B.bytes ++ (c :: cs).flatten).drop size := by
          rw [hflat, List.drop_append_of_le_length hle]
          rfl
        refine SameAs.turn (readTurn_publish hc hhead) (fun calls out hun => ?_) (ih _ _ ?_ ?_)
        · refine (read_publish hwhole).2 ⟨calls, rfl, ?_⟩
          rwa [← hsplit]
        · simp [ahead]
          omega
        · rw [DefectFrom, hsplit, List.drop_drop]
          exact fun h => hd (.publish (hflat ▸ hwhole) (hflat ▸ h))
    | packet call need size =>
        rw [hhead] at hwhole
        have hturn := readTurn_packet hc hhead
        obtain ⟨hmin, hle, -, htwo⟩ := packet_size hhead
        have hlt : B.bytes.length < need := by
          have := (head_need B.bytes c (by rw [hhead]; nofun)).2.2 B.more
          rw [hhead, Nat.zero_add] at this
          exact this
        by_cases hback : size < B.bytes.length
        · -- the cut shows, but the uncut stream is refused as well
          have hall : call = none ∧ 0 < size ∧
              SilentlyRefused ((B.bytes ++ (c :: cs).flatten).drop size) := by
            by_contra hno
            exact hd (.here (hflat ▸ hwhole) (by omega) (hflat ▸ hno))
          obtain ⟨rfl, hsize, hrest⟩ := hall
          rw [if_pos hback] at hturn
          exact ⟨[], [], none, silentlyRefused_read (.skip hwhole hsize hrest),
            .stop (.leave hturn), rfl⟩
        · have hsize : 0 < size := by
            by_contra hzero
            exact hd (.here (hflat ▸ hwhole) (by omega) fun hall => hzero hall.2.1)
          have hsplit : ((B.bytes ++ c).drop size :: cs).flatten =
              (B.bytes ++ (c :: cs).flatten).drop size := by
            rw [hflat, List.drop_append_of_le_length (hmin.trans hle)]
            rfl
          rw [if_neg hback] at hturn
          refine SameAs.turn hturn (fun calls out hun => ?_) (ih _ _ ?_ ?_)
          · refine (read_packet hwhole).2 ⟨calls, rfl, ?_⟩
            rwa [← hsplit]
          · simp [ahead]
            omega
          · rw [DefectFrom, Pending.bytes_empty, List.nil_append, hsplit]
            exact fun h => hd (.packet (hflat ▸ hwhole) hsize (hflat ▸ h))

/-- **Without a defect every cut gives what the uncut stream gives**, from any state. -/
theorem sameAs_of_not_defect (m : ℕ) : ∀ st cs, ahead st cs = m → ¬ DefectFrom st cs.flatten →
    SameAs st cs := by
  induction m using Nat.strong_induction_on with
  | _ m ih =>
      intro st cs hm hd
      subst hm
      match cs with
      | [] => exact sameAs_nil st
      | c :: cs =>
          by_cases hc : c = []
          · subst hc
            refine SameAs.nil_chunk (ih _ ?_ st cs rfl hd)
            cases st <;> simp [ahead]
          · cases st with
            | buffering B => exact sameAs_buffering hc hd fun st' cs' hlt => ih _ hlt st' cs' rfl
            | payload n => exact sameAs_payload hc hd fun st' cs' hlt => ih _ hlt st' cs' rfl

/-- **Without a defect every cut gives what the uncut stream gives.** -/
theorem fed_of_not_defect {S : List UInt8} (h : ¬ Defect S) : ∃ calls out,
    Read .start S calls out ∧ ∀ cs : List (List UInt8), cs.flatten = S →
      ∃ calls', Chunk.Fed Read .start cs calls' out ∧ gather calls = gather calls' := by
  obtain ⟨calls, -, out, hread, -, -⟩ :=
    sameAs_of_not_defect _ .start [S] rfl (by simpa [DefectFrom])
  have hread : Read .start S calls out := by simpa [Uncut] using hread
  refine ⟨calls, out, hread, ?_⟩
  rintro cs rfl
  obtain ⟨calls₁, calls', out', hun, hfed, hsame⟩ := sameAs_of_not_defect _ .start cs rfl h
  obtain ⟨rfl, rfl⟩ := read_det hread hun
  exact ⟨calls', hfed, hsame⟩

/-! ### With a defect -/

/-- Whether a call is not one of `on_publish_data`. -/
def UpstreamCall.isHead : UpstreamCall → Bool
  | .onPublishData _ _ => false
  | _ => true

/-- The calls other than those of `on_publish_data`. -/
def heads (calls : List UpstreamCall) : List UpstreamCall := calls.filter UpstreamCall.isHead

theorem heads_append (a b : List UpstreamCall) : heads (a ++ b) = heads a ++ heads b :=
  List.filter_append ..

theorem heads_gather (calls : List UpstreamCall) : heads (gather calls) = heads calls := by
  induction calls with
  | nil => rfl
  | cons call calls ih =>
      have hcons : heads (call :: calls) = heads [call] ++ heads calls :=
        heads_append [call] calls
      rw [hcons, ← ih, gather_cons]
      generalize gather calls = g
      cases call with
      | onPublishData =>
          cases g with
          | nil => rfl
          | cons call' g => cases call' <;> rfl
      | _ => rfl

theorem isHead_callOf {b0 : UInt8} {body : List UInt8} {call : UpstreamCall}
    (h : callOf b0 body = some call) : call.isHead = true := by
  unfold callOf at h
  repeat' split at h
  all_goals first | (cases h; rfl) | cases h

/-- A packet does not cause a call of `on_publish_data`. -/
theorem isHead_of_packet {S : List UInt8} {call : UpstreamCall} {need size : ℕ}
    (h : head S = .packet (some call) need size) : call.isHead = true := by
  obtain ⟨b0, f, body, rfl, -, hhead⟩ := head_eq (by rw [h]; nofun)
  rw [hhead, bodyHead] at h
  split at h
  · exact absurd h publishHead_ne_packet
  · obtain ⟨-, -, -, -, hcall⟩ := packetHead_eq h
    exact isHead_callOf hcall.symm

/-- An uncut stream that is refused without a call other than `on_publish_data` is refused
without any call. -/
theorem silentlyRefused_of_read {S : List UInt8} {calls : List UpstreamCall}
    (h : Read .start S calls none) (hcalls : heads calls = []) : SilentlyRefused S := by
  refine read_start_induction
    (motive := fun S calls out => out = none → heads calls = [] → SilentlyRefused S)
    (fun B hout => ?_) (fun S hhead _ _ => .refused hhead)
    (fun S topic messageId size n calls out hhead _ _ hcalls => ?_)
    (fun S call need size calls out hhead _ ih hout hcalls => ?_) h rfl hcalls
  · cases hout
  · simp [heads, UpstreamCall.isHead] at hcalls
  · rw [heads_append, List.append_eq_nil_iff] at hcalls
    have hrest := ih hout hcalls.2
    cases call with
    | some call => simp [heads, isHead_of_packet hhead] at hcalls
    | none =>
        rcases Nat.eq_zero_or_pos size with rfl | hpos
        · exact hrest
        · exact .skip hhead hpos hrest

/-- The stream, cut in two, is refused with certain calls; uncut, it is not refused with the
same. -/
def Shows (S : List UInt8) : Prop :=
  ∃ c₁ c₂ calls₁, c₁ ≠ [] ∧ c₂ ≠ [] ∧ c₁ ++ c₂ = S ∧
    Chunk.Fed Read .start [c₁, c₂] calls₁ none ∧
    ∀ calls, Read .start S calls none → heads calls ≠ heads calls₁

/-- A cut between the end of a packet and the bytes that are needed for it shows. -/
theorem shows_here {S : List UInt8} {call : Option UpstreamCall} {need size : ℕ}
    (hhead : head S = .packet call need size) (hshort : size + 1 < need)
    (hno : ¬ (call = none ∧ 0 < size ∧ SilentlyRefused (S.drop size))) : Shows S := by
  obtain ⟨-, hle, -⟩ := packet_size hhead
  have hsplit : S.take (size + 1) ++ S.drop (size + 1) = S := List.take_append_drop ..
  have hlen : (S.take (size + 1)).length = size + 1 := by rw [List.length_take]; omega
  have hlen' : (S.drop (size + 1)).length = S.length - (size + 1) := List.length_drop
  have hne : S.take (size + 1) ≠ [] := by rw [← List.length_pos_iff]; omega
  have hne' : S.drop (size + 1) ≠ [] := by rw [← List.length_pos_iff]; omega
  have hmore : head (S.take (size + 1)) = .more := by
    by_contra hacted
    have hsame := head_append hacted (S.drop (size + 1))
    rw [hsplit, hhead] at hsame
    have := (packet_size hsame.symm).2.1
    omega
  refine ⟨S.take (size + 1), S.drop (size + 1), [], hne, hne', hsplit, ?_, ?_⟩
  · have hturn := readTurn_packet (B := ⟨_, hmore⟩) hne' (hsplit.symm ▸ hhead)
    rw [if_pos (by simp only [hlen]; omega)] at hturn
    exact fed_turn (readTurn_more (B := .empty) hne hmore)
      (fed_nil_chunk (.stop (.leave hturn)))
  · intro calls hread hcalls
    have hS := silentlyRefused_of_read hread hcalls
    cases hS with
    | refused h => rw [hhead] at h; cases h
    | skip h hpos hrest =>
        rw [hhead] at h
        cases h
        exact hno ⟨rfl, hpos, hrest⟩

/-- What shows in the rest of a stream shows in the stream. -/
theorem Shows.turn {S pre : List UInt8} (es : List UpstreamCall)
    (hfed : ∀ c d calls out, c ≠ [] → c ++ d = S → Chunk.Fed Read .start [c, d] calls out →
      Chunk.Fed Read .start [pre ++ c, d] (es ++ calls) out)
    (hread : ∀ calls out, S ≠ [] → Read .start (pre ++ S) calls out →
      ∃ calls', calls = es ++ calls' ∧ Read .start S calls' out)
    (h : Shows S) : Shows (pre ++ S) := by
  obtain ⟨c₁, c₂, calls₁, hne₁, hne₂, rfl, hcut, huncut⟩ := h
  refine ⟨pre ++ c₁, c₂, es ++ calls₁, by simp [hne₁], hne₂, List.append_assoc .., ?_, ?_⟩
  · exact hfed c₁ c₂ calls₁ none hne₁ rfl hcut
  · intro calls hr hheads
    obtain ⟨calls', rfl, hr'⟩ := hread calls none (by simp [hne₁]) hr
    rw [heads_append, heads_append, List.append_cancel_left_eq] at hheads
    exact huncut calls' hr' hheads

/-- **With a defect there is a cut that shows.** -/
theorem defect_shows {S : List UInt8} (h : Defect S) : Shows S := by
  induction h with
  | here hhead hshort hno => exact shows_here hhead hshort hno
  | @packet S call need size hhead hpos hrest ih =>
      by_cases hshort : size + 1 < need
      · -- the packet itself shows: a stream with a defect is not silently refused
        exact shows_here hhead hshort fun hall => hall.2.2.not_defect hrest
      obtain ⟨hmin, hle, -⟩ := packet_size hhead
      have hsplit : S.take size ++ S.drop size = S := List.take_append_drop ..
      have hlen : (S.take size).length = size := by rw [List.length_take]; omega
      rw [← hsplit]
      refine Shows.turn call.toList (fun c d calls out hc hcd hfed => ?_)
        (fun calls out _ hread => ?_) ih
      · have hposc := List.length_pos_of_ne_nil hc
        have hwhole : S.take size ++ c ++ d = S := by rw [List.append_assoc, hcd, hsplit]
        have hhead' : head (S.take size ++ c) = .packet call need size := by
          rw [head_of_append d, hwhole, hhead]
          rw [hwhole, hhead, List.length_append, Head.need]
          omega
        have hturn := readTurn_packet (B := .empty) (x := S.take size ++ c) (by simp [hc]) hhead'
        rw [if_neg (by simp)] at hturn
        refine fed_turn hturn ?_
        rwa [Pending.bytes_empty, List.nil_append, List.drop_left' hlen]
      · rw [hsplit] at hread
        exact (read_packet hhead).1 hread
  | @publish S topic messageId size n hhead hrest ih =>
      obtain ⟨-, hle⟩ := publish_size hhead
      have hne : S.drop (size + n) ≠ [] := by
        intro hnil
        rw [hnil] at hrest
        exact not_defect_nil hrest
      have hlong : size + n ≤ S.length := by
        by_contra hshort
        exact hne (List.drop_eq_nil_of_le (by omega))
      have hsplit : S.take (size + n) ++ S.drop (size + n) = S := List.take_append_drop ..
      have hlen : (S.take (size + n)).length = size + n := by rw [List.length_take]; omega
      rw [← hsplit]
      refine Shows.turn [.onPublishHeader topic messageId n,
        .onPublishData ((S.drop size).take n) true] (fun c d calls out hc hcd hfed => ?_)
        (fun calls out _ hread => ?_) ih
      · have hwhole : S.take (size + n) ++ c ++ d = S := by rw [List.append_assoc, hcd, hsplit]
        have hhead' : head (S.take (size + n) ++ c) = .publish topic messageId size n := by
          rw [head_of_append d, hwhole, hhead]
          rw [hwhole, hhead, List.length_append, Head.need]
          omega
        have hdata : (S.take (size + n) ++ c).drop size = (S.drop size).take n ++ c := by
          rw [List.drop_append_of_le_length (by omega), List.drop_take, Nat.add_sub_cancel_left]
        have hlen' : ((S.drop size).take n).length = n := by
          rw [List.length_take, List.length_drop]
          omega
        have hturn := readTurn_publish (B := .empty) (x := S.take (size + n) ++ c) (by simp [hc])
          hhead'
        have hturn' := readTurn_payload (x := (S.drop size).take n ++ c) (by simp [hc]) n
        rw [if_neg (by rw [List.length_append]; omega), List.take_left' hlen',
          List.drop_left' hlen'] at hturn'
        rw [Pending.bytes_empty, List.nil_append, hdata] at hturn
        exact fed_turn hturn (fed_turn hturn' hfed)
      · rw [hsplit] at hread
        obtain ⟨calls', rfl, hread'⟩ := (read_publish hhead).1 hread
        have hne' : S.drop size ≠ [] := by
          intro hnil
          rw [← List.drop_drop, hnil] at hne
          exact hne (List.drop_nil)
        obtain ⟨calls'', rfl, hread''⟩ :=
          (read_payload_full hne' (by rw [List.length_drop]; omega)).1 hread'
        exact ⟨calls'', rfl, by rwa [List.drop_drop] at hread''⟩

/-! ### Independence of the cuts -/

/-- Any two ways of cutting the stream into chunks that are not empty give the same: handlers that
have been reset return from every call, accept the stream both or refuse it both, and make the
same calls, up to the pieces in which data is handed over. -/
def CutsAgree (S : List UInt8) : Prop :=
  ∀ (h₁ h₂ : MQTTSocketHandler) (now₁ now₂ : UInt64) (cs ds : List (List UInt8)),
    (∀ c ∈ cs, c ≠ []) → (∀ d ∈ ds, d ≠ []) → cs.flatten = S → ds.flatten = S →
      ∃ calls₁ calls₂ answer₁ answer₂,
        Chunk.Fed OnRecv (h₁.reset now₁) cs calls₁ answer₁ ∧
        Chunk.Fed OnRecv (h₂.reset now₂) ds calls₂ answer₂ ∧
        (answer₁.isSome ↔ answer₂.isSome) ∧ gather calls₁ = gather calls₂

/-- A handler that accepts leaves a reader that accepts. -/
theorem isSome_iff_of_rel {answer : Option MQTTSocketHandler} {out : Option St}
    (h : Option.Rel Rel answer out) : answer.isSome ↔ out.isSome := by
  cases h <;> simp

theorem cutsAgree_of_not_defect {S : List UInt8} (h : ¬ Defect S) : CutsAgree S := by
  obtain ⟨calls, out, -, hall⟩ := fed_of_not_defect h
  intro h₁ h₂ now₁ now₂ cs ds _ _ hcs hds
  obtain ⟨calls₁, hfed₁, hsame₁⟩ := hall cs hcs
  obtain ⟨calls₂, hfed₂, hsame₂⟩ := hall ds hds
  obtain ⟨answer₁, hans₁, hrel₁⟩ := fed_of_reader (rel_reset h₁ now₁) hfed₁
  obtain ⟨answer₂, hans₂, hrel₂⟩ := fed_of_reader (rel_reset h₂ now₂) hfed₂
  exact ⟨calls₁, calls₂, answer₁, answer₂, hans₁, hans₂,
    (isSome_iff_of_rel hrel₁).trans (isSome_iff_of_rel hrel₂).symm, hsame₁ ▸ hsame₂⟩

theorem fed_det {st : St} {cs : List (List UInt8)} {calls calls' : List UpstreamCall}
    {out out' : Option St} (h : Chunk.Fed Read st cs calls out)
    (h' : Chunk.Fed Read st cs calls' out') : calls = calls' ∧ out = out' :=
  Chunk.Fed.det (P := Read) (fun hr hr' => read_det hr hr') h h'

/-- Chunks in one piece are the stream. -/
theorem read_of_fed_one {st : St} {S : List UInt8} {calls : List UpstreamCall}
    (h : Chunk.Fed Read st [S] calls none) : Read st S calls none := by
  cases h with
  | stop hc => exact hc
  | go _ hcs => cases hcs

theorem not_cutsAgree_of_defect {S : List UInt8} (h : Defect S) : ¬ CutsAgree S := by
  obtain ⟨c₁, c₂, calls₁, hne₁, hne₂, rfl, hcut, huncut⟩ := defect_shows h
  intro hagree
  obtain ⟨calls, calls', answer, answer', hfed, hfed', hiff, hsame⟩ :=
    hagree zeroed zeroed 0 0 [c₁, c₂] [c₁ ++ c₂] (by simp [hne₁, hne₂]) (by simp [hne₁])
      (by simp) (by simp)
  obtain ⟨out, hread, hrel⟩ := fed_of_handler (rel_reset zeroed 0) hfed
  obtain ⟨out', hread', hrel'⟩ := fed_of_handler (rel_reset zeroed 0) hfed'
  obtain ⟨rfl, rfl⟩ := fed_det hread hcut
  have hnone : out' = none := by
    have := (isSome_iff_of_rel hrel).symm.trans (hiff.trans (isSome_iff_of_rel hrel'))
    simpa using this
  subst hnone
  refine huncut calls' (read_of_fed_one hread') ?_
  rw [← heads_gather calls', ← hsame, heads_gather]

/-- **Exactly the streams without a defect are read independently of the cuts.** -/
theorem cutsAgree_iff (S : List UInt8) : CutsAgree S ↔ ¬ Defect S :=
  ⟨fun h hd => not_cutsAgree_of_defect hd h, cutsAgree_of_not_defect⟩

/-- A CONNACK that declares an empty body: received at once its code and flags are read from the
packet after it, and cut after three bytes it is refused. -/
theorem cuts_disagree_connAck : ¬ CutsAgree [0x20, 0x00, 0x00, 0x00] :=
  not_cutsAgree_of_defect (.here
    (show head [0x20, 0x00, 0x00, 0x00] = .packet (some (.onConnAck 0 0)) 4 2 by decide)
    (by decide) (by simp))

end Mqtt
