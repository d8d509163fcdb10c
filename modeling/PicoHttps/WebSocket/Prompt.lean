/-
**When a frame is acted on.**

`WebSocketHandler::decodeData` decides inside a loop that runs while bytes are left: that a payload
is complete is noticed after its last byte, but that a payload is empty, and that a frame carries
no data, only when a byte follows the head.  A stream whose bytes so far end with a frame without
payload is therefore left undecided, an empty message as well as an empty close frame.

Main definitions:

* `WebSocket.completeFrames` — the frames of which every byte has been passed in;
* `WebSocket.ActedOn` — all of them carry data and have been reported;
* `WebSocket.EndsEmpty` — a stream that ends with a frame without payload.

Main results:

* `WebSocket.reported_complete_iff` — what a reader has reported of a stream it has not refused;
* `WebSocket.acted_at_once_iff` — every call leaves the frames acted on, unless the bytes end so.
-/

import PicoHttps.WebSocket.Decode

set_option relaxedAutoImplicit false
set_option autoImplicit false

namespace WebSocket

open WebSocketHandler

/-! ### Complete frames -/

/-- The frames of a stream of which every byte is there, whatever they carry: head and payload as
sent. -/
def completeFrames (s : List UInt8) : List (Head × List UInt8) :=
  match _h : readHead s with
  | none => []
  | some (hd, rest) =>
    if rest.length < hd.length then []
    else (hd, rest.take hd.length) :: completeFrames (rest.drop hd.length)
termination_by s.length
decreasing_by
  have := readHead_length ‹_›
  simp
  omega

/-- The stream ends with the head of a frame without payload, and all frames before it carry
data. -/
inductive EndsEmpty : List UInt8 → Prop
  | here {s : List UInt8} {hd : Head} (h : readHead s = some (hd, [])) (hlen : hd.length = 0) :
      EndsEmpty s
  | frame {s rest : List UInt8} {hd : Head} (h : readHead s = some (hd, rest))
      (hdata : hd.isData = true) (hlen : hd.length ≤ rest.length)
      (hrest : EndsEmpty (rest.drop hd.length)) : EndsEmpty s

section complete

variable {s rest : List UInt8} {hd : Head}

theorem completeFrames_none (h : readHead s = none) : completeFrames s = [] := by
  rw [completeFrames]
  split
  · rfl
  · rename_i h'
    rw [h] at h'
    cases h'

theorem completeFrames_some (h : readHead s = some (hd, rest)) :
    completeFrames s =
      if rest.length < hd.length then []
      else (hd, rest.take hd.length) :: completeFrames (rest.drop hd.length) := by
  rw [completeFrames]
  split
  · rename_i h'
    rw [h] at h'
    cases h'
  · rename_i hd' rest' h'
    rw [h] at h'
    cases h'
    rfl

theorem not_endsEmpty_none (h : readHead s = none) : ¬ EndsEmpty s := by
  intro hends
  cases hends with
  | here h' => rw [h] at h'; cases h'
  | frame h' => rw [h] at h'; cases h'

/-- Behind the head of a stream. -/
theorem endsEmpty_some (h : readHead s = some (hd, rest)) :
    EndsEmpty s ↔ (rest = [] ∧ hd.length = 0) ∨
      hd.isData = true ∧ hd.length ≤ rest.length ∧ EndsEmpty (rest.drop hd.length) := by
  constructor
  · intro hends
    cases hends with
    | here h' hlen =>
        rw [h] at h'
        cases h'
        exact .inl ⟨rfl, hlen⟩
    | frame h' hdata hlen hrest =>
        rw [h] at h'
        cases h'
        exact .inr ⟨hdata, hlen, hrest⟩
  · rintro (⟨rfl, hlen⟩ | ⟨hdata, hlen, hrest⟩)
    · exact .here h hlen
    · exact .frame h hdata hlen hrest

end complete

/-! ### What is reported of them -/

/-- The complete frames of a stream carry data and have been reported by as many calls. -/
def ActedOn (s : List UInt8) (reports : ℕ) : Prop :=
  (∀ f ∈ completeFrames s, f.1.isData = true) ∧ reports = (completeFrames s).length

/-- A complete frame that carries data and is reported does not matter. -/
theorem actedOn_cons {s rest : List UInt8} {hd : Head} {n : ℕ} (h : readHead s = some (hd, rest))
    (hdata : hd.isData = true) (hlen : hd.length ≤ rest.length) :
    ActedOn s (n + 1) ↔ ActedOn (rest.drop hd.length) n := by
  rw [ActedOn, ActedOn, completeFrames_some h, if_neg (by omega)]
  simp only [List.mem_cons, forall_eq_or_imp, hdata, true_and, List.length_cons,
    Nat.add_right_cancel_iff]

section reported

variable {s rest : List UInt8} {hd : Head}

/-- Without the head of a frame there is nothing to report. -/
theorem actedOn_none (h : readHead s = none) : ActedOn s (readStream s).reported.length := by
  rw [ActedOn, completeFrames_none h, readStream_none h]
  simp [Reading.reported]

/-- Without the rest of its payload, either. -/
theorem actedOn_short (h : readHead s = some (hd, rest)) (hdata : hd.isData = true)
    (hshort : rest.length < hd.length) : ActedOn s (readStream s).reported.length := by
  have hread := readStream_some h
  rw [if_pos hdata, if_pos hshort] at hread
  rw [ActedOn, completeFrames_some h, if_pos hshort, hread]
  simp [Reading.reported]

/-- A frame at the end of the stream that has no payload is complete but not reported. -/
theorem not_actedOn_empty (h : readHead s = some (hd, [])) (hdata : hd.isData = true)
    (hzero : hd.length = 0) : ¬ ActedOn s (readStream s).reported.length := by
  have hread := readStream_some h
  have hlen : ¬ ([] : List UInt8).length < hd.length := by
    rw [hzero]
    exact Nat.lt_irrefl 0
  rw [if_pos hdata, if_neg hlen, hzero, List.drop_zero] at hread
  have hnone : (readStream s).reported = [] := by
    rw [hread, readStream_none (s := []) rfl]
    simp [Reading.reported, Head.unmaskFrom]
  rintro ⟨-, hcount⟩
  rw [hnone, completeFrames_some h, if_neg hlen] at hcount
  cases hcount

/-- Any other complete frame that carries data is reported. -/
theorem actedOn_frame (h : readHead s = some (hd, rest)) (hdata : hd.isData = true)
    (hlen : hd.length ≤ rest.length) (hempty : ¬ (rest = [] ∧ hd.length = 0)) :
    ActedOn s (readStream s).reported.length ↔
      ActedOn (rest.drop hd.length) (readStream (rest.drop hd.length)).reported.length := by
  have hread := readStream_some h
  rw [if_pos hdata, if_neg (by omega)] at hread
  have hside : hd.unmaskFrom 0 (rest.take hd.length) ≠ [] ∨
      ¬ ((readStream (rest.drop hd.length)).tail = .boundary ∧
        (readStream (rest.drop hd.length)).frames = []) := by
    by_cases hzero : hd.length = 0
    · refine .inr fun hend => hempty ⟨?_, hzero⟩
      have hnil := eq_nil_of_boundary hend.1 hend.2
      rwa [hzero, List.drop_zero] at hnil
    · refine .inl fun hnil => hzero ?_
      have hlength := congrArg List.length hnil
      rw [Head.length_unmaskFrom, List.length_take, List.length_nil] at hlength
      omega
  rw [hread, reported_cons hside, List.length_cons, actedOn_cons h hdata hlen]

/-- A frame of another kind is not reported. -/
theorem actedOn_control (h : readHead s = some (hd, [])) (hdata : hd.isData ≠ true) :
    ActedOn s (readStream s).reported.length ↔ hd.length ≠ 0 := by
  have hread := readStream_some h
  rw [if_neg hdata] at hread
  have hnone : (readStream s).reported = [] := by
    rw [hread]
    simp [Reading.reported]
  rw [ActedOn, hnone, completeFrames_some h]
  rcases Nat.eq_zero_or_pos hd.length with hzero | hpos
  · rw [if_neg (by simp [hzero])]
    simp [hdata, hzero]
  · rw [if_pos (by simpa using hpos)]
    simp only [List.not_mem_nil, false_imp_iff, implies_true, List.length_nil, true_and, true_iff]
    omega

end reported

/-- **What has been reported of a stream that has not been refused** is all that is complete,
unless the stream ends with a frame without payload. -/
theorem reported_complete_iff (s : List UInt8) (hok : (readStream s).tail ≠ .refused) :
    ActedOn s (readStream s).reported.length ↔ ¬ EndsEmpty s := by
  -- on the length of the stream: a frame takes at least its head off it
  induction hn : s.length using Nat.strong_induction_on generalizing s with
  | _ n ih =>
      cases h : readHead s with
      | none => exact iff_of_true (actedOn_none h) (not_endsEmpty_none h)
      | some r =>
          obtain ⟨hd, rest⟩ := r
          have hshorter := readHead_length h
          have hread := readStream_some h
          rw [endsEmpty_some h]
          by_cases hdata : hd.isData = true
          · rw [if_pos hdata] at hread
            rcases Nat.lt_or_ge rest.length hd.length with hshort | hlen
            · refine iff_of_true (actedOn_short h hdata hshort) ?_
              rintro (⟨rfl, hzero⟩ | ⟨-, hle, -⟩)
              · rw [List.length_nil] at hshort
                omega
              · omega
            · by_cases hempty : rest = [] ∧ hd.length = 0
              · obtain ⟨rfl, hzero⟩ := hempty
                exact iff_of_false (not_actedOn_empty h hdata hzero)
                  fun hno => hno (.inl ⟨rfl, hzero⟩)
              · rw [if_neg (by omega)] at hread
                have htail : (readStream (rest.drop hd.length)).tail ≠ .refused := by
                  rwa [hread] at hok
                have hless : (rest.drop hd.length).length < n := by
                  rw [List.length_drop]
                  omega
                rw [actedOn_frame h hdata hlen hempty, ih _ hless _ htail rfl]
                simp [hempty, hdata, hlen]
          · -- nothing may follow, or the stream is refused
            have hnil : rest = [] := by
              by_contra hne
              rw [hread, if_neg hdata] at hok
              exact hok (if_neg hne)
            subst hnil
            rw [actedOn_control h hdata]
            simp [hdata]

/-- A stream that ends with a frame without payload is not refused yet. -/
theorem not_refused_of_endsEmpty {s : List UInt8} (h : EndsEmpty s) :
    (readStream s).tail ≠ .refused := by
  induction h with
  | here h hlen =>
      rw [readStream_some h, hlen]
      split
      · simp [readStream_none (s := []) rfl]
      · simp
  | frame h hdata hlen hrest ih =>
      rw [readStream_some h, if_pos hdata, if_neg (by omega)]
      exact ih

/-- Every report ends a payload that has been handed over. -/
theorem count_onFinishedPacket (calls : List Call) : ∀ acc,
    (calls.foldl deliver acc).1.length = acc.1.length + calls.count .onFinishedPacket := by
  induction calls with
  | nil => intro acc; rfl
  | cons call calls ih =>
      intro acc
      rw [List.foldl_cons, ih]
      cases call with
      | onFinishedPacket =>
          rw [List.count_cons_self, deliver, List.length_append, List.length_singleton]
          omega
      | onWebSocketData data => rw [List.count_cons_of_ne (by simp)]; rfl
      | onWebsocketEncodedData data => rw [List.count_cons_of_ne (by simp)]; rfl

/-! ### Every call -/

/-- Whenever a call of `decodeData` returns true, the frames of the bytes passed in so far carry
data and `onFinishedPacket` has been called for each of them. -/
def ActsAtOnce (h : WebSocketHandler) (cs : List (List UInt8)) : Prop :=
  ∀ ds, ds <+: cs → ∀ h' log, decodeChunks recorder h ds [] = some (true, h', log) →
    ActedOn ds.flatten (log.count .onFinishedPacket)

/-- **Complete frames are acted on at once, except one without payload at the end of a chunk.**
For every stream, cut into chunks in any way, with callbacks that return true: every call that
returns true leaves no complete frame unreported and has been passed no complete frame that
carries no data, if and only if after none of the calls the bytes passed in so far end with a
frame without payload behind frames that carry data. -/
theorem acted_at_once_iff (op : WebSocketOperation) (key : Fin 4 → UInt8)
    (buffer : Buffer MAX_WEBSOCKET_HEADER) (cs : List (List UInt8)) :
    ActsAtOnce (fresh op key buffer) cs ↔ ∀ ds, ds <+: cs → ¬ EndsEmpty ds.flatten := by
  have hcount : ∀ {ds : List (List UInt8)} {ok : Bool} {h' : WebSocketHandler} {log : List Call},
      decodeChunks recorder (fresh op key buffer) ds [] = some (ok, h', log) →
        log.count .onFinishedPacket = (readStream ds.flatten).reported.length ∧
          (ok = false ↔ (readStream ds.flatten).tail = .refused) := by
    intro ds ok h' log hdec
    obtain ⟨ok₁, h₁, log₁, hdec₁, hdel, href⟩ := decodeChunks_delivers op key buffer ds
    rw [hdec] at hdec₁
    cases hdec₁
    refine ⟨?_, href⟩
    have hlength := count_onFinishedPacket log ([], none)
    rw [← delivered, hdel, List.length_nil, Nat.zero_add] at hlength
    exact hlength.symm
  constructor
  · intro hall ds hds hends
    have hok := not_refused_of_endsEmpty hends
    obtain ⟨ok, h', log, hdec, -, href⟩ := decodeChunks_delivers op key buffer ds
    cases ok with
    | false => exact hok (href.1 rfl)
    | true =>
        have hacted := hall ds hds h' log hdec
        rw [(hcount hdec).1] at hacted
        exact (reported_complete_iff _ hok).1 hacted hends
  · intro hall ds hds h' log hdec
    obtain ⟨hlog, href⟩ := hcount hdec
    have hok : (readStream ds.flatten).tail ≠ .refused := fun h => absurd (href.2 h) (by simp)
    rw [hlog]
    exact (reported_complete_iff _ hok).2 (hall ds hds)

/-- An empty close frame that arrives alone is neither refused nor reported. -/
theorem close_not_acted_on :
    ¬ ActsAtOnce (fresh 0 ![0, 0, 0, 0] (.filled _ 0)) [[0x88, 0x80, 1, 2, 3, 4]] := by
  intro hall
  have hacted := hall _ List.prefix_rfl _ _ rfl
  have hhead : readHead [0x88, 0x80, 1, 2, 3, 4] = some (headOf 0x88 0x80 [1, 2, 3, 4], []) := rfl
  have hframes := completeFrames_some hhead
  rw [if_neg (by decide)] at hframes
  have hdata := hacted.1 (headOf 0x88 0x80 [1, 2, 3, 4], []) (hframes ▸ List.mem_cons_self)
  exact absurd hdata (by decide)

end WebSocket
