/-
**Decoding that does not end.**

The loop of `decode_data` turns until the data is consumed, and a turn may consume nothing: a
packet whose bytes were all in the buffer already, or an empty payload.  The turn after that
consumes something, unless a packet has no bytes at all.  There are such packets: the size of a
packet is a `uint32_t`, and a remaining length of five bytes can make it zero.

Main definitions:

* `Mqtt.Reachable` — the states that a handler can be in;
* `Mqtt.Ends` — the loop returns, and no two turns of it in a row consume nothing;
* `Mqtt.Stuck`, `Mqtt.Hangs` — the data comes to a packet of zero bytes.

Main results:

* `Mqtt.stuckFrom_turn` — a turn of the reader neither makes nor removes such a packet;
* `Mqtt.turn_advances` — a turn consumes something, or the next one starts a packet;
* `Mqtt.ends_iff` — **the loop ends exactly when the data does not come to a packet of zero
  bytes**.
-/

import PicoHttps.Mqtt.Framing

set_option relaxedAutoImplicit false
set_option autoImplicit false

namespace Mqtt

open MQTTSocketHandler

/-! ### Packets of zero bytes -/

/-- In the bytes `S` of a packet and what follows it, of which the first `k` were there before, the
decoder comes to a packet of zero bytes. -/
inductive Stuck : ℕ → List UInt8 → Prop
  | here {S : List UInt8} {call : Option UpstreamCall} {need : ℕ} :
      head S = .packet call need 0 → Stuck 0 S
  | packet {k : ℕ} {S : List UInt8} {call : Option UpstreamCall} {need size : ℕ} :
      head S = .packet call need size → k ≤ size → Stuck 0 (S.drop size) → Stuck k S
  | publish {k : ℕ} {S topic : List UInt8} {messageId size n : ℕ} :
      head S = .publish topic messageId size n → Stuck 0 (S.drop (size + n)) → Stuck k S

/-- The bytes of a packet that are in the buffer. -/
def MQTTSocketHandler.received (h : MQTTSocketHandler) : List UInt8 :=
  h.recvBuffer.bytes.take h.recvBufferIdx

/-- The handler comes to a packet of zero bytes in the data `x`. -/
def Hangs (h : MQTTSocketHandler) (x : List UInt8) : Prop :=
  match h.state with
  | .WAIT_PACKET => Stuck h.received.length (h.received ++ x)
  | .WAIT_DATA => Stuck 0 (x.drop h.pendingDataLen)

/-- **The loop of `decode_data` ends**: it returns within two turns for each byte and two more, and
two turns in a row that come back to the head of the loop have consumed something. -/
structure Ends (h : MQTTSocketHandler) (x : List UInt8) : Prop where
  returns : ∃ calls ok h', While.run decodeTurn (2 * x.length + 2) (h, x) =
    some (calls, some (ok, h'))
  advances : ∀ calls s es t fs u, While.Steps decodeTurn (h, x) calls s →
    decodeTurn s = (es, .inl t) → decodeTurn t = (fs, .inl u) → u.2.length < s.2.length

section stuck

variable {k : ℕ} {S : List UInt8}

theorem Stuck.acted (h : Stuck k S) : head S ≠ .more ∧ head S ≠ .refused := by
  cases h with
  | here hhead => rw [hhead]; exact ⟨nofun, nofun⟩
  | packet hhead => rw [hhead]; exact ⟨nofun, nofun⟩
  | publish hhead => rw [hhead]; exact ⟨nofun, nofun⟩

theorem stuck_packet_iff {call : Option UpstreamCall} {need size : ℕ}
    (hhead : head S = .packet call need size) :
    Stuck k S ↔ k ≤ size ∧ Stuck 0 (S.drop size) := by
  constructor
  · intro h
    cases h with
    | here h =>
        rw [hhead] at h
        cases h
        exact ⟨Nat.le_refl 0, .here hhead⟩
    | packet h hle hrest =>
        rw [hhead] at h
        cases h
        exact ⟨hle, hrest⟩
    | publish h => rw [hhead] at h; cases h
  · rintro ⟨hle, hrest⟩
    exact .packet hhead hle hrest

theorem stuck_publish_iff {topic : List UInt8} {messageId size n : ℕ}
    (hhead : head S = .publish topic messageId size n) :
    Stuck k S ↔ Stuck 0 (S.drop (size + n)) := by
  constructor
  · intro h
    cases h with
    | here h => rw [hhead] at h; cases h
    | packet h => rw [hhead] at h; cases h
    | publish h hrest =>
        rw [hhead] at h
        cases h
        exact hrest
  · intro hrest
    exact .publish hhead hrest

end stuck

/-! ### Turns of the reader -/

/-- The reader comes to a packet of zero bytes. -/
def StuckFrom : St → List UInt8 → Prop
  | .buffering B, x => Stuck B.bytes.length (B.bytes ++ x)
  | .payload n, x => Stuck 0 (x.drop n)

/-- The bytes that have arrived are not the start of a packet. -/
def lag : St → ℕ
  | .buffering B => if B.bytes = [] then 0 else 1
  | .payload _ => 1

theorem lag_start : lag .start = 0 := rfl

theorem lag_le (st : St) : lag st ≤ 1 := by
  cases st with
  | buffering B =>
      rw [lag]
      split <;> omega
  | payload n => exact Nat.le_refl 1

section turns

variable {st st' : St} {x x' : List UInt8} {es : List UpstreamCall}

/-- **A turn of the reader neither makes nor removes a packet of zero bytes**, ... -/
theorem stuckFrom_turn (h : readTurn (st, x) = (es, .inl (st', x'))) :
    StuckFrom st x ↔ StuckFrom st' x' := by
  cases turned h with
  | part hx hlt =>
      rw [StuckFrom, StuckFrom, List.drop_eq_nil_of_le (Nat.le_of_lt hlt), List.drop_nil]
  | full hx hle => exact Iff.rfl
  | more hx hhead =>
      rw [StuckFrom, StuckFrom, List.append_nil]
      exact iff_of_false (fun hs => hs.acted.1 hhead) fun hs => hs.acted.1 hhead
  | publish hx hhead => rw [StuckFrom, StuckFrom, stuck_publish_iff hhead, List.drop_drop]
  | packet hx hhead hon =>
      rw [StuckFrom, stuck_packet_iff hhead]
      exact and_iff_right hon

/-- ... and the reader does not leave before it. -/
theorem StuckFrom.turn (h : StuckFrom st x) :
    ∃ es st' x', readTurn (st, x) = (es, .inl (st', x')) := by
  by_cases hx : x = []
  · subst hx
    cases st with
    | payload n =>
        rw [StuckFrom, List.drop_nil] at h
        exact absurd rfl h.acted.1
    | buffering B =>
        rw [StuckFrom, List.append_nil] at h
        exact absurd B.more h.acted.1
  cases st with
  | payload n =>
      rw [readTurn_payload hx]
      split
      · exact ⟨_, _, _, rfl⟩
      · exact ⟨_, _, _, rfl⟩
  | buffering B =>
      cases hhead : head (B.bytes ++ x) with
      | more => exact absurd hhead h.acted.1
      | refused => exact absurd hhead h.acted.2
      | publish topic messageId size n => exact ⟨_, _, _, readTurn_publish hx hhead⟩
      | packet call need size =>
          rw [readTurn_packet hx hhead, if_neg (Nat.not_lt.2 ((stuck_packet_iff hhead).1 h).1)]
          exact ⟨_, _, _, rfl⟩

/-- **A turn consumes something, or the next one starts a packet.** -/
theorem turn_advances (h : readTurn (st, x) = (es, .inl (st', x'))) (hno : ¬ StuckFrom st x) :
    x'.length < x.length ∨ (x'.length = x.length ∧ lag st' < lag st) := by
  cases turned h with
  | part hx hlt => exact .inl (List.length_pos_of_ne_nil hx)
  | @full n x hx hle =>
      have hlag : lag .start < lag (.payload n) := Nat.zero_lt_one
      rw [List.length_drop]
      omega
  | more hx hhead => exact .inl (List.length_pos_of_ne_nil hx)
  | @publish B x topic messageId size n hx hhead =>
      obtain ⟨-, hle⟩ := publish_size hhead
      have hneed := head_need B.bytes x
      rw [hhead] at hneed
      have hlt : 0 + B.bytes.length < size := (hneed (by nofun)).2.2 B.more
      have hlen : (B.bytes ++ x).length = B.bytes.length + x.length := List.length_append
      rw [List.length_drop]
      omega
  | @packet B x call need size hx hhead hon =>
      obtain ⟨-, hle, -⟩ := packet_size hhead
      have hpos := List.length_pos_of_ne_nil hx
      have hlen : (B.bytes ++ x).length = B.bytes.length + x.length := List.length_append
      by_cases hB : B.bytes = []
      · -- only a packet of zero bytes would leave the data as it is
        have hzero : size ≠ 0 := by
          rintro rfl
          refine hno ?_
          rw [StuckFrom, hB]
          exact .here (hB ▸ hhead)
        rw [List.length_drop, hlen, hB, List.length_nil]
        omega
      · have hlag : lag .start < lag (.buffering B) := by
          rw [lag_start, lag, if_neg hB]
          exact Nat.zero_lt_one
        rw [List.length_drop]
        omega

end turns

/-! ### The loop of the handler -/

section loop

variable {h h' : MQTTSocketHandler} {st : St} {x : List UInt8}

theorem hangs_iff (hrel : Rel h st) : Hangs h x ↔ StuckFrom st x := by
  cases st with
  | payload n =>
      obtain ⟨hstate, hpending, -⟩ := hrel
      simp only [Hangs, hstate, hpending, StuckFrom]
  | buffering B =>
      obtain ⟨hstate, hb⟩ := hrel
      have hreceived : h.received = B.bytes.take MQTT_BUFFER_SIZE := by
        rw [received, hb.idx, hb.holds.take_eq]
      simp only [Hangs, hstate, StuckFrom, hreceived]
      rcases Nat.lt_or_ge MQTT_BUFFER_SIZE B.bytes.length with hlt | hle
      · -- the buffer is full, and the decoder waits for ever
        have hlen : (B.bytes.take MQTT_BUFFER_SIZE).length = MQTT_BUFFER_SIZE := by
          rw [List.length_take]
          omega
        have hcut : head (B.bytes.take MQTT_BUFFER_SIZE ++ x) = .more := by
          rw [← head_take, List.take_left' hlen, head_take, B.more]
        have hfull : head (B.bytes ++ x) = .more := by
          rw [← head_take, List.take_append_of_le_length (by omega), head_take, B.more]
        exact iff_of_false (fun hs => hs.acted.1 hcut) fun hs => hs.acted.1 hfull
      · rw [List.take_of_length_le hle]

/-- **The loop does not return when the data comes to a packet of zero bytes**, ... -/
theorem not_ends (hrel : Rel h st) (hhangs : Hangs h x) : ¬ Ends h x := by
  intro hends
  obtain ⟨calls, ok, h', hrun⟩ := hends.returns
  obtain ⟨out, hread, -⟩ := sim.exec (While.exec_iff_run.2 ⟨_, hrun⟩) (st, x) ⟨hrel, rfl⟩
  have hdiverges : While.Diverges readTurn (st, x) := by
    refine While.diverges_of_closed (fun s => StuckFrom s.1 s.2) ?_ ((hangs_iff hrel).1 hhangs)
    rintro ⟨st', x'⟩ hs
    obtain ⟨es, st'', x'', hturn⟩ := hs.turn
    exact ⟨es, (st'', x''), hturn, (stuckFrom_turn hturn).1 hs⟩
  exact hdiverges.not_exec hread

/-- ... and it returns when it does not. -/
theorem ends_of_rel (hrel : Rel h st) (hno : ¬ Hangs h x) : Ends h x := by
  have hstart : ¬ StuckFrom st x := fun hs => hno ((hangs_iff hrel).2 hs)
  have hclosed : ∀ (s s' : St × List UInt8) (es : List UpstreamCall), ¬ StuckFrom s.1 s.2 →
      readTurn s = (es, .inl s') → ¬ StuckFrom s'.1 s'.2 :=
    fun s s' es hs hturn hs' => hs ((stuckFrom_turn hturn).2 hs')
  constructor
  · -- twice the bytes that are left, and one more where they do not start a packet
    obtain ⟨⟨calls, out⟩, hrun⟩ := While.run_of_measure hclosed
      (fun s => 2 * s.2.length + lag s.1) (fun s s' es hs hturn => by
        have hlag := lag_le s'.1
        have := turn_advances hturn hs
        omega) (2 * x.length + 2) (st, x) hstart (by have := lag_le st; simp only; omega)
    obtain ⟨r, hrun', ok, h', rfl, -⟩ := sim.symm.run hrun (h, x) ⟨hrel, rfl⟩
    exact ⟨calls, ok, h', hrun'⟩
  · intro calls s es t fs u hsteps hs ht
    obtain ⟨s', hsteps', hs'⟩ := sim.steps hsteps (st, x) ⟨hrel, rfl⟩
    obtain ⟨t', hturn, ht'⟩ := sim.turn hs' hs
    obtain ⟨u', hturn', hu'⟩ := sim.turn ht' ht
    have hno' : ¬ StuckFrom s'.1 s'.2 := hsteps'.closed (P := fun s => ¬ StuckFrom s.1 s.2)
      hclosed hstart
    have hfirst := turn_advances hturn hno'
    have hsecond := turn_advances hturn' (hclosed _ _ _ hno' hturn)
    have hlag := lag_le s'.1
    rw [hs'.2, hu'.2]
    omega

end loop

/-! ### The states of a handler -/

/-- The states that a handler and its surroundings can be in: a new handler, whose receive buffer
and surroundings hold anything; and what calls of the handler, in any order and whatever they
return, and the surroundings make of it. -/
inductive Reachable {κ : Type} (d : Downstream κ) : World κ → Prop
  | new (recvBuffer : Buffer MQTT_BUFFER_SIZE) (env : κ) : Reachable d ⟨.new recvBuffer, env, []⟩
  | onConnected {w : World κ} : Reachable d w → Reachable d (w.onConnected d)
  | onRecv {w : World κ} {x : List UInt8} {calls : List UpstreamCall} {ok : Bool}
      {h' : MQTTSocketHandler} : Reachable d w →
      While.Exec decodeTurn (w.handler, x) calls (some (ok, h')) →
      Reachable d { w with handler := h' }
  | send {w w' : World κ} {op : SendOp} {ok : Bool} : Reachable d w →
      w.step d op = some (ok, w') → Reachable d w'
  | wait {w : World κ} (env : κ) : Reachable d w → Reachable d { w with env := env }

/-- A handler that has refused a packet, and refuses it again with everything that arrives. -/
structure Dead (h : MQTTSocketHandler) : Prop where
  state_eq : h.state = .WAIT_PACKET
  refuses : ∃ Y, Buffered h Y ∧ (head Y = .refused ∨
    ∃ call need size, head Y = .packet call need size ∧ size < Y.length)

/-- A handler that is where a reader is, or has refused a packet. -/
def Live (h : MQTTSocketHandler) : Prop := (∃ st, Rel h st) ∨ Dead h

/-- The fields that the decoder uses are the same. -/
structure SameRecv (h h' : MQTTSocketHandler) : Prop where
  idx : h'.recvBufferIdx = h.recvBufferIdx
  buffer : h'.recvBuffer = h.recvBuffer
  state_eq : h'.state = h.state
  pendingDataLen : h'.pendingDataLen = h.pendingDataLen

section dead

variable {h h' : MQTTSocketHandler} {x Y : List UInt8}

theorem SameRecv.trans {h'' : MQTTSocketHandler} (h₁ : SameRecv h h') (h₂ : SameRecv h' h'') :
    SameRecv h h'' :=
  ⟨h₂.idx.trans h₁.idx, h₂.buffer.trans h₁.buffer, h₂.state_eq.trans h₁.state_eq,
    h₂.pendingDataLen.trans h₁.pendingDataLen⟩

theorem SameRecv.buffered (hs : SameRecv h h') (hb : Buffered h Y) : Buffered h' Y :=
  ⟨hs.buffer ▸ hb.holds, hs.idx.trans hb.idx⟩

theorem SameRecv.live (hs : SameRecv h h') (hl : Live h) : Live h' := by
  rcases hl with ⟨st, hrel⟩ | ⟨hstate, Y, hb, hY⟩
  · refine .inl ⟨st, ?_⟩
    cases st with
    | buffering B => exact ⟨hs.state_eq.trans hrel.1, hs.buffered hrel.2⟩
    | payload n =>
        exact ⟨hs.state_eq.trans hrel.1, hs.pendingDataLen.trans hrel.2.1,
          hs.idx.trans hrel.2.2⟩
  · exact .inr ⟨hs.state_eq.trans hstate, Y, hs.buffered hb, hY⟩

/-- What has been refused is refused again, with what arrives after it. -/
theorem dead_append (hstate : h'.state = .WAIT_PACKET)
    (hb : Buffered h' ((Y ++ x).take MQTT_BUFFER_SIZE)) (hfull : Y.length ≤ MQTT_BUFFER_SIZE)
    (hY : head (Y ++ x) = .refused ∨
      ∃ call need size, head (Y ++ x) = .packet call need size ∧ size < Y.length) : Dead h' := by
  refine ⟨hstate, _, hb, ?_⟩
  rw [head_take]
  refine hY.imp_right ?_
  rintro ⟨call, need, size, hhead, hlt⟩
  refine ⟨call, need, size, hhead, ?_⟩
  rw [List.length_take, List.length_append]
  omega

/-- A handler that refuses what arrives has refused a packet. -/
theorem dead_of_leave {st : St} (hrel : Rel h st) {es : List UpstreamCall}
    (hturn : decodeTurn (h, x) = (es, .inr (some (false, h')))) : Dead h' := by
  obtain ⟨out, hread, ok, h'', heq, hout⟩ := sim.leave (u := (st, x)) ⟨hrel, rfl⟩ hturn
  cases heq
  cases hout
  cases turned hread with
  | @refused B x hx hhead =>
      obtain ⟨hstate, hb⟩ := hrel
      obtain ⟨buffer, idx, hb₁, hdec⟩ := decodeHeader_eq hb x
      rw [decodeTurn_packet hx hstate hdec, hhead] at hturn
      cases hturn
      refine ⟨hstate, _, hb₁, .inl ?_⟩
      rw [head_take, hhead]
  | @back B x call need size hx hhead hback =>
      obtain ⟨hstate, hb⟩ := hrel
      obtain ⟨buffer, idx, hb₁, hdec⟩ := decodeHeader_eq hb x
      have hneed := head_need B.bytes x
      rw [hhead] at hneed
      obtain ⟨-, hmax, hlt⟩ := hneed (by nofun)
      have hlt : 0 + B.bytes.length < need := hlt B.more
      have hmax : need ≤ MQTT_BUFFER_SIZE := hmax
      -- so all the bytes that have been read before are still in the buffer
      have hfull : (B.bytes.take MQTT_BUFFER_SIZE).length = B.bytes.length := by
        rw [List.length_take]
        omega
      rw [decodeTurn_packet hx hstate hdec, hhead, hfull, decoded_packet_back hback] at hturn
      cases hturn
      exact dead_append hstate hb₁ (by omega) (.inr ⟨call, need, size, hhead, hback⟩)

/-- A handler that has refused a packet does nothing else with what arrives. -/
theorem Dead.turn (hd : Dead h) (hx : x ≠ []) :
    ∃ h', decodeTurn (h, x) = ([], .inr (some (false, h'))) ∧ Dead h' := by
  obtain ⟨hstate, Y, hb, hY⟩ := hd
  have hfull : Y.length ≤ MQTT_BUFFER_SIZE := hb.holds.length_le
  have htake : Y.take MQTT_BUFFER_SIZE = Y := List.take_of_length_le hfull
  have hacted : head Y ≠ .more := by
    rcases hY with hr | ⟨call, need, size, hp, -⟩
    · rw [hr]; nofun
    · rw [hp]; nofun
  obtain ⟨buffer, idx, hb', hdec⟩ := decodeHeader_eq (B := Y) (htake.symm ▸ hb) x
  have hstate' : (h.withBuffer buffer idx).state = .WAIT_PACKET := hstate
  rw [htake, head_append hacted] at hdec
  rw [decodeTurn_packet hx hstate hdec]
  refine ⟨h.withBuffer buffer idx, ?_,
    dead_append hstate' hb' hfull (head_append hacted x ▸ hY)⟩
  rcases hY with hr | ⟨call, need, size, hp, hlt⟩
  · rw [hr]
    rfl
  · rw [hp, decoded_packet_back hlt]
    rfl

theorem Dead.not_hangs (hd : Dead h) : ¬ Hangs h x := by
  obtain ⟨hstate, Y, hb, hY⟩ := hd
  have hreceived : h.received = Y := by rw [received, hb.idx, hb.holds.take_eq]
  simp only [Hangs, hstate, hreceived]
  intro hs
  rcases hY with hr | ⟨call, need, size, hp, hlt⟩
  · exact hs.acted.2 (by rw [head_append (by rw [hr]; nofun), hr])
  · have hp' : head (Y ++ x) = .packet call need size := by
      rw [head_append (by rw [hp]; nofun), hp]
    exact absurd ((stuck_packet_iff hp').1 hs).1 (Nat.not_le.2 hlt)

theorem Dead.ends (hd : Dead h) : Ends h x := by
  by_cases hx : x = []
  · subst hx
    refine ⟨⟨[], true, h, rfl⟩, fun calls s es t fs u hsteps hs ht => ?_⟩
    cases hsteps with
    | refl => cases hs
    | turn hb => cases hb
  · obtain ⟨h', hturn, -⟩ := hd.turn hx
    refine ⟨⟨[], false, h', While.run_leave hturn _⟩, fun calls s es t fs u hsteps hs ht => ?_⟩
    cases hsteps with
    | refl => rw [hturn] at hs; cases hs
    | turn hb => rw [hturn] at hb; cases hb

/-- **Whatever `on_recv` returns, the handler is where a reader is or has refused a packet.** -/
theorem live_exec (hl : Live h) {calls : List UpstreamCall} {ok : Bool}
    (hexec : While.Exec decodeTurn (h, x) calls (some (ok, h'))) : Live h' := by
  generalize hs : (h, x) = s, hr : some (ok, h') = r at hexec
  -- along the iterations of one call
  induction hexec generalizing h x with
  | leave hturn =>
      subst hs hr
      rcases hl with ⟨st, hrel⟩ | hd
      · obtain ⟨out, -, ok', h'', heq, hout⟩ := sim.leave (u := (st, x)) ⟨hrel, rfl⟩ hturn
        cases heq
        cases ok with
        | false => exact .inr (dead_of_leave hrel hturn)
        | true =>
            cases hout with
            | some hrel' => exact .inl ⟨_, hrel'⟩
      · by_cases hx : x = []
        · subst hx
          cases hturn
          exact .inr hd
        · obtain ⟨h'', hturn', hd'⟩ := hd.turn hx
          rw [hturn'] at hturn
          cases hturn
          exact .inr hd'
  | @turn s s' s'' es es' hturn hrest ih =>
      subst hs hr
      obtain ⟨h₁, x₁⟩ := s'
      refine ih ?_ rfl rfl
      rcases hl with ⟨st, hrel⟩ | hd
      · obtain ⟨t', -, hrel', -⟩ := sim.turn (u := (st, x)) ⟨hrel, rfl⟩ hturn
        exact .inl ⟨_, hrel'⟩
      · by_cases hx : x = []
        · subst hx
          cases hturn
        · obtain ⟨h'', hturn', -⟩ := hd.turn hx
          rw [hturn'] at hturn
          cases hturn

end dead

/-- The operations that send do not change what the decoder uses. -/
theorem World.sameRecv_step {κ : Type} {d : Downstream κ} {w w' : World κ} {op : SendOp} {ok : Bool}
    (h : w.step d op = some (ok, w')) : SameRecv w.handler w'.handler := by
  have hsame : SameRecv w.handler w.handler := ⟨rfl, rfl, rfl, rfl⟩
  have hping : ∀ {w w' : World κ} {ok : Bool}, w.sendPing d = some (ok, w') →
      SameRecv w.handler w'.handler := by
    intro w w' ok h
    rcases sendPing_cases h with ⟨-, -, rfl⟩ | ⟨-, bytes, heq⟩
    · exact ⟨rfl, rfl, rfl, rfl⟩
    · cases heq
      exact ⟨rfl, rfl, rfl, rfl⟩
  cases op with
  | sendConnect cleanSession keepaliveSeconds id willTopic willMessage user pass =>
      rcases sendConnect_cases h with ⟨-, rfl⟩ | ⟨-, bytes, heq⟩
      · exact hsame
      · cases heq
        exact ⟨rfl, rfl, rfl, rfl⟩
  | sendSubscribe topic =>
      rcases sendSubscribe_cases h with ⟨-, rfl⟩ | ⟨-, bytes, heq⟩
      · exact hsame
      · cases heq
        exact ⟨rfl, rfl, rfl, rfl⟩
  | sendPublishHeader topic messageLength =>
      obtain ⟨⟨messageId, ok', w₁⟩, hresult, heq⟩ := Option.map_eq_some_iff.1 h
      cases heq
      rcases sendPublishHeader_cases hresult with ⟨-, rfl⟩ | ⟨-, bytes, heq⟩
      · exact hsame
      · cases heq
        exact ⟨rfl, rfl, rfl, rfl⟩
  | sendPublishData data =>
      rcases sendPublishData_cases h with ⟨-, -, rfl⟩ | ⟨-, sent, w₁, heq, hrest⟩
      · exact hsame
      · have hfirst : SameRecv w.handler w₁.handler := by
          cases heq
          exact ⟨rfl, rfl, rfl, rfl⟩
        split at hrest
        · exact hfirst.trans (hping hrest)
        · rw [hrest.2]
          exact hfirst
  | sendPing => exact hping h
  | update nowUs =>
      rcases hconnected : d.isConnected w.env with ⟨connected, env⟩
      rw [step, update, hconnected] at h
      dsimp only at h
      split at h
      · split at h
        · -- the only update that does something sends a PINGREQ
          obtain ⟨⟨ok', w₁⟩, hresult, h⟩ := Option.bind_eq_some_iff.1 h
          cases h
          have hstamp : SameRecv w.handler
              ((⟨w.handler, env, w.handed⟩ : World κ).stamp d).handler := ⟨rfl, rfl, rfl, rfl⟩
          exact hstamp.trans (hping hresult)
        · cases h
          exact hsame
      · cases h
        exact hsame

/-- **Every state of a handler is that of a reader, or one in which it has refused a packet.** -/
theorem Reachable.live {κ : Type} {d : Downstream κ} {w : World κ} (hw : Reachable d w) :
    Live w.handler := by
  induction hw with
  | new recvBuffer env => exact .inl ⟨.start, rfl, Buffer.holds_nil _, rfl⟩
  | onConnected _ _ => exact .inl ⟨.start, rel_reset _ _⟩
  | onRecv _ hexec ih => exact live_exec ih hexec
  | send _ hstep ih => exact (World.sameRecv_step hstep).live ih
  | wait env _ ih => exact ih

/-- **The loop ends exactly when the data does not come to a packet of zero bytes.**  In every
state that a handler can be in, and for every chunk, the loop of `decode_data` returns, and never
makes two turns in a row that consume nothing, if and only if reading on from the bytes in the
buffer, packet by packet, the decoder does not come to a packet whose size is zero modulo
`2 ^ 32`. -/
theorem ends_iff {κ : Type} (d : Downstream κ) (w : World κ) (hw : Reachable d w)
    (x : List UInt8) : Ends w.handler x ↔ ¬ Hangs w.handler x := by
  rcases hw.live with ⟨st, hrel⟩ | hd
  · exact ⟨fun hends hhangs => not_ends hrel hhangs hends, ends_of_rel hrel⟩
  · exact iff_of_true hd.ends hd.not_hangs

/-- A PINGRESP, for a new handler. -/
theorem ends_iff_example : Ends zeroed [0xD0, 0] := by
  refine (ends_iff quiet ⟨zeroed, (), []⟩ (.new _ ()) [0xD0, 0]).2 fun hs => ?_
  have hhead : head [0xD0, 0] = .packet (some .onPingResp) 2 2 := by decide
  exact ((stuck_packet_iff hhead).1 hs).2.acted.1 rfl

/-- A PINGREQ whose remaining length is `2 ^ 32 - 6`: with the six bytes of its header its size is
zero, and the loop of a new handler makes the call of `on_ping_req` for ever. -/
theorem ping_for_ever :
    ¬ ∀ (d : Downstream Unit) (w : World Unit), Reachable d w → ∀ x, Ends w.handler x := by
  intro hall
  have hhead : head [0xC0, 0xFA, 0xFF, 0xFF, 0xFF, 0x0F] = .packet (some .onPingReq) 6 0 := by
    decide
  have hrel : Rel zeroed .start := ⟨rfl, Buffer.holds_nil _, rfl⟩
  exact not_ends hrel (.here hhead) (hall quiet ⟨zeroed, (), []⟩ (.new _ ()) _)

end Mqtt
