/-
**The handler is the reader.**

The handler of `PicoHttps/Mqtt/Handler.lean` keeps a buffer, an index and a count; the reader of
`PicoHttps/Mqtt/Reader.lean` keeps the bytes received.  An iteration of the loop of `decode_data`
is a turn of the reader, so a call of `on_recv` returns exactly when the reader does, with the
same calls and the same answer.

Main definitions:

* `Mqtt.Rel` — the states of the handler and of the reader that belong together;
* `Mqtt.Head.decoded` — what a decoder leaves, from the head of the bytes in the buffer.

Main results:

* `Mqtt.lengthLoop_eq`, `Mqtt.decodeBuffer_eq` — **a decoder does what the head says**;
* `Mqtt.sim` — an iteration of the loop is a turn of the reader;
* `Mqtt.fed_of_handler`, `Mqtt.fed_of_reader` — a handler and a reader that are fed the same
  chunks make the same calls and give the same answers.
-/

import PicoHttps.Mqtt.Reader

set_option relaxedAutoImplicit false
set_option autoImplicit false

namespace Mqtt

open MQTTSocketHandler

/-! ### The decoders -/

/-- The buffer of the handler holds exactly the bytes `Y`. -/
structure Buffered (h : MQTTSocketHandler) (Y : List UInt8) : Prop where
  holds : h.recvBuffer.Holds Y
  idx : h.recvBufferIdx = Y.length

section decoders

variable {h : MQTTSocketHandler}

/-- A byte of the buffer. -/
theorem Buffered.read {pre body : List UInt8} (hb : Buffered h (pre ++ body)) {pos : ℕ}
    (hpos : pos = pre.length) {k : ℕ} (hk : k < body.length) :
    h.recvBuffer.read (pos + k) = some body[k] := by
  subst hpos
  rw [hb.holds.read (by rw [List.length_append]; omega)]
  congr 1
  rw [List.getElem_append_right (by omega)]
  congr 1
  omega

/-- Two bytes of the buffer. -/
theorem Buffered.readTwo {pre body : List UInt8} {high low : UInt8}
    (hb : Buffered h (pre ++ high :: low :: body)) (pos : ℕ) (hpos : pos = pre.length) :
    h.readTwo pos = some (Bytes.beNat [high, low]) := by
  have h0 := hb.read hpos (k := 0) (by simp)
  have h1 := hb.read hpos (k := 1) (by simp)
  rw [Nat.add_zero] at h0
  rw [MQTTSocketHandler.readTwo, h0, h1, Bytes.beNat_two]
  simp [Nat.shiftLeft_eq]

/-- **The loop that reads the remaining length**, after the bytes `p` of it. -/
theorem lengthLoop_eq {b0 : UInt8} (turns : ℕ) : ∀ {p r : List UInt8},
    Buffered h (b0 :: (p ++ r)) → p.length + turns = 5 →
      h.lengthLoop turns p.length (Varint.value p % 2 ^ 32) =
        some ((Varint.field turns r).map fun f =>
          (p.length + f.length, Varint.value (p ++ f) % 2 ^ 32)) := by
  induction turns with
  | zero =>
      intro p r _ _
      simp [lengthLoop, Varint.field]
  | succ turns ih =>
      intro p r hb hturns
      cases r with
      | nil =>
          have hidx := hb.idx
          simp only [List.append_nil, List.length_cons] at hidx
          simp [lengthLoop, Varint.field, hidx]
      | cons b r =>
          have hidx := hb.idx
          simp only [List.length_cons, List.length_append] at hidx
          have hread : h.recvBuffer.read (p.length + 1) = some b :=
            (show Buffered h ((b0 :: p) ++ b :: r) from hb).read (k := 0) rfl (by simp)
          have hvalue : (Varint.value p % 2 ^ 32 +
              ((b &&& 0x7F).toNat <<< ((p.length + 1 - 1) * 7)) % 2 ^ 32) % 2 ^ 32 =
                Varint.value (p ++ [b]) % 2 ^ 32 := by
            rw [Varint.toNat_and_low, Nat.shiftLeft_eq, Varint.value_concat, Nat.add_sub_cancel,
              ← Nat.add_mod, Nat.mul_comm (b.toNat % 128), Nat.mul_comm p.length]
          rw [lengthLoop, if_neg (by omega), hread]
          simp only [hvalue, Option.bind_eq_bind, Option.bind_some]
          by_cases hbit : b &&& 0x80 = 0
          · rw [if_neg (by simp [hbit]), Varint.field_last hbit]
            rfl
          · rw [Varint.field_more hbit]
            by_cases hlast : p.length + 1 < 5
            · have hnext := ih (p := p ++ [b]) (r := r) (by simpa using hb) (by simp; omega)
              rw [List.length_append, List.length_singleton] at hnext
              rw [if_pos ⟨hbit, hlast⟩, hnext, Option.map_map]
              congr 2
              funext f
              simp [Nat.add_assoc, Nat.add_comm 1]
            · -- the fifth byte is the last one, whatever its top bit says
              obtain rfl : turns = 0 := by omega
              rw [if_neg (by simp [hlast])]
              rfl

/-- What a decoder leaves, from the head of the bytes in the buffer. -/
def Head.decoded (h : MQTTSocketHandler) (data : List UInt8) (startPosition : ℕ) :
    Head → Decoded
  | .more => consume h data [] data.length
  | .refused => ⟨h, data, [], false⟩
  | .publish topic messageId size n =>
    let calls := [.onPublishHeader topic messageId n]
    let h := { h with pendingDataLen := n, state := .WAIT_DATA, recvBufferIdx := 0 }
    if startPosition > size then ⟨h, data, calls, false⟩
    else consume h data calls (size - startPosition)
  | .packet call _ size =>
    if startPosition > size then ⟨h, data, [], false⟩
    else consume { h with recvBufferIdx := 0 } data call.toList (size - startPosition)

variable {data : List UInt8} {startPosition : ℕ}

/-- The bytes of the topic. -/
theorem Buffered.topic {pre body : List UInt8} (hb : Buffered h (pre ++ body)) (pos : ℕ)
    {len : ℕ} (hpos : pos = pre.length) (hlen : len ≤ body.length) :
    (h.recvBuffer.bytes.drop pos).take len = body.take len := by
  obtain ⟨z, hz⟩ := hb.holds
  rw [← hz, hpos, List.append_assoc, List.drop_left, List.take_append_of_le_length hlen]

theorem decodePublishHeader_eq {b0 : UInt8} {pre body : List UInt8} {pos msgSize : ℕ}
    (hb : Buffered h (b0 :: pre ++ body)) (hpos : pos = (b0 :: pre).length) :
    h.decodePublishHeader data msgSize pos startPosition =
      some ((publishHead b0 pos msgSize body).decoded h data startPosition) := by
  have hidx := hb.idx
  have hfull := hb.holds.length_le
  rw [List.length_append, ← hpos] at hidx hfull
  match body with
  -- the length of the topic has not arrived
  | [] =>
      rw [List.length_nil] at hidx
      rw [decodePublishHeader, if_pos (by omega)]
      rfl
  | [_] =>
      rw [List.length_singleton] at hidx
      rw [decodePublishHeader, if_pos (by omega)]
      rfl
  | t1 :: t0 :: rest =>
      simp only [List.length_cons] at hidx hfull
      have hlen := hb.readTwo _ hpos
      have hb0 : h.recvBuffer.read 0 = some b0 := hb.holds.read (i := 0) (by simp)
      have hb' : Buffered h ((b0 :: pre ++ [t1, t0]) ++ rest) := by simpa using hb
      rw [decodePublishHeader, if_neg (by omega), hlen]
      simp only [publishHead, Option.bind_eq_bind, Option.bind_some, hb0]
      generalize Bytes.beNat [t1, t0] = len
      by_cases hbig : pos + 2 + len ≥ MQTT_BUFFER_SIZE
      · rw [if_pos hbig, if_pos hbig]
        rfl
      · rw [if_neg hbig, if_neg hbig]
        by_cases hfew : rest.length < len
        · rw [if_pos (by omega), if_pos (by omega)]
          rfl
        · have htopic := hb'.topic (pos + 2) (by simp [hpos]) (Nat.le_of_not_lt hfew)
          rw [if_neg (by omega), htopic]
          by_cases hid : b0 &&& (MQTTQOS1 ||| MQTTQOS2) = 0
          · have hsize : ¬ (rest.length < len + 0 ∨ pos + 2 + len + 0 > MQTT_BUFFER_SIZE) := by omega
            have hbytes : idBytes b0 = 0 := if_pos hid
            rw [hbytes, if_neg hsize]
            simp only [hid, ne_eq, not_true_eq_false, false_and, if_false, Nat.add_zero,
              List.take_zero, Bytes.beNat_nil, Head.decoded]
            split <;> rfl
          · have hbytes : idBytes b0 = 2 := if_neg hid
            rw [hbytes]
            -- only here does the decoder wait for the message id
            by_cases hfew' : rest.length < len + 2
            · rw [if_pos ⟨hid, by omega⟩, if_pos (by omega)]
              rfl
            · obtain ⟨i1, i0, r, hdrop⟩ :=
                Bytes.exists_two (show 2 ≤ (rest.drop len).length by rw [List.length_drop]; omega)
              have hmessageId := (show Buffered h ((b0 :: pre ++ [t1, t0] ++ rest.take len) ++
                i1 :: i0 :: r) by rw [← hdrop, List.append_assoc, List.take_append_drop]
                                  exact hb').readTwo (pos + 2 + len) (by
                simp only [List.length_append, ← hpos, List.length_take]
                simp
                omega)
              have hsize : ¬ (rest.length < len + 2 ∨ pos + 2 + len + 2 > MQTT_BUFFER_SIZE) := by
                omega
              rw [if_neg (by omega), if_neg hsize, if_pos hid, hmessageId, hdrop]
              simp only [hid, ne_eq, not_false_eq_true, if_true, Head.decoded, List.take_succ_cons,
                List.take_zero, Option.bind_some]
              split <;> rfl

theorem decodeBuffered_eq {b0 : UInt8} {pre body : List UInt8} {pos pos' msgSize fields : ℕ}
    {call : Option (Option UpstreamCall)} (hb : Buffered h (b0 :: pre ++ body))
    (hpos : pos = (b0 :: pre).length) (hfields : fieldBytes b0 = fields)
    (hwait : pos' + fields > h.recvBufferIdx ↔ body.length < fields)
    (hcall : fields ≤ body.length → call = some (callOf b0 body)) :
    decodeBuffered fields call h data msgSize pos' startPosition =
      some ((packetHead b0 pos msgSize body).decoded h data startPosition) := by
  have hidx := hb.idx
  rw [List.length_append, ← hpos] at hidx
  unfold decodeBuffered packetHead
  rw [hfields]
  by_cases hbig : msgSize ≥ MQTT_BUFFER_SIZE
  · rw [if_pos hbig, if_pos hbig]
    rfl
  · rw [if_neg hbig, if_neg hbig]
    by_cases hfew : msgSize > h.recvBufferIdx
    · rw [if_pos hfew, if_pos (by omega)]
      rfl
    · rw [if_neg hfew]
      by_cases hbody : body.length < fields
      · rw [if_pos (hwait.2 hbody), if_pos (.inr hbody)]
        rfl
      · rw [if_neg (fun hc => hbody (hwait.1 hc)), if_neg (by omega), hcall (by omega)]
        simp only [Head.decoded, Option.bind_eq_bind, Option.bind_some]
        split <;> rfl

/-- A packet other than a PUBLISH is decoded as its head says. -/
theorem decodePacket_eq {b0 : UInt8} {pre body : List UInt8} {pos msgSize : ℕ}
    (hb : Buffered h (b0 :: pre ++ body)) (hpos : pos = (b0 :: pre).length) :
    (if b0 &&& 0xf0 = MQTTCONNACK then h.decodeConnAck data msgSize pos startPosition
    else if b0 &&& 0xf0 = MQTTSUBACK ∨ b0 &&& 0xf0 = MQTTPUBACK then
      h.decodePubsubAck data msgSize pos startPosition (b0 &&& 0xf0)
    else if b0 &&& 0xf0 = MQTTPINGRESP ∨ b0 &&& 0xf0 = MQTTPINGREQ then
      h.decodePing data msgSize startPosition (b0 &&& 0xf0)
    else h.decodeUnhandled data msgSize startPosition) =
      some ((packetHead b0 pos msgSize body).decoded h data startPosition) := by
  have hidx := hb.idx
  rw [List.length_append, ← hpos] at hidx
  have hacks : pos + 2 > h.recvBufferIdx ↔ body.length < 2 := by omega
  have hnone : 0 + 0 > h.recvBufferIdx ↔ body.length < 0 := by omega
  by_cases h1 : b0 &&& 0xf0 = MQTTCONNACK
  · rw [if_pos h1]
    refine decodeBuffered_eq hb hpos (if_pos (.inl h1)) hacks fun hlen => ?_
    have hflags := hb.read hpos (k := 0) (by omega)
    have hcode := hb.read hpos (k := 1) (by omega)
    rw [Nat.add_zero] at hflags
    rw [hflags, hcode, callOf, if_pos h1]
    simp [List.getD_eq_getElem?_getD, List.getElem?_eq_getElem (show 0 < body.length by omega),
      List.getElem?_eq_getElem (show 1 < body.length by omega)]
  · rw [if_neg h1]
    by_cases h2 : b0 &&& 0xf0 = MQTTSUBACK ∨ b0 &&& 0xf0 = MQTTPUBACK
    · rw [if_pos h2]
      refine decodeBuffered_eq hb hpos (if_pos (.inr h2)) hacks fun hlen => ?_
      obtain ⟨high, low, body, rfl⟩ := Bytes.exists_two hlen
      rw [hb.readTwo _ hpos, callOf, if_neg h1]
      simp only [Option.bind_eq_bind, Option.bind_some, List.take_succ_cons, List.take_zero]
      by_cases h3 : b0 &&& 0xf0 = MQTTPUBACK
      · rw [if_pos h3, if_pos h3]
        rfl
      · rw [if_neg h3, if_neg h3, if_pos (h2.resolve_right h3)]
        rfl
    · obtain ⟨h3, h4⟩ := not_or.1 h2
      have hfields : fieldBytes b0 = 0 := if_neg (by simp [h1, h3, h4])
      have hcall : callOf b0 body = if b0 &&& 0xf0 = MQTTPINGRESP then some .onPingResp
          else if b0 &&& 0xf0 = MQTTPINGREQ then some .onPingReq else none := by
        rw [callOf, if_neg h1, if_neg h4, if_neg h3]
      rw [if_neg h2]
      split
      · exact decodeBuffered_eq hb hpos hfields hnone fun _ => by rw [hcall]
      · rename_i h5
        obtain ⟨h6, h7⟩ := not_or.1 h5
        refine decodeBuffered_eq hb hpos hfields hnone fun _ => ?_
        rw [hcall, if_neg h6, if_neg h7]

/-- **A decoder does what the head of the bytes in the buffer says.** -/
theorem decodeBuffer_eq {Y : List UInt8} (hb : Buffered h Y) :
    h.decodeBuffer data startPosition = some ((head Y).decoded h data startPosition) := by
  have hidx := hb.idx
  match Y with
  | [] =>
      rw [decodeBuffer, if_pos (by rw [hidx]; simp)]
      rfl
  | [_] =>
      rw [decodeBuffer, if_pos (by rw [hidx]; simp)]
      rfl
  | b0 :: b1 :: rest =>
      have hloop := lengthLoop_eq (p := []) (r := b1 :: rest) 5 hb rfl
      rw [decodeBuffer, if_neg (by rw [hidx]; simp)]
      simp only [List.length_nil, Varint.value_nil, Nat.zero_mod, List.nil_append,
        Nat.zero_add] at hloop
      rw [hloop]
      cases hf : Varint.field 5 (b1 :: rest) with
      | none =>
          rw [head_none hf]
          rfl
      | some f =>
          obtain ⟨body, hbody⟩ := Varint.field_prefix hf
          have hb' : Buffered h (b0 :: f ++ body) := by rwa [List.cons_append, hbody]
          have hb0 : h.recvBuffer.read 0 = some b0 := hb.holds.read (i := 0) (by simp)
          have hsize : (Varint.value f % 2 ^ 32 + (f.length + 1)) % 2 ^ 32 =
              (Varint.value f + (1 + f.length)) % 2 ^ 32 := by omega
          rw [head_some hf, ← hbody, List.drop_left, bodyHead]
          simp only [Option.map_some, Option.bind_eq_bind, Option.bind_some, hb0, hsize]
          rw [Nat.add_comm f.length 1]
          by_cases hp : b0 &&& 0xf0 = MQTTPUBLISH
          · rw [if_pos hp, if_pos hp]
            exact decodePublishHeader_eq hb' (by simp [Nat.add_comm])
          · rw [if_neg hp, if_neg hp]
            exact decodePacket_eq hb' (by simp [Nat.add_comm])

end decoders

/-! ### An iteration of the loop -/

/-- The states of the handler and of the reader that belong together. -/
def Rel (h : MQTTSocketHandler) : St → Prop
  | .buffering B => h.state = .WAIT_PACKET ∧ Buffered h (B.bytes.take MQTT_BUFFER_SIZE)
  | .payload n => h.state = .WAIT_DATA ∧ h.pendingDataLen = n ∧ h.recvBufferIdx = 0

theorem rel_reset (h : MQTTSocketHandler) (now : UInt64) : Rel (h.reset now) .start :=
  ⟨rfl, Buffer.holds_nil _, rfl⟩

/-- The handler with other bytes in its buffer. -/
def MQTTSocketHandler.withBuffer (h : MQTTSocketHandler) (buffer : Buffer MQTT_BUFFER_SIZE)
    (idx : ℕ) : MQTTSocketHandler := { h with recvBuffer := buffer, recvBufferIdx := idx }

@[simp] theorem withBuffer_state {h : MQTTSocketHandler} {buffer : Buffer MQTT_BUFFER_SIZE}
    {idx : ℕ} : (h.withBuffer buffer idx).state = h.state := rfl

/-- The data is appended to the bytes in the buffer, as far as there is room. -/
theorem decodeHeader_eq {h : MQTTSocketHandler} {B : List UInt8}
    (hb : Buffered h (B.take MQTT_BUFFER_SIZE)) (x : List UInt8) :
    ∃ buffer idx, Buffered (h.withBuffer buffer idx) ((B ++ x).take MQTT_BUFFER_SIZE) ∧
      h.decodeHeader x = some ((head (B ++ x)).decoded (h.withBuffer buffer idx) x
        (B.take MQTT_BUFFER_SIZE).length) := by
  have hidx := hb.idx
  have hlen := List.length_take (i := MQTT_BUFFER_SIZE) (l := B)
  have htake : x.take (min x.length (MQTT_BUFFER_SIZE - h.recvBufferIdx)) =
      x.take (MQTT_BUFFER_SIZE - B.length) := by
    rw [hidx, hlen, Nat.min_comm, ← List.take_take, List.take_length]
    congr 1
    omega
  have hadd : (B ++ x).take MQTT_BUFFER_SIZE =
      B.take MQTT_BUFFER_SIZE ++ x.take (MQTT_BUFFER_SIZE - B.length) := List.take_append
  have hroom : (x.take (MQTT_BUFFER_SIZE - B.length)).length ≤ MQTT_BUFFER_SIZE - B.length :=
    List.length_take_le _ _
  obtain ⟨buffer, hcopy, hholds⟩ := hb.holds.memcpy
    (x.take (MQTT_BUFFER_SIZE - B.length)) (by omega)
  let h' : MQTTSocketHandler :=
    h.withBuffer buffer (h.recvBufferIdx + min x.length (MQTT_BUFFER_SIZE - h.recvBufferIdx))
  have hb' : Buffered h' ((B ++ x).take MQTT_BUFFER_SIZE) := by
    refine ⟨hadd ▸ hholds, ?_⟩
    rw [hadd, List.length_append, ← hidx, ← htake, List.length_take]
    simp only [h', withBuffer]
    omega
  refine ⟨_, _, hb', ?_⟩
  rw [← head_take, ← decodeBuffer_eq hb', decodeHeader, htake, hidx, hcopy]
  simp only [Option.bind_eq_bind, Option.bind_some, h', withBuffer, hidx]

/-- What is left of the bytes of a packet and of the data when its first `size` bytes are
dropped. -/
theorem drop_pending {B x : List UInt8} {size : ℕ} (h : B.length ≤ size) :
    (B ++ x).drop size = x.drop (size - B.length) := by
  rw [List.drop_append, List.drop_eq_nil_of_le h, List.nil_append]

section decoded

variable {h : MQTTSocketHandler} {data : List UInt8} {startPosition size : ℕ}

theorem decoded_more : Head.more.decoded h data startPosition = ⟨h, [], [], true⟩ := by
  rw [Head.decoded, consume, if_neg (Nat.lt_irrefl _), List.drop_length]

theorem decoded_publish {topic : List UInt8} {messageId n : ℕ} (hstart : startPosition ≤ size)
    (hlen : size - startPosition ≤ data.length) :
    (Head.publish topic messageId size n).decoded h data startPosition =
      ⟨{ h with pendingDataLen := n, state := .WAIT_DATA, recvBufferIdx := 0 },
        data.drop (size - startPosition), [.onPublishHeader topic messageId n], true⟩ := by
  rw [Head.decoded, if_neg (by omega), consume, if_neg (by omega)]

theorem decoded_packet {call : Option UpstreamCall} {need : ℕ} (hstart : startPosition ≤ size)
    (hlen : size - startPosition ≤ data.length) :
    (Head.packet call need size).decoded h data startPosition =
      ⟨{ h with recvBufferIdx := 0 }, data.drop (size - startPosition), call.toList, true⟩ := by
  rw [Head.decoded, if_neg (by omega), consume, if_neg (by omega)]

/-- More bytes of the packet than it has were in the buffer already. -/
theorem decoded_packet_back {call : Option UpstreamCall} {need : ℕ}
    (hstart : size < startPosition) :
    (Head.packet call need size).decoded h data startPosition = ⟨h, data, [], false⟩ := by
  rw [Head.decoded, if_pos hstart]

end decoded

section decodeTurn

variable {h : MQTTSocketHandler} {x : List UInt8}

theorem decodeTurn_nil : decodeTurn (h, []) = ([], .inr (some (true, h))) := rfl

theorem decodeTurn_packet (hx : x ≠ []) (hst : h.state = .WAIT_PACKET) {d : Decoded}
    (hd : h.decodeHeader x = some d) :
    decodeTurn (h, x) = if d.ok then (d.calls, .inl (d.handler, d.data))
      else (d.calls, .inr (some (false, d.handler))) := by
  rw [decodeTurn, if_pos (List.length_pos_of_ne_nil hx)]
  simp only [hst, hd]

theorem decodeTurn_data (hx : x ≠ []) (hst : h.state = .WAIT_DATA) :
    decodeTurn (h, x) =
      if x.length < h.pendingDataLen then
        ([.onPublishData x false],
          .inl ({ h with pendingDataLen := h.pendingDataLen - x.length }, []))
      else ([.onPublishData (x.take h.pendingDataLen) true],
        .inl ({ h with pendingDataLen := 0, state := .WAIT_PACKET }, x.drop h.pendingDataLen)) := by
  rw [decodeTurn, if_pos (List.length_pos_of_ne_nil hx)]
  simp only [hst]
  by_cases hlt : x.length < h.pendingDataLen
  · have hne : x.length ≠ h.pendingDataLen := by omega
    have hleft : h.pendingDataLen - x.length ≠ 0 := by omega
    simp only [hlt, hleft, if_true, if_false, List.take_length, List.drop_length,
      beq_eq_false_iff_ne.2 hne]
  · simp only [hlt, if_false, Nat.sub_self, if_true, beq_self_eq_true]

end decodeTurn

/-- The answer and the handler left stand for what the reader leaves. -/
def Left (r : Option (Bool × MQTTSocketHandler)) (out : Option St) : Prop :=
  ∃ ok h, r = some (ok, h) ∧ Option.Rel Rel (if ok then some h else none) out

/-- **An iteration of the loop is a turn of the reader.** -/
theorem sim : While.Sim decodeTurn readTurn (fun s s' => Rel s.1 s'.1 ∧ s.2 = s'.2) Left := by
  rintro ⟨h, x⟩ ⟨st, x'⟩ ⟨hrel, hxx⟩
  obtain rfl : x = x' := hxx
  by_cases hx : x = []
  · subst hx
    rw [readTurn_nil, decodeTurn_nil]
    exact ⟨rfl, .inr ⟨true, h, rfl, .some hrel⟩⟩
  cases st with
  | payload n =>
      obtain ⟨hst, rfl, hidx⟩ := hrel
      rw [readTurn_payload hx, decodeTurn_data hx hst]
      split
      · exact ⟨rfl, .inl ⟨⟨hst, rfl, hidx⟩, rfl⟩⟩
      · exact ⟨rfl, .inl ⟨⟨rfl, Buffer.holds_nil _, hidx⟩, rfl⟩⟩
  | buffering B =>
      obtain ⟨hst, hb⟩ := hrel
      obtain ⟨buffer, idx, hb', hdec⟩ := decodeHeader_eq hb x
      have hst' : (h.withBuffer buffer idx).state = .WAIT_PACKET := hst
      generalize h.withBuffer buffer idx = h' at hb' hdec hst'
      rw [decodeTurn_packet hx hst hdec]
      have hneed := head_need B.bytes x
      have hlen : (B.bytes ++ x).length = B.bytes.length + x.length := List.length_append
      have hstart := List.length_take (i := MQTT_BUFFER_SIZE) (l := B.bytes)
      cases hhead : head (B.bytes ++ x) with
      | more =>
          rw [readTurn_more hx hhead, decoded_more]
          exact ⟨rfl, .inl ⟨⟨hst', hb'⟩, rfl⟩⟩
      | refused =>
          rw [readTurn_refused hx hhead]
          exact ⟨rfl, .inr ⟨false, h', rfl, .none⟩⟩
      | publish topic messageId size n =>
          obtain ⟨-, hle⟩ := publish_size hhead
          rw [hhead] at hneed
          obtain ⟨-, hmax, hlt⟩ := hneed (by nofun)
          have hlt : 0 + B.bytes.length < size := hlt B.more
          have hmax : size ≤ MQTT_BUFFER_SIZE := hmax
          have hstart' : (B.bytes.take MQTT_BUFFER_SIZE).length = B.bytes.length := by omega
          rw [readTurn_publish hx hhead, drop_pending (by omega), hstart',
            decoded_publish (by omega) (by omega)]
          exact ⟨rfl, .inl ⟨⟨rfl, rfl, rfl⟩, rfl⟩⟩
      | packet call need size =>
          obtain ⟨hsize, hle, -⟩ := packet_size hhead
          rw [hhead] at hneed
          obtain ⟨-, hmax, hlt⟩ := hneed (by nofun)
          have hlt : 0 + B.bytes.length < need := hlt B.more
          have hmax : need ≤ MQTT_BUFFER_SIZE := hmax
          have hstart' : (B.bytes.take MQTT_BUFFER_SIZE).length = B.bytes.length := by omega
          rw [readTurn_packet hx hhead, hstart']
          -- the packet ends before the data of this call starts
          by_cases hback : size < B.bytes.length
          · rw [if_pos hback, decoded_packet_back hback]
            exact ⟨rfl, .inr ⟨false, h', rfl, .none⟩⟩
          · rw [if_neg hback, decoded_packet (by omega) (by omega), drop_pending (by omega)]
            exact ⟨rfl, .inl ⟨⟨hst', Buffer.holds_nil _, rfl⟩, rfl⟩⟩

/-! ### A call of `on_recv`, and a sequence of them -/

/-- A call of `on_recv` that returns is followed by the reader. -/
theorem read_of_onRecv {h : MQTTSocketHandler} {st : St} (hrel : Rel h st) {x : List UInt8}
    {calls : List UpstreamCall} {answer : Option MQTTSocketHandler}
    (hrecv : OnRecv h x calls answer) : ∃ out, Read st x calls out ∧ Option.Rel Rel answer out := by
  obtain ⟨ok, h', hexec, rfl⟩ := hrecv
  obtain ⟨out, hread, ok', h'', heq, hout⟩ := sim.exec hexec (st, x) ⟨hrel, rfl⟩
  cases heq
  exact ⟨out, hread, hout⟩

/-- Where the reader returns, `on_recv` does. -/
theorem onRecv_of_read {h : MQTTSocketHandler} {st : St} (hrel : Rel h st) {x : List UInt8}
    {calls : List UpstreamCall} {out : Option St} (hread : Read st x calls out) :
    ∃ answer, OnRecv h x calls answer ∧ Option.Rel Rel answer out := by
  obtain ⟨r, hexec, ok, h', rfl, hout⟩ := sim.symm.exec hread (h, x) ⟨hrel, rfl⟩
  exact ⟨_, ⟨ok, h', hexec, rfl⟩, hout⟩

/-- **A handler that is fed chunks makes the calls of the reader**, and gives its answers. -/
theorem fed_of_handler {h : MQTTSocketHandler} {st : St} (hrel : Rel h st)
    {cs : List (List UInt8)} {calls : List UpstreamCall} {answer : Option MQTTSocketHandler}
    (hfed : Chunk.Fed OnRecv h cs calls answer) :
    ∃ out, Chunk.Fed Read st cs calls out ∧ Option.Rel Rel answer out := by
  have hstep : ∀ {h st x calls answer}, Rel h st → OnRecv h x calls answer →
      ∃ out, Read st x calls out ∧ Option.Rel Rel answer out :=
    fun hr ho => read_of_onRecv hr ho
  exact hfed.map hstep hrel

/-- Where the reader returns from every chunk, the handler does. -/
theorem fed_of_reader {h : MQTTSocketHandler} {st : St} (hrel : Rel h st)
    {cs : List (List UInt8)} {calls : List UpstreamCall} {out : Option St}
    (hfed : Chunk.Fed Read st cs calls out) :
    ∃ answer, Chunk.Fed OnRecv h cs calls answer ∧ Option.Rel Rel answer out := by
  have hstep : ∀ {st h x calls out}, flip Rel st h → Read st x calls out →
      ∃ answer, OnRecv h x calls answer ∧ Option.Rel (flip Rel) out answer := by
    intro st h x calls out hr hread
    obtain ⟨answer, ha, hout⟩ := onRecv_of_read hr hread
    refine ⟨answer, ha, ?_⟩
    cases hout with
    | some hr => exact .some hr
    | none => exact .none
  obtain ⟨answer, hans, hr⟩ := hfed.map hstep (show flip Rel st h from hrel)
  refine ⟨answer, hans, ?_⟩
  cases hr with
  | some hr => exact .some hr
  | none => exact .none

end Mqtt
