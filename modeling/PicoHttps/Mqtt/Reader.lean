/-
**Reading an MQTT stream.**

The handler decodes a packet from the bytes received since the packet began.  What it makes of
them is a function of these bytes alone: `Mqtt.head` says whether they are too few, or refused, or
which call of the upstream interface they cause and where the handler goes on.  A reader that
keeps the bytes themselves, instead of a buffer and an index, is a loop over such heads.

The length of a packet and the number of bytes that must have arrived before it is acted upon are
two different numbers, and the second one may be larger.

Main definitions:

* `Mqtt.Head`, `Mqtt.head` — **what the bytes of a packet received so far amount to**;
* `Mqtt.St`, `Mqtt.readTurn` — the reader;
* `Mqtt.gather` — calls of `on_publish_data` that follow each other, joined.

Main results:

* `Mqtt.head_append` — a head that has been read does not depend on what follows it;
* `Mqtt.need_of_append` — the packet is acted upon as soon as the bytes needed are there;
* `Mqtt.head_take` — only the first 256 bytes count;
* `Mqtt.gather_congr` — joining respects concatenation.
-/

import PicoHttps.Basics.Chunked
import PicoHttps.Basics.Varint
import PicoHttps.Mqtt.Handler

set_option relaxedAutoImplicit false
set_option autoImplicit false

namespace Mqtt

/-! ### The head of a packet -/

/-- What the bytes of a packet received so far amount to. -/
inductive Head
  /-- they are too few -/
  | more
  /-- the packet is refused -/
  | refused
  /-- a PUBLISH whose header has `size` bytes, before a payload of `payload` bytes -/
  | publish (topic : List UInt8) (messageId size payload : ℕ)
  /-- a packet of `size` bytes that causes the call, once `need` bytes have arrived -/
  | packet (call : Option UpstreamCall) (need size : ℕ)
  deriving DecidableEq, Repr

/-- The number of bytes after the fixed header that are read from a packet with first byte `b0`. -/
def fieldBytes (b0 : UInt8) : ℕ :=
  if b0 &&& 0xf0 = MQTTCONNACK ∨ b0 &&& 0xf0 = MQTTSUBACK ∨ b0 &&& 0xf0 = MQTTPUBACK then 2 else 0

/-- The call that a packet causes, from its first byte and the bytes after its fixed header. -/
def callOf (b0 : UInt8) (body : List UInt8) : Option UpstreamCall :=
  if b0 &&& 0xf0 = MQTTCONNACK then some (.onConnAck (body.getD 1 0) (body.getD 0 0))
  else if b0 &&& 0xf0 = MQTTPUBACK then some (.onPubAck (Bytes.beNat (body.take 2)))
  else if b0 &&& 0xf0 = MQTTSUBACK then some (.onSubAck (Bytes.beNat (body.take 2)))
  else if b0 &&& 0xf0 = MQTTPINGRESP then some .onPingResp
  else if b0 &&& 0xf0 = MQTTPINGREQ then some .onPingReq
  else none

/-- The number of bytes of the message id of a PUBLISH with first byte `b0`. -/
def idBytes (b0 : UInt8) : ℕ := if b0 &&& (MQTTQOS1 ||| MQTTQOS2) = 0 then 0 else 2

theorem idBytes_eq (b0 : UInt8) : idBytes b0 = 0 ∨ idBytes b0 = 2 := by
  rw [idBytes]
  split
  · exact .inl rfl
  · exact .inr rfl

/-- The head of a PUBLISH with `pos` bytes of fixed header, from the bytes after it. -/
def publishHead (b0 : UInt8) (pos msgSize : ℕ) : List UInt8 → Head
  | t1 :: t0 :: rest =>
    let topicLength := Bytes.beNat [t1, t0]
    let size := pos + 2 + topicLength + idBytes b0
    if pos + 2 + topicLength ≥ MQTT_BUFFER_SIZE then .refused
    else if rest.length < topicLength + idBytes b0 ∨ size > MQTT_BUFFER_SIZE then .more
    else .publish (rest.take topicLength)
      (Bytes.beNat ((rest.drop topicLength).take (idBytes b0))) size
      ((msgSize + 2 ^ 32 - size) % 2 ^ 32)
  | _ => .more

/-- The head of another packet with `pos` bytes of fixed header, from the bytes after it. -/
def packetHead (b0 : UInt8) (pos msgSize : ℕ) (body : List UInt8) : Head :=
  if msgSize ≥ MQTT_BUFFER_SIZE then .refused
  else if pos + body.length < msgSize ∨ body.length < fieldBytes b0 then .more
  else .packet (callOf b0 body) (max msgSize (pos + fieldBytes b0)) msgSize

/-- The head of a packet with `pos` bytes of fixed header, from the bytes after it. -/
def bodyHead (b0 : UInt8) (pos msgSize : ℕ) (body : List UInt8) : Head :=
  if b0 &&& 0xf0 = MQTTPUBLISH then publishHead b0 pos msgSize body
  else packetHead b0 pos msgSize body

/-- **What the bytes of a packet received so far amount to.** -/
def head : List UInt8 → Head
  | [] => .more
  | b0 :: rest =>
    match Varint.field 5 rest with
    | none => .more
    | some f => bodyHead b0 (1 + f.length) ((Varint.value f + (1 + f.length)) % 2 ^ 32)
        (rest.drop f.length)

theorem head_none {b0 : UInt8} {rest : List UInt8} (h : Varint.field 5 rest = none) :
    head (b0 :: rest) = .more := by
  simp only [head, h]

theorem head_some {b0 : UInt8} {rest f : List UInt8} (h : Varint.field 5 rest = some f) :
    head (b0 :: rest) = bodyHead b0 (1 + f.length) ((Varint.value f + (1 + f.length)) % 2 ^ 32)
      (rest.drop f.length) := by
  simp only [head, h]

/-- The number of bytes that a head has been read from, at most. -/
def Head.need : Head → ℕ
  | .more => 0
  | .refused => 8
  | .publish _ _ size _ => size
  | .packet _ need _ => need

theorem callOf_append {b0 : UInt8} {body : List UInt8} (h : fieldBytes b0 ≤ body.length)
    (ys : List UInt8) : callOf b0 (body ++ ys) = callOf b0 body := by
  by_cases hf : fieldBytes b0 = 2
  · match body with
    | [] => simp [hf] at h
    | [_] => simp [hf] at h
    | _ :: _ :: _ => rfl
  · have hno : ¬ (b0 &&& 0xf0 = MQTTCONNACK ∨ b0 &&& 0xf0 = MQTTSUBACK ∨
        b0 &&& 0xf0 = MQTTPUBACK) := fun hc => hf (if_pos hc)
    obtain ⟨h1, h2, h3⟩ := not_or.1 hno |>.imp id not_or.1
    simp only [callOf, h1, h2, h3, if_false]

/-! ### Bytes that arrive later -/

theorem publishHead_append {b0 : UInt8} {pos msgSize : ℕ} {body : List UInt8}
    (h : publishHead b0 pos msgSize body ≠ .more) (ys : List UInt8) :
    publishHead b0 pos msgSize (body ++ ys) = publishHead b0 pos msgSize body := by
  match body with
  | [] => exact absurd rfl h
  | [_] => exact absurd rfl h
  | t1 :: t0 :: rest =>
      simp only [publishHead, List.cons_append] at h ⊢
      by_cases hbig : pos + 2 + Bytes.beNat [t1, t0] ≥ MQTT_BUFFER_SIZE
      · rw [if_pos hbig, if_pos hbig]
      · rw [if_neg hbig] at h
        rw [if_neg hbig, if_neg hbig]
        by_cases hfew : rest.length < Bytes.beNat [t1, t0] + idBytes b0 ∨
            pos + 2 + Bytes.beNat [t1, t0] + idBytes b0 > MQTT_BUFFER_SIZE
        · exact absurd (if_pos hfew) h
        · have hlen : Bytes.beNat [t1, t0] + idBytes b0 ≤ rest.length := by omega
          rw [if_neg hfew, if_neg (by rw [List.length_append]; omega),
            List.take_append_of_le_length (by omega), List.drop_append_of_le_length (by omega),
            List.take_append_of_le_length (by rw [List.length_drop]; omega)]

theorem packetHead_append {b0 : UInt8} {pos msgSize : ℕ} {body : List UInt8}
    (h : packetHead b0 pos msgSize body ≠ .more) (ys : List UInt8) :
    packetHead b0 pos msgSize (body ++ ys) = packetHead b0 pos msgSize body := by
  unfold packetHead at h ⊢
  by_cases hbig : msgSize ≥ MQTT_BUFFER_SIZE
  · rw [if_pos hbig, if_pos hbig]
  · rw [if_neg hbig] at h
    rw [if_neg hbig, if_neg hbig]
    by_cases hfew : pos + body.length < msgSize ∨ body.length < fieldBytes b0
    · exact absurd (if_pos hfew) h
    · rw [if_neg hfew, if_neg (by rw [List.length_append]; omega), callOf_append (by omega)]

theorem bodyHead_append {b0 : UInt8} {pos msgSize : ℕ} {body : List UInt8}
    (h : bodyHead b0 pos msgSize body ≠ .more) (ys : List UInt8) :
    bodyHead b0 pos msgSize (body ++ ys) = bodyHead b0 pos msgSize body := by
  by_cases hp : b0 &&& 0xf0 = MQTTPUBLISH
  · simp only [bodyHead, hp, if_true] at h ⊢
    exact publishHead_append h ys
  · simp only [bodyHead, hp, if_false] at h ⊢
    exact packetHead_append h ys

/-- **A head that has been read does not depend on what follows it.** -/
theorem head_append {xs : List UInt8} (h : head xs ≠ .more) (ys : List UInt8) :
    head (xs ++ ys) = head xs := by
  cases xs with
  | nil => exact absurd rfl h
  | cons b0 rest =>
      cases hf : Varint.field 5 rest with
      | none => exact absurd (head_none hf) h
      | some f =>
          have hle := (Varint.field_prefix hf).length_le
          rw [head_some hf] at h
          rw [List.cons_append, head_some hf, head_some (Varint.field_append hf ys),
            List.drop_append_of_le_length hle, bodyHead_append h]

/-- A head is read from at least `pos` and at most 256 bytes, and fewer bytes than it needs are
too few. -/
def NeedOk (pos : ℕ) (read : List UInt8 → Head) : Prop :=
  ∀ xs ys, read (xs ++ ys) ≠ .more →
    pos ≤ (read (xs ++ ys)).need ∧ (read (xs ++ ys)).need ≤ MQTT_BUFFER_SIZE ∧
      (read xs = .more → pos + xs.length < (read (xs ++ ys)).need)

theorem publishHead_need (b0 : UInt8) {pos : ℕ} (msgSize : ℕ) (hpos : pos ≤ 6) :
    NeedOk pos (publishHead b0 pos msgSize) := by
  intro xs ys
  have hsize : MQTT_BUFFER_SIZE = 256 := rfl
  generalize hbody : xs ++ ys = body
  match body with
  | [] => exact fun h => absurd rfl h
  | [_] => exact fun h => absurd rfl h
  | t1 :: t0 :: rest =>
      intro h
      simp only [publishHead] at h ⊢
      by_cases hbig : pos + 2 + Bytes.beNat [t1, t0] ≥ MQTT_BUFFER_SIZE
      · rw [if_pos hbig]
        refine ⟨by simp only [Head.need]; omega, by simp only [Head.need]; omega, ?_⟩
        intro hmore
        -- with both bytes of the topic length, `xs` would have been refused, too
        match xs with
        | [] => simp only [Head.need, List.length_nil]; omega
        | [_] => simp only [Head.need, List.length_singleton]; omega
        | _ :: _ :: zs =>
            cases hbody
            simp only [if_pos hbig] at hmore
            cases hmore
      · rw [if_neg hbig] at h ⊢
        by_cases hfew : rest.length < Bytes.beNat [t1, t0] + idBytes b0 ∨
            pos + 2 + Bytes.beNat [t1, t0] + idBytes b0 > MQTT_BUFFER_SIZE
        · exact absurd (if_pos hfew) h
        · rw [if_neg hfew]
          refine ⟨by simp only [Head.need]; omega, by simp only [Head.need]; omega, ?_⟩
          intro hmore
          simp only [Head.need]
          match xs with
          | [] => simp only [List.length_nil]; omega
          | [_] => simp only [List.length_singleton]; omega
          | _ :: _ :: zs =>
              cases hbody
              simp only [if_neg hbig] at hmore
              by_cases hz : zs.length < Bytes.beNat [t1, t0] + idBytes b0
              · simp only [List.length_cons]
                omega
              · rw [if_neg (by omega)] at hmore
                cases hmore

theorem packetHead_need (b0 : UInt8) {pos : ℕ} (msgSize : ℕ) (hpos : pos ≤ 6) :
    NeedOk pos (packetHead b0 pos msgSize) := by
  intro xs ys h
  have hsize : MQTT_BUFFER_SIZE = 256 := rfl
  have hfields : fieldBytes b0 ≤ 2 := by unfold fieldBytes; split <;> omega
  unfold packetHead at h ⊢
  by_cases hbig : msgSize ≥ MQTT_BUFFER_SIZE
  · rw [if_pos hbig, if_pos hbig]
    refine ⟨by simp only [Head.need]; omega, by simp only [Head.need]; omega, ?_⟩
    intro hmore
    cases hmore
  · rw [if_neg hbig] at h
    rw [if_neg hbig, if_neg hbig]
    by_cases hfew : pos + (xs ++ ys).length < msgSize ∨ (xs ++ ys).length < fieldBytes b0
    · exact absurd (if_pos hfew) h
    · rw [if_neg hfew]
      refine ⟨by simp only [Head.need]; omega, by simp only [Head.need]; omega, ?_⟩
      intro hmore
      simp only [Head.need]
      by_cases hx : pos + xs.length < msgSize ∨ xs.length < fieldBytes b0
      · omega
      · rw [if_neg hx] at hmore
        cases hmore

theorem bodyHead_need (b0 : UInt8) {pos : ℕ} (msgSize : ℕ) (hpos : pos ≤ 6) :
    NeedOk pos (bodyHead b0 pos msgSize) := by
  by_cases hp : b0 &&& 0xf0 = MQTTPUBLISH
  · have hread : bodyHead b0 pos msgSize = publishHead b0 pos msgSize :=
      funext fun _ => if_pos hp
    exact hread ▸ publishHead_need b0 msgSize hpos
  · have hread : bodyHead b0 pos msgSize = packetHead b0 pos msgSize :=
      funext fun _ => if_neg hp
    exact hread ▸ packetHead_need b0 msgSize hpos

/-- **The bytes that a head needs decide it**: they are at most 256, and fewer are too few. -/
theorem head_need : NeedOk 0 head := by
  intro xs ys h
  generalize hall : xs ++ ys = all
  rw [hall] at h
  cases all with
  | nil => exact absurd rfl h
  | cons b0 rest =>
      cases hf : Varint.field 5 rest with
      | none => exact absurd (head_none hf) h
      | some f =>
          have hlen := Varint.field_length hf
          rw [head_some hf] at h ⊢
          have hok := bodyHead_need b0 ((Varint.value f + (1 + f.length)) % 2 ^ 32)
            (show 1 + f.length ≤ 6 by omega)
          obtain ⟨hpos, hle, -⟩ := hok [] (rest.drop f.length) h
          rw [List.nil_append] at hpos hle
          refine ⟨Nat.zero_le _, hle, ?_⟩
          intro hmore
          rw [Nat.zero_add]
          cases xs with
          | nil => simp only [List.length_nil]; omega
          | cons b xs =>
              rw [List.cons_append] at hall
              obtain ⟨rfl, rfl⟩ := List.cons.inj hall
              rw [List.length_cons]
              by_cases hin : f.length ≤ xs.length
              · -- the length is complete in `xs`: the bytes after it decide
                rw [head_some (Varint.field_of_append hf hin)] at hmore
                rw [List.drop_append_of_le_length hin] at h ⊢
                have := (hok (xs.drop f.length) ys h).2.2 hmore
                rw [List.length_drop] at this
                omega
              · omega

/-- What a head says holds as soon as the bytes it needs are there. -/
theorem head_of_append {xs : List UInt8} (ys : List UInt8)
    (hlen : (head (xs ++ ys)).need ≤ xs.length) : head xs = head (xs ++ ys) := by
  by_cases hxs : head xs = .more
  · by_cases h : head (xs ++ ys) = .more
    · rw [h, hxs]
    · have := (head_need xs ys h).2.2 hxs
      omega
  · exact (head_append hxs ys).symm

/-- **Only the first 256 bytes count.** -/
theorem head_take (xs : List UInt8) : head (xs.take MQTT_BUFFER_SIZE) = head xs := by
  have hsplit := List.take_append_drop MQTT_BUFFER_SIZE xs
  by_cases h : head xs = .more
  · by_contra hne
    rw [h] at hne
    have := head_append hne (xs.drop MQTT_BUFFER_SIZE)
    rw [hsplit, h] at this
    exact hne this.symm
  · rcases Nat.lt_or_ge xs.length MQTT_BUFFER_SIZE with hlt | hge
    · rw [List.take_of_length_le (Nat.le_of_lt hlt)]
    · have hneed : (head xs).need ≤ MQTT_BUFFER_SIZE := by
        have := head_need [] xs (by simpa using h)
        simpa using this.2.1
      have hlen : (head (xs.take MQTT_BUFFER_SIZE ++ xs.drop MQTT_BUFFER_SIZE)).need ≤
          (xs.take MQTT_BUFFER_SIZE).length := by
        rw [hsplit, List.length_take]
        omega
      rw [head_of_append _ hlen, hsplit]

/-! ### What a head has been read from -/

/-- A PUBLISH has been read from its topic length, topic and message id. -/
theorem publishHead_eq {b0 : UInt8} {pos msgSize : ℕ} {body topic : List UInt8}
    {messageId size n : ℕ}
    (h : publishHead b0 pos msgSize body = .publish topic messageId size n) :
    ∃ t1 t0 id rest, body = t1 :: t0 :: (topic ++ (id ++ rest)) ∧
      topic.length = Bytes.beNat [t1, t0] ∧ id.length = idBytes b0 ∧ messageId = Bytes.beNat id ∧
      pos + 2 + topic.length < MQTT_BUFFER_SIZE ∧ size ≤ MQTT_BUFFER_SIZE ∧
      size = pos + 2 + topic.length + id.length ∧ n = (msgSize + 2 ^ 32 - size) % 2 ^ 32 := by
  match body with
  | [] => cases h
  | [_] => cases h
  | t1 :: t0 :: rest =>
      simp only [publishHead] at h
      split at h
      · cases h
      · split at h
        · cases h
        · rename_i hsmall henough
          obtain ⟨hlen, hsize⟩ := not_or.1 henough
          cases h
          have htopic : (rest.take (Bytes.beNat [t1, t0])).length = Bytes.beNat [t1, t0] := by
            rw [List.length_take]
            omega
          have hid : ((rest.drop (Bytes.beNat [t1, t0])).take (idBytes b0)).length =
              idBytes b0 := by
            rw [List.length_take, List.length_drop]
            omega
          refine ⟨t1, t0, _, (rest.drop (Bytes.beNat [t1, t0])).drop (idBytes b0), ?_, htopic, hid,
            rfl, by omega, by omega, by omega, rfl⟩
          rw [List.take_append_drop, List.take_append_drop]

theorem packetHead_eq {b0 : UInt8} {pos msgSize : ℕ} {body : List UInt8}
    {call : Option UpstreamCall} {need size : ℕ}
    (h : packetHead b0 pos msgSize body = .packet call need size) :
    size = msgSize ∧ size < MQTT_BUFFER_SIZE ∧ need = max size (pos + fieldBytes b0) ∧
      need ≤ pos + body.length ∧ call = callOf b0 body := by
  unfold packetHead at h
  split at h
  · cases h
  · split at h
    · cases h
    · cases h
      exact ⟨rfl, by omega, rfl, by omega, rfl⟩

theorem publishHead_ne_packet {b0 : UInt8} {pos msgSize : ℕ} {body : List UInt8}
    {call : Option UpstreamCall} {need size : ℕ} :
    publishHead b0 pos msgSize body ≠ .packet call need size := by
  intro h
  match body with
  | [] => cases h
  | [_] => cases h
  | t1 :: t0 :: rest =>
      simp only [publishHead] at h
      split at h
      · cases h
      · split at h <;> cases h

theorem packetHead_ne_publish {b0 : UInt8} {pos msgSize : ℕ} {body topic : List UInt8}
    {messageId size n : ℕ} : packetHead b0 pos msgSize body ≠ .publish topic messageId size n := by
  intro h
  unfold packetHead at h
  split at h
  · cases h
  · split at h <;> cases h

/-- A head is read from a first byte, a length and the bytes after them. -/
theorem head_eq {xs : List UInt8} (h : head xs ≠ .more) :
    ∃ b0 f body, xs = b0 :: (f ++ body) ∧ Varint.field 5 (f ++ body) = some f ∧
      head xs = bodyHead b0 (1 + f.length) ((Varint.value f + (1 + f.length)) % 2 ^ 32) body := by
  cases xs with
  | nil => exact absurd rfl h
  | cons b0 rest =>
      cases hf : Varint.field 5 rest with
      | none => exact absurd (head_none hf) h
      | some f =>
          obtain ⟨body, rfl⟩ := Varint.field_prefix hf
          refine ⟨b0, f, body, rfl, hf, ?_⟩
          rw [head_some hf, List.drop_left]

/-- The header of a PUBLISH has arrived when it is acted upon. -/
theorem publish_size {xs topic : List UInt8} {messageId size n : ℕ}
    (h : head xs = .publish topic messageId size n) : 2 ≤ size ∧ size ≤ xs.length := by
  obtain ⟨b0, f, body, rfl, -, hhead⟩ := head_eq (by rw [h]; nofun)
  rw [hhead, bodyHead] at h
  split at h
  · obtain ⟨t1, t0, id, rest, rfl, -, -, -, -, -, rfl, -⟩ := publishHead_eq h
    simp only [List.length_cons, List.length_append]
    omega
  · exact absurd h packetHead_ne_publish

/-- The bytes that are needed have arrived when a packet is acted upon; the packet is not longer
than that. -/
theorem packet_size {xs : List UInt8} {call : Option UpstreamCall} {need size : ℕ}
    (h : head xs = .packet call need size) :
    size ≤ need ∧ need ≤ xs.length ∧ size < MQTT_BUFFER_SIZE ∧ 2 ≤ need := by
  obtain ⟨b0, f, body, rfl, hf, hhead⟩ := head_eq (by rw [h]; nofun)
  have hpos := Varint.field_pos hf
  rw [hhead, bodyHead] at h
  split at h
  · exact absurd h publishHead_ne_packet
  · obtain ⟨-, hlt, rfl, hle, -⟩ := packetHead_eq h
    simp only [List.length_cons, List.length_append]
    omega

/-! ### The reader -/

/-- The bytes received so far of a packet that has not been acted upon. -/
structure Pending where
  bytes : List UInt8
  more : head bytes = .more

namespace Pending

/-- No bytes of a packet yet. -/
def empty : Pending := ⟨[], rfl⟩

theorem mk_append_nil (B : Pending) (h : head (B.bytes ++ []) = .more) :
    (⟨B.bytes ++ [], h⟩ : Pending) = B := by
  cases B
  congr 1
  exact List.append_nil _

@[simp] theorem bytes_empty : empty.bytes = [] := rfl

end Pending

/-- Where the reader is. -/
inductive St
  /-- in a packet that has not been acted upon -/
  | buffering (pending : Pending)
  /-- before the last `n` bytes of the payload of a PUBLISH -/
  | payload (n : ℕ)

/-- The start of the stream. -/
abbrev St.start : St := .buffering .empty

/-- One turn of the reader, on the bytes that have arrived.  It leaves with `none` when it refuses
them. -/
def readTurn : While.Body (St × List UInt8) UpstreamCall (Option St)
  | (st, []) => ([], .inr (some st))
  | (.buffering B, x) =>
    match h : head (B.bytes ++ x) with
    | .more => ([], .inl (.buffering ⟨B.bytes ++ x, h⟩, []))
    | .refused => ([], .inr none)
    | .publish topic messageId size n =>
      ([.onPublishHeader topic messageId n], .inl (.payload n, (B.bytes ++ x).drop size))
    | .packet call _ size =>
      if size < B.bytes.length then ([], .inr none)
      else (call.toList, .inl (.start, (B.bytes ++ x).drop size))
  | (.payload n, x) =>
    if x.length < n then ([.onPublishData x false], .inl (.payload (n - x.length), []))
    else ([.onPublishData (x.take n) true], .inl (.start, x.drop n))

/-- Reading the bytes `x` returns. -/
def Read (st : St) (x : List UInt8) (calls : List UpstreamCall) (out : Option St) : Prop :=
  While.Exec readTurn (st, x) calls out

theorem read_det {st : St} {x : List UInt8} {calls calls' : List UpstreamCall}
    {out out' : Option St} (h : Read st x calls out) (h' : Read st x calls' out') :
    calls = calls' ∧ out = out' := While.Exec.det h h'

section readTurn

variable {B : Pending} {x : List UInt8}

@[simp] theorem readTurn_nil (st : St) : readTurn (st, []) = ([], .inr (some st)) := by
  cases st <;> rfl

theorem readTurn_more (hx : x ≠ []) (h : head (B.bytes ++ x) = .more) :
    readTurn (.buffering B, x) = ([], .inl (.buffering ⟨B.bytes ++ x, h⟩, [])) := by
  obtain ⟨b, x, rfl⟩ := List.exists_cons_of_ne_nil hx
  simp only [readTurn]
  split <;> simp_all

theorem readTurn_refused (hx : x ≠ []) (h : head (B.bytes ++ x) = .refused) :
    readTurn (.buffering B, x) = ([], .inr none) := by
  obtain ⟨b, x, rfl⟩ := List.exists_cons_of_ne_nil hx
  simp only [readTurn]
  split <;> simp_all

theorem readTurn_publish (hx : x ≠ []) {topic : List UInt8} {messageId size n : ℕ}
    (h : head (B.bytes ++ x) = .publish topic messageId size n) :
    readTurn (.buffering B, x) =
      ([.onPublishHeader topic messageId n], .inl (.payload n, (B.bytes ++ x).drop size)) := by
  obtain ⟨b, x, rfl⟩ := List.exists_cons_of_ne_nil hx
  simp only [readTurn]
  split <;> simp_all

theorem readTurn_packet (hx : x ≠ []) {call : Option UpstreamCall} {need size : ℕ}
    (h : head (B.bytes ++ x) = .packet call need size) :
    readTurn (.buffering B, x) =
      if size < B.bytes.length then ([], .inr none)
      else (call.toList, .inl (.start, (B.bytes ++ x).drop size)) := by
  obtain ⟨b, x, rfl⟩ := List.exists_cons_of_ne_nil hx
  simp only [readTurn]
  split <;> simp_all

theorem readTurn_payload (hx : x ≠ []) (n : ℕ) :
    readTurn (.payload n, x) =
      if x.length < n then ([.onPublishData x false], .inl (.payload (n - x.length), []))
      else ([.onPublishData (x.take n) true], .inl (.start, x.drop n)) := by
  obtain ⟨b, x, rfl⟩ := List.exists_cons_of_ne_nil hx
  rfl

/-- What a turn does, case by case. -/
inductive Turned : St → List UInt8 → List UpstreamCall → (St × List UInt8) ⊕ Option St → Prop
  | nil (st : St) : Turned st [] [] (.inr (some st))
  | part {n : ℕ} {x : List UInt8} : x ≠ [] → x.length < n →
      Turned (.payload n) x [.onPublishData x false] (.inl (.payload (n - x.length), []))
  | full {n : ℕ} {x : List UInt8} : x ≠ [] → n ≤ x.length →
      Turned (.payload n) x [.onPublishData (x.take n) true] (.inl (.start, x.drop n))
  | more {B : Pending} {x : List UInt8} : x ≠ [] → (h : head (B.bytes ++ x) = .more) →
      Turned (.buffering B) x [] (.inl (.buffering ⟨B.bytes ++ x, h⟩, []))
  | refused {B : Pending} {x : List UInt8} : x ≠ [] → head (B.bytes ++ x) = .refused →
      Turned (.buffering B) x [] (.inr none)
  | publish {B : Pending} {x topic : List UInt8} {messageId size n : ℕ} : x ≠ [] →
      head (B.bytes ++ x) = .publish topic messageId size n →
        Turned (.buffering B) x [.onPublishHeader topic messageId n]
          (.inl (.payload n, (B.bytes ++ x).drop size))
  | back {B : Pending} {x : List UInt8} {call : Option UpstreamCall} {need size : ℕ} : x ≠ [] →
      head (B.bytes ++ x) = .packet call need size → size < B.bytes.length →
        Turned (.buffering B) x [] (.inr none)
  | packet {B : Pending} {x : List UInt8} {call : Option UpstreamCall} {need size : ℕ} : x ≠ [] →
      head (B.bytes ++ x) = .packet call need size → B.bytes.length ≤ size →
        Turned (.buffering B) x call.toList (.inl (.start, (B.bytes ++ x).drop size))

/-- **A turn does one of these.** -/
theorem turned {st : St} {calls : List UpstreamCall} {next : (St × List UInt8) ⊕ Option St}
    (h : readTurn (st, x) = (calls, next)) : Turned st x calls next := by
  by_cases hx : x = []
  · subst hx
    rw [readTurn_nil] at h
    cases h
    exact .nil st
  cases st with
  | payload n =>
      rw [readTurn_payload hx] at h
      split at h
      · rename_i hlt
        cases h
        exact .part hx hlt
      · rename_i hge
        cases h
        exact .full hx (Nat.le_of_not_lt hge)
  | buffering B =>
      cases hhead : head (B.bytes ++ x) with
      | more =>
          rw [readTurn_more hx hhead] at h
          cases h
          exact .more hx hhead
      | refused =>
          rw [readTurn_refused hx hhead] at h
          cases h
          exact .refused hx hhead
      | publish topic messageId size n =>
          rw [readTurn_publish hx hhead] at h
          cases h
          exact .publish hx hhead
      | packet call need size =>
          rw [readTurn_packet hx hhead] at h
          split at h
          · rename_i hback
            cases h
            exact .back hx hhead hback
          · rename_i hon
            cases h
            exact .packet hx hhead (Nat.le_of_not_lt hon)

end readTurn

/-! ### Joined calls -/

/-- A call put in front of joined calls. -/
def join : UpstreamCall → List UpstreamCall → List UpstreamCall
  | .onPublishData data _, .onPublishData data' last :: calls =>
    .onPublishData (data ++ data') last :: calls
  | call, calls => call :: calls

/-- **Calls of `on_publish_data` that follow each other, joined**: the data is concatenated and
the flag is that of the last one. -/
def gather (calls : List UpstreamCall) : List UpstreamCall := calls.foldr join []

@[simp] theorem gather_nil : gather [] = [] := rfl

@[simp] theorem gather_cons (call : UpstreamCall) (calls : List UpstreamCall) :
    gather (call :: calls) = join call (gather calls) := rfl

theorem gather_append (a b : List UpstreamCall) :
    gather (a ++ b) = a.foldr join (gather b) := List.foldr_append

/-- Joining two calls before others, or after them. -/
theorem join_join (data data' : List UInt8) (last last' : Bool) (calls : List UpstreamCall) :
    join (.onPublishData data last) (join (.onPublishData data' last') calls) =
      join (.onPublishData (data ++ data') last') calls := by
  cases calls with
  | nil => rfl
  | cons call calls =>
      cases call with
      | onPublishData => simp [join]
      | _ => rfl

theorem foldr_join_gather (a z : List UpstreamCall) : (gather a).foldr join z = a.foldr join z := by
  induction a with
  | nil => rfl
  | cons call a ih =>
      rw [gather_cons, List.foldr_cons, ← ih]
      generalize gather a = g
      cases call with
      | onPublishData data last =>
          cases g with
          | nil => rfl
          | cons call' g =>
              cases call' with
              | onPublishData data' last' => exact (join_join data data' last last' _).symm
              | _ => rfl
      | _ => rfl

/-- **Joining respects concatenation.** -/
theorem gather_congr : Chunk.Congr fun a b => gather a = gather b where
  equivalence := ⟨fun _ => rfl, Eq.symm, Eq.trans⟩
  append h h' := by
    rw [gather_append, gather_append, ← foldr_join_gather, h, foldr_join_gather, h']

/-- What the calls amount to: a call other than those of a PUBLISH, or a PUBLISH with its data. -/
inductive Seen
  | call (call : UpstreamCall)
  | publish (topic : List UInt8) (messageId messageLength : ℕ) (data : List UInt8)
  /-- data after something that is not a PUBLISH -/
  | data (data : List UInt8)
  deriving DecidableEq, Repr

/-- A call put in front of what has been seen after it. -/
def see : UpstreamCall → List Seen → List Seen
  | .onPublishData data _, .data data' :: seen => .data (data ++ data') :: seen
  | .onPublishData data _, seen => .data data :: seen
  | .onPublishHeader topic messageId n, .data data :: seen =>
    .publish topic messageId n data :: seen
  | .onPublishHeader topic messageId n, seen => .publish topic messageId n [] :: seen
  | call, seen => .call call :: seen

/-- **What the upstream interface sees**: the data of a PUBLISH is what the calls of
`on_publish_data` between its header and the next other call hand over. -/
def seen (calls : List UpstreamCall) : List Seen := calls.foldr see []

@[simp] theorem seen_nil : seen [] = [] := rfl

@[simp] theorem seen_cons (call : UpstreamCall) (calls : List UpstreamCall) :
    seen (call :: calls) = see call (seen calls) := rfl

/-- Two calls that hand over data are seen as one. -/
theorem see_see (data data' : List UInt8) (last last' last'' : Bool) (s : List Seen) :
    see (.onPublishData data last) (see (.onPublishData data' last') s) =
      see (.onPublishData (data ++ data') last'') s := by
  cases s with
  | nil => rfl
  | cons x s =>
      cases x with
      | data => simp [see]
      | _ => rfl

/-- Joined calls are seen as the calls themselves. -/
theorem seen_gather (calls : List UpstreamCall) : seen (gather calls) = seen calls := by
  induction calls with
  | nil => rfl
  | cons call calls ih =>
      rw [gather_cons, seen_cons, ← ih]
      generalize gather calls = g
      cases call with
      | onPublishData data last =>
          cases g with
          | nil => rfl
          | cons call' g =>
              cases call' with
              | onPublishData data' last' => exact (see_see data data' last last' last' _).symm
              | _ => rfl
      | _ => rfl

end Mqtt
