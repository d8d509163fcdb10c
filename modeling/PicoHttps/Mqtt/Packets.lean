/-
**Packets, and the streams made of them.**

An MQTT packet is a first byte, a remaining length, and as many bytes of body as that says.  What
the upstream interface should see of a packet is stated here from the packet alone, without the
handler; then a stream of well-formed packets is followed through the reader, and with it through
the handler, in whatever pieces it arrives.

Main definitions:

* `Mqtt.Packet` — a packet, of whose body a part may be missing;
* `Mqtt.Packet.fields`, `Mqtt.Packet.seen` — the bytes of the body that are read, and what should
  be seen of the packet;
* `Mqtt.Packet.WellFormed`, `Mqtt.Packet.Readable` — the packets that a server may send and that
  fit the buffer.

Main results:

* `Mqtt.head_packet` — the head of a stream that starts with a packet;
* `Mqtt.read_packets` — **a stream of well-formed packets is seen as these packets**;
* `Mqtt.recv_wellFormed` — the same for the handler, in any pieces.
-/

import PicoHttps.Mqtt.Cuts

set_option relaxedAutoImplicit false
set_option autoImplicit false

namespace Mqtt

/-! ### Packets -/

/-- A packet: its first byte, the bytes of its remaining length, and the bytes of its body, of
which the last ones may be missing. -/
structure Packet where
  first : UInt8
  lengthField : List UInt8
  body : List UInt8
  deriving DecidableEq, Repr

namespace Packet

variable (p : Packet)

/-- The bytes of the packet. -/
def bytes : List UInt8 := p.first :: (p.lengthField ++ p.body)

/-- The declared number of bytes of the body. -/
def declared : ℕ := Varint.value p.lengthField

/-- The packet is a PUBLISH. -/
abbrev IsPublish : Prop := p.first &&& 0xf0 = MQTTPUBLISH

/-- The length of the topic of a PUBLISH. -/
def topicLength : ℕ := Bytes.beNat (p.body.take 2)

/-- The number of bytes of the body that are read before the payload: of a PUBLISH, the topic
with its length and the message id. -/
def fields : ℕ :=
  if p.IsPublish then
    if p.body.length < 2 then 2 else 2 + p.topicLength + idBytes p.first
  else fieldBytes p.first

/-- **What should be seen of the packet**: of a PUBLISH whatever has arrived, as soon as the bytes
before the payload have; of another packet the call it causes, when it is complete. -/
def seen : List Seen :=
  if p.IsPublish then
    if p.body.length < p.fields then []
    else [.publish ((p.body.drop 2).take p.topicLength)
      (Bytes.beNat ((p.body.drop (2 + p.topicLength)).take (idBytes p.first)))
      (p.declared - p.fields) (p.body.drop p.fields)]
  else if p.body.length < p.declared then []
  else ((callOf p.first p.body).map .call).toList

/-- The packets that a server may send and that fit the buffer: a remaining length of 1 to 4
bytes, a body of as many bytes as it says and with all the bytes that are read from it, and at
most 255 bytes up to the payload of a PUBLISH or to the end of another packet. -/
structure WellFormed : Prop where
  complete : Varint.Complete p.lengthField
  length_le : p.lengthField.length ≤ 4
  length_body : p.body.length = p.declared
  fields_le : p.fields ≤ p.body.length
  fits : 1 + p.lengthField.length + (if p.IsPublish then p.fields else p.body.length) ≤ 255

/-- The packets that the decoders can deal with: as well-formed ones, but the last bytes before
the payload of a PUBLISH may fill the buffer. -/
structure Readable : Prop where
  complete : Varint.Complete p.lengthField
  length_le : p.lengthField.length ≤ 4
  length_body : p.body.length = p.declared
  fields_le : p.fields ≤ p.body.length
  publish_fits : p.IsPublish → 1 + p.lengthField.length + 2 + p.topicLength < MQTT_BUFFER_SIZE ∧
    1 + p.lengthField.length + p.fields ≤ MQTT_BUFFER_SIZE
  other_fits : ¬ p.IsPublish → 1 + p.lengthField.length + p.declared < MQTT_BUFFER_SIZE

theorem WellFormed.readable {p : Packet} (hp : p.WellFormed) : p.Readable := by
  obtain ⟨hcomplete, hlen, hbody, hfields, hfits⟩ := hp
  have hsize : MQTT_BUFFER_SIZE = 256 := rfl
  refine ⟨hcomplete, hlen, hbody, hfields, fun hpub => ?_, fun hpub => ?_⟩
  · rw [if_pos hpub] at hfits
    have hdef : p.fields = if p.body.length < 2 then 2 else 2 + p.topicLength + idBytes p.first :=
      if_pos hpub
    split at hdef <;> omega
  · rw [if_neg hpub] at hfits
    omega

end Packet

/-! ### The head of a stream that starts with a packet -/

section head

variable {b0 : UInt8} {f rest : List UInt8}

/-- A remaining length of at most four bytes is read without wrapping. -/
theorem head_packet (hf : Varint.field 5 (f ++ rest) = some f) (hlen : f.length ≤ 4) :
    head (b0 :: (f ++ rest)) =
      bodyHead b0 (1 + f.length) (Varint.value f + (1 + f.length)) rest := by
  have hlt := Varint.value_lt f
  have hpow : 2 ^ (7 * f.length) ≤ 2 ^ 28 := Nat.pow_le_pow_right (by omega) (by omega)
  rw [head_some hf, List.drop_left, Nat.mod_eq_of_lt (by omega)]

/-- A packet other than a PUBLISH whose bytes have all arrived. -/
theorem packetHead_complete {pos declared : ℕ} {body : List UInt8}
    (hfit : pos + declared ≤ 255) (hlen : declared ≤ body.length)
    (hfields : fieldBytes b0 ≤ declared) :
    packetHead b0 pos (declared + pos) body =
      .packet (callOf b0 (body.take declared)) (pos + declared) (pos + declared) := by
  have hcall : callOf b0 body = callOf b0 (body.take declared) := by
    have hlen' : fieldBytes b0 ≤ (body.take declared).length := by rw [List.length_take]; omega
    have happend := callOf_append hlen' (body.drop declared)
    rwa [List.take_append_drop] at happend
  have hsize : MQTT_BUFFER_SIZE = 256 := rfl
  rw [packetHead, if_neg (by omega), if_neg (by omega), hcall, Nat.add_comm declared pos,
    Nat.max_eq_left (by omega)]

/-- A PUBLISH whose bytes before the payload have all arrived. -/
theorem publishHead_complete {t1 t0 : UInt8} {topic id : List UInt8} (pos declared : ℕ)
    (payload : List UInt8) (htopic : topic.length = Bytes.beNat [t1, t0])
    (hid : id.length = idBytes b0)
    (hfit : pos + 2 + topic.length < 256) (hfit' : pos + 2 + topic.length + id.length ≤ 256)
    (hdeclared : 2 + topic.length + id.length ≤ declared) (hlt : declared + pos < 2 ^ 32) :
    publishHead b0 pos (declared + pos) (t1 :: t0 :: (topic ++ (id ++ payload))) =
      .publish topic (Bytes.beNat id) (pos + (2 + topic.length + id.length))
        (declared - (2 + topic.length + id.length)) := by
  have hsize : MQTT_BUFFER_SIZE = 256 := rfl
  have hsum : pos + 2 + topic.length + id.length = pos + (2 + topic.length + id.length) := by omega
  have hpayload : (declared + pos + 2 ^ 32 - (pos + (2 + topic.length + id.length))) % 2 ^ 32 =
      declared - (2 + topic.length + id.length) := by omega
  simp only [publishHead, ← htopic, ← hid, hsum]
  rw [if_neg (by omega), if_neg (by simp; omega), List.take_left, List.drop_left, List.take_left,
    hpayload]

end head

/-! ### What is seen of a packet -/

namespace Packet

variable {p : Packet}

/-- The body of a PUBLISH whose bytes before the payload have arrived. -/
theorem publish_body (hp : p.IsPublish) (h : p.fields ≤ p.body.length) :
    ∃ t1 t0 topic id payload, p.body = t1 :: t0 :: (topic ++ (id ++ payload)) ∧
      topic.length = Bytes.beNat [t1, t0] ∧ id.length = idBytes p.first ∧
      p.fields = 2 + topic.length + id.length := by
  rw [fields, if_pos hp] at h
  rw [fields, if_pos hp]
  match hbody : p.body with
  | [] => rw [hbody] at h; simp at h
  | [_] => rw [hbody] at h; simp at h
  | t1 :: t0 :: rest =>
      have htl : p.topicLength = Bytes.beNat [t1, t0] := by rw [topicLength, hbody]; rfl
      rw [hbody, if_neg (by simp), htl] at h
      rw [if_neg (by simp), htl]
      simp only [List.length_cons] at h
      obtain ⟨len, hlen⟩ : ∃ len, len = Bytes.beNat [t1, t0] := ⟨_, rfl⟩
      rw [← hlen] at h ⊢
      have htopic : (rest.take len).length = len := by rw [List.length_take]; omega
      have hid : ((rest.drop len).take (idBytes p.first)).length = idBytes p.first := by
        rw [List.length_take, List.length_drop]
        omega
      refine ⟨t1, t0, rest.take len, (rest.drop len).take (idBytes p.first),
        (rest.drop len).drop (idBytes p.first), ?_, htopic.trans hlen, hid, by omega⟩
      rw [List.take_append_drop, List.take_append_drop]

/-- What is seen of such a PUBLISH. -/
theorem seen_publish (hp : p.IsPublish) {t1 t0 : UInt8} {topic id payload : List UInt8}
    (hbody : p.body = t1 :: t0 :: (topic ++ (id ++ payload)))
    (htopic : topic.length = Bytes.beNat [t1, t0]) (hid : id.length = idBytes p.first) :
    p.seen = [.publish topic (Bytes.beNat id) (p.declared - (2 + topic.length + id.length))
      payload] := by
  have htl : p.topicLength = topic.length := by rw [topicLength, hbody, htopic]; rfl
  have hfields : p.fields = 2 + topic.length + id.length := by
    rw [fields, if_pos hp, if_neg (by rw [hbody]; simp), htl, hid]
  have hlen : p.body.length = 2 + topic.length + id.length + payload.length := by
    rw [hbody]
    simp
    omega
  have h2 : p.body.drop 2 = topic ++ (id ++ payload) := by rw [hbody]; rfl
  have h3 : p.body.drop (2 + topic.length) = id ++ payload := by
    rw [← List.drop_drop, h2, List.drop_left]
  have h4 : p.body.drop (2 + topic.length + id.length) = payload := by
    rw [← List.drop_drop, h3, List.drop_left]
  rw [seen, if_pos hp, hfields, if_neg (by omega), htl, h2, h3, h4, List.take_left, ← hid,
    List.take_left]

/-- What is seen of another packet. -/
theorem seen_other (hp : ¬ p.IsPublish) (h : p.declared ≤ p.body.length) :
    p.seen = ((callOf p.first p.body).map .call).toList := by
  rw [seen, if_neg hp, if_neg (by omega)]

end Packet

/-- What has been seen starts with data that belongs to nothing. -/
def StartsWithData (s : List Seen) : Prop := ∃ data rest, s = .data data :: rest

theorem see_of_isHead {call : UpstreamCall} (h : call.isHead = true) (s : List Seen) :
    ¬ StartsWithData (see call s) := by
  rintro ⟨data, rest, heq⟩
  cases call with
  | onPublishHeader topic messageId n =>
      cases s with
      | nil => cases heq
      | cons x s => cases x <;> cases heq
  | onPublishData => cases h
  | _ => cases heq

/-- From the start of a packet data is not handed over before a header. -/
theorem not_startsWithData {S : List UInt8} {calls : List UpstreamCall} {out : Option St}
    (h : Read .start S calls out) : ¬ StartsWithData (seen calls) := by
  refine read_start_induction (motive := fun _ calls _ => ¬ StartsWithData (seen calls))
    (fun B => ?_) (fun S _ => ?_) (fun S topic messageId size n calls out _ _ => ?_)
    (fun S call need size calls out hhead _ ih => ?_) h
  · rintro ⟨_, _, h⟩
    cases h
  · rintro ⟨_, _, h⟩
    cases h
  · exact see_of_isHead rfl _
  · cases call with
    | some call => exact see_of_isHead (isHead_of_packet hhead) _
    | none => exact ih

/-- The header of a PUBLISH and all its data, before what follows. -/
theorem see_publish {topic : List UInt8} {messageId n : ℕ} {payload : List UInt8} {last : Bool}
    {s : List Seen} (hs : ¬ StartsWithData s) :
    see (.onPublishHeader topic messageId n) (see (.onPublishData payload last) s) =
      .publish topic messageId n payload :: s := by
  cases s with
  | nil => rfl
  | cons x s =>
      cases x with
      | data data => exact absurd ⟨data, s, rfl⟩ hs
      | _ => rfl

/-- A call other than those of a PUBLISH is seen as itself. -/
theorem see_callOf {b0 : UInt8} {body : List UInt8} {call : UpstreamCall}
    (h : callOf b0 body = some call) (s : List Seen) : see call s = .call call :: s := by
  unfold callOf at h
  repeat' split at h
  all_goals first | (cases h; rfl) | cases h

/-! ### Streams of well-formed packets -/

section append

variable {p : Packet} {S : List UInt8} {calls : List UpstreamCall} {out : Option St}

theorem bytes_append : p.bytes ++ S = p.first :: (p.lengthField ++ (p.body ++ S)) := by
  simp [Packet.bytes]

theorem length_bytes (h : p.body.length = p.declared) :
    p.bytes.length = 1 + p.lengthField.length + p.declared := by
  simp [Packet.bytes, ← h]
  omega

/-- The head of a stream that starts with such a packet. -/
theorem Packet.Readable.head_eq (hp : p.Readable) (S : List UInt8) :
    head (p.bytes ++ S) = bodyHead p.first (1 + p.lengthField.length)
      (p.declared + (1 + p.lengthField.length)) (p.body ++ S) := by
  rw [bytes_append]
  exact head_packet
    (Varint.field_complete hp.complete (by have := hp.length_le; omega) (p.body ++ S)) hp.length_le

/-- A packet other than a PUBLISH, in front of a stream that is read. -/
theorem read_other_append (hp : p.Readable) (hpub : ¬ p.IsPublish) (hd : ¬ Defect S)
    (hread : Read .start S calls out) :
    ¬ Defect (p.bytes ++ S) ∧ ∃ calls', Read .start (p.bytes ++ S) calls' out ∧
      seen calls' = p.seen ++ seen calls := by
  have hhead := hp.head_eq S
  obtain ⟨-, -, hbody, hfields, -, hfits⟩ := hp
  have hfits := hfits hpub
  have hsize : MQTT_BUFFER_SIZE = 256 := rfl
  rw [Packet.fields, if_neg hpub] at hfields
  have hlen : p.declared ≤ (p.body ++ S).length := by rw [List.length_append]; omega
  have hpacket := packetHead_complete (show 1 + p.lengthField.length + p.declared ≤ 255 by omega)
    hlen (show fieldBytes p.first ≤ p.declared by omega)
  rw [← hbody, List.take_left, hbody, ← length_bytes hbody] at hpacket
  rw [bodyHead, if_neg hpub, hpacket] at hhead
  constructor
  · intro hdef
    cases hdef with
    | here h hshort => rw [hhead] at h; cases h; omega
    | packet h _ hrest =>
        rw [hhead] at h
        cases h
        rw [List.drop_left] at hrest
        exact hd hrest
    | publish h => rw [hhead] at h; cases h
  · refine ⟨(callOf p.first p.body).toList ++ calls, (read_packet hhead).2 ⟨calls, rfl, ?_⟩, ?_⟩
    · rwa [List.drop_left]
    · rw [Packet.seen_other hpub (by omega)]
      cases hcall : callOf p.first p.body with
      | none => rfl
      | some call => exact see_callOf hcall _

/-- The number of bytes before the payload. -/
def Packet.headerSize (p : Packet) : ℕ := 1 + p.lengthField.length + p.fields

/-- The payload of a PUBLISH, as far as it has arrived. -/
def Packet.payload (p : Packet) : List UInt8 := p.body.drop p.fields

theorem Packet.drop_headerSize (p : Packet) (h : p.fields ≤ p.body.length) :
    (p.bytes ++ S).drop p.headerSize = p.payload ++ S := by
  have hpre : p.bytes ++ S =
      (p.first :: (p.lengthField ++ p.body.take p.fields)) ++ (p.payload ++ S) := by
    rw [bytes_append, payload, ← List.append_assoc (p.first :: _), List.cons_append,
      List.append_assoc p.lengthField, List.take_append_drop, List.cons_append, List.append_assoc]
  rw [hpre, List.drop_left']
  rw [List.length_cons, List.length_append, List.length_take, headerSize]
  omega

/-- The head of a stream that starts with a PUBLISH. -/
theorem Packet.Readable.head_publish (hp : p.Readable) (hpub : p.IsPublish) : ∃ topic messageId,
    p.seen = [.publish topic messageId p.payload.length p.payload] ∧ ∀ S,
      head (p.bytes ++ S) = .publish topic messageId p.headerSize p.payload.length := by
  have hhead := hp.head_eq
  obtain ⟨-, hlength, hbody, hfields, hfits, -⟩ := hp
  obtain ⟨hfits, hfits'⟩ := hfits hpub
  have hsize : MQTT_BUFFER_SIZE = 256 := rfl
  obtain ⟨t1, t0, topic, id, payload, hsplit, htopic, hid, heq⟩ := Packet.publish_body hpub hfields
  have htl : p.topicLength = topic.length := by rw [Packet.topicLength, hsplit, htopic]; rfl
  have hlt := Varint.value_lt p.lengthField
  have hpow : 2 ^ (7 * p.lengthField.length) ≤ 2 ^ 28 :=
    Nat.pow_le_pow_right (by omega) (by omega)
  have hdeclared : p.declared = p.fields + payload.length := by
    rw [← hbody, hsplit, heq]
    simp
    omega
  have hpayload : p.payload = payload := by
    have hpre : p.body = (t1 :: t0 :: (topic ++ id)) ++ payload := by rw [hsplit]; simp
    rw [Packet.payload, hpre, List.drop_left']
    simp
    omega
  have hleft : p.declared - p.fields = payload.length := by omega
  refine ⟨topic, Bytes.beNat id, ?_, fun S => ?_⟩
  · rw [Packet.seen_publish hpub hsplit htopic hid, hpayload, ← heq, hleft]
  · have hpublish := publishHead_complete (1 + p.lengthField.length) p.declared
      (payload ++ S) htopic hid (by omega) (by omega) (by omega)
      (by rw [Packet.declared]; omega)
    rw [← heq, hleft] at hpublish
    rw [hhead S, bodyHead, if_pos hpub, hsplit, hpayload, Packet.headerSize]
    simp only [List.cons_append, List.append_assoc]
    exact hpublish

/-- A PUBLISH in front of a stream that is read.  The end of an empty payload is not noticed
before the next byte. -/
theorem read_publish_append (hp : p.Readable) (hpub : p.IsPublish) (hd : ¬ Defect S)
    (hread : Read .start S calls out) :
    ¬ Defect (p.bytes ++ S) ∧ ∃ calls' out', Read .start (p.bytes ++ S) calls' out' ∧
      seen calls' = p.seen ++ seen calls ∧
      (out' = out ∨ S = [] ∧ out = some .start ∧ out' = some (.payload 0)) := by
  obtain ⟨topic, messageId, hseen, hhead⟩ := hp.head_publish hpub
  have hhead := hhead S
  have hdrop := p.drop_headerSize (S := S) hp.fields_le
  constructor
  · intro hdef
    cases hdef with
    | here h => rw [hhead] at h; cases h
    | packet h => rw [hhead] at h; cases h
    | publish h hrest =>
        rw [hhead] at h
        cases h
        rw [← List.drop_drop, hdrop, List.drop_left] at hrest
        exact hd hrest
  · by_cases hnil : p.payload ++ S = []
    · -- nothing follows: the end of the empty payload is not noticed yet
      obtain ⟨hempty, rfl⟩ := List.append_eq_nil_iff.1 hnil
      obtain ⟨rfl, rfl⟩ := read_det hread (.leave (readTurn_nil _))
      rw [hnil] at hdrop
      rw [hempty] at hhead hseen
      refine ⟨_, some (.payload 0), (read_publish hhead).2 ⟨[], rfl, ?_⟩, ?_, .inr ⟨rfl, rfl, rfl⟩⟩
      · rw [hdrop]
        exact .leave (readTurn_nil _)
      · rw [hseen]
        rfl
    · have hdata : Read (.payload p.payload.length) (p.payload ++ S)
          ([.onPublishData p.payload true] ++ calls) out :=
        (read_payload_full hnil (by simp)).2
          ⟨calls, by rw [List.take_left], by rwa [List.drop_left]⟩
      refine ⟨_, out, (read_publish hhead).2 ⟨_, rfl, hdrop.symm ▸ hdata⟩, ?_, .inl rfl⟩
      rw [hseen]
      exact see_publish (not_startsWithData hread)

/-- **A packet in front of a stream that is read.** -/
theorem read_packet_append (hp : p.Readable) (hd : ¬ Defect S) (hread : Read .start S calls out) :
    ¬ Defect (p.bytes ++ S) ∧ ∃ calls' out', Read .start (p.bytes ++ S) calls' out' ∧
      seen calls' = p.seen ++ seen calls ∧
      (out' = out ∨ S = [] ∧ out = some .start ∧ out' = some (.payload 0)) := by
  by_cases hpub : p.IsPublish
  · exact read_publish_append hp hpub hd hread
  · obtain ⟨hd', calls', hread', hseen'⟩ := read_other_append hp hpub hd hread
    exact ⟨hd', calls', out, hread', hseen', .inl rfl⟩

end append

/-- **A stream of well-formed packets is seen as these packets.** -/
theorem read_packets {ps : List Packet} (hps : ∀ p ∈ ps, p.WellFormed) :
    ¬ Defect (ps.flatMap Packet.bytes) ∧ ∃ calls st,
      Read .start (ps.flatMap Packet.bytes) calls (some st) ∧
        seen calls = ps.flatMap Packet.seen := by
  induction ps with
  | nil => exact ⟨not_defect_nil, [], .start, .leave (readTurn_nil _), rfl⟩
  | cons p ps ih =>
      obtain ⟨hd, calls, st, hread, hseen⟩ := ih fun q hq => hps q (List.mem_cons_of_mem p hq)
      have hp := (hps p List.mem_cons_self).readable
      obtain ⟨hd', calls', out', hread', hseen', hout⟩ := read_packet_append hp hd hread
      rw [List.flatMap_cons, List.flatMap_cons, ← hseen]
      rcases hout with rfl | ⟨-, -, rfl⟩
      · exact ⟨hd', calls', st, hread', hseen'⟩
      · exact ⟨hd', calls', .payload 0, hread', hseen'⟩

/-- The same in any pieces. -/
theorem fed_packets {ps : List Packet} (hps : ∀ p ∈ ps, p.WellFormed) {cs : List (List UInt8)}
    (hcs : cs.flatten = ps.flatMap Packet.bytes) :
    ∃ calls st, Chunk.Fed Read .start cs calls (some st) ∧
      seen calls = ps.flatMap Packet.seen := by
  obtain ⟨hd, calls, st, hread, hseen⟩ := read_packets hps
  obtain ⟨calls₀, out, hread₀, hall⟩ := fed_of_not_defect hd
  obtain ⟨rfl, rfl⟩ := read_det hread hread₀
  obtain ⟨calls', hfed, hsame⟩ := hall cs hcs
  exact ⟨calls', st, hfed, by rw [← hseen, ← seen_gather, ← hsame, seen_gather]⟩

/-- **MQTT decoding is correct under any fragmentation.**  Well-formed packets, in any pieces, are
accepted by a handler that has been reset, and seen in order: each call with the values of its
packet, and each PUBLISH with its topic, message id, payload length and payload. -/
theorem recv_wellFormed (ps : List Packet) (hps : ∀ p ∈ ps, p.WellFormed) (h : MQTTSocketHandler)
    (now : UInt64) (cs : List (List UInt8)) (hcs : cs.flatten = ps.flatMap Packet.bytes) :
    ∃ calls h', Chunk.Fed OnRecv (h.reset now) cs calls (some h') ∧
      seen calls = ps.flatMap Packet.seen := by
  obtain ⟨calls, st, hfed, hseen⟩ := fed_packets hps hcs
  obtain ⟨answer, hrecv, hrel⟩ := fed_of_reader (rel_reset h now) hfed
  cases hrel with
  | some _ => exact ⟨calls, _, hrecv, hseen⟩

/-- A CONNACK, and a PUBLISH of the topic `[7]` with two bytes of payload, cut inside the header
and inside the payload. -/
theorem recv_wellFormed_example :
    ∃ calls h', Chunk.Fed OnRecv (zeroed.reset 0)
        [[0x20, 2], [1, 0, 0x30], [5, 0, 1, 7, 10], [11]] calls (some h') ∧
      seen calls = [.call (.onConnAck 0 1), .publish [7] 0 2 [10, 11]] := by
  have hps : ∀ p ∈ [⟨0x20, [2], [1, 0]⟩, (⟨0x30, [5], [0, 1, 7, 10, 11]⟩ : Packet)],
      p.WellFormed := by
    intro p hp
    rcases List.mem_cons.1 hp with rfl | hp
    · constructor <;> decide
    · obtain rfl := List.mem_singleton.1 hp
      constructor <;> decide
  exact recv_wellFormed _ hps zeroed 0 _ rfl

end Mqtt
