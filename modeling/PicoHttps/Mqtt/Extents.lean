/-
**Packets and their extents.**

A stream, whatever its bytes are, falls into packets by the remaining lengths alone.  This module
compares what the handler makes of a stream with that division: a packet whose declared length
leaves no room for its fields is read past its end, and a PUBLISH with a message id whose header
takes one byte more than the buffer has is never acted upon; every other stream is read within
the extents of its packets.

Main definitions:

* `Mqtt.packetsOf` — the packets that a stream falls into, the last one maybe incomplete;
* `Mqtt.ExtentsKept` — the handler keeps to them, in every run over a part of the stream;
* `Mqtt.Packet.Refused`, `Mqtt.Packet.Short`, `Mqtt.Packet.Deaf`, `Mqtt.Sound` — the packets the
  handler refuses, reads past the end of, or waits for for ever, and the streams without the last
  two before the first of the first.

Main results:

* `Mqtt.read_sound` — a stream without such packets is read as the packets it falls into;
* `Mqtt.unsound_shows` — such a packet shows;
* `Mqtt.extentsKept_iff` — **exactly the sound streams are read within the extents**.
-/

import PicoHttps.Mqtt.Packets

set_option relaxedAutoImplicit false
set_option autoImplicit false

namespace Mqtt

/-! ### The packets that a stream falls into -/

/-- The packet at the front of a stream, with as much of its body as has arrived, and the bytes
after it; `none` when the stream ends before the remaining length does. -/
def nextPacket : List UInt8 → Option (Packet × List UInt8)
  | [] => none
  | b0 :: rest =>
    match Varint.field 5 rest with
    | none => none
    | some f =>
      let body := rest.drop f.length
      some (⟨b0, f, body.take (Varint.value f)⟩, body.drop (Varint.value f))

/-- A packet of which nothing is missing. -/
abbrev Packet.IsComplete (p : Packet) : Prop := p.body.length = p.declared

/-- The packet at the front of a stream and the bytes after it are the stream. -/
theorem nextPacket_eq {S rest : List UInt8} {p : Packet} (h : nextPacket S = some (p, rest)) :
    S = p.bytes ++ rest ∧ Varint.field 5 (p.lengthField ++ (p.body ++ rest)) = some p.lengthField ∧
      p.body.length ≤ p.declared ∧ (¬ p.IsComplete → rest = []) := by
  cases S with
  | nil => cases h
  | cons b0 xs =>
      simp only [nextPacket] at h
      cases hf : Varint.field 5 xs with
      | none => rw [hf] at h; cases h
      | some f =>
          rw [hf] at h
          cases h
          obtain ⟨body, rfl⟩ := Varint.field_prefix hf
          simp only [Packet.bytes, List.drop_left, List.take_append_drop, Packet.IsComplete,
            Packet.declared, List.length_take]
          refine ⟨?_, hf, by omega, fun hlen => ?_⟩
          · rw [List.cons_append, List.append_assoc, List.take_append_drop]
          · rw [List.drop_eq_nil_iff]
            omega

theorem nextPacket_length {S rest : List UInt8} {p : Packet} (h : nextPacket S = some (p, rest)) :
    rest.length < S.length := by
  obtain ⟨rfl, -⟩ := nextPacket_eq h
  simp [Packet.bytes]
  omega

/-- The packets that a stream falls into, the last one maybe incomplete. -/
def packetsOf (S : List UInt8) : List Packet :=
  match h : nextPacket S with
  | none => []
  | some (p, rest) =>
    have := nextPacket_length h
    p :: packetsOf rest
termination_by S.length

/-- The number of bytes after the last complete packet. -/
def unfinished (S : List UInt8) : ℕ :=
  match h : nextPacket S with
  | none => S.length
  | some (p, rest) =>
    have := nextPacket_length h
    if p.IsComplete then unfinished rest else S.length
termination_by S.length

/-- The number of bytes that the last packet still lacks, once its length is known. -/
def missing (S : List UInt8) : ℕ :=
  match h : nextPacket S with
  | none => 0
  | some (p, rest) =>
    have := nextPacket_length h
    if p.IsComplete then missing rest else p.declared - p.body.length
termination_by S.length

section equations

variable {S rest : List UInt8} {p : Packet}

theorem packetsOf_none (h : nextPacket S = none) : packetsOf S = [] := by
  rw [packetsOf]
  split
  · rfl
  · rename_i h'; rw [h] at h'; cases h'

theorem packetsOf_some (h : nextPacket S = some (p, rest)) :
    packetsOf S = p :: packetsOf rest := by
  rw [packetsOf]
  split
  · rename_i h'; rw [h] at h'; cases h'
  · rename_i h'; rw [h] at h'; cases h'; rfl

theorem unfinished_none (h : nextPacket S = none) : unfinished S = S.length := by
  rw [unfinished]
  split
  · rfl
  · rename_i h'; rw [h] at h'; cases h'

theorem unfinished_some (h : nextPacket S = some (p, rest)) :
    unfinished S = if p.IsComplete then unfinished rest else S.length := by
  rw [unfinished]
  split
  · rename_i h'; rw [h] at h'; cases h'
  · rename_i h'; rw [h] at h'; cases h'; rfl

theorem missing_none (h : nextPacket S = none) : missing S = 0 := by
  rw [missing]
  split
  · rfl
  · rename_i h'; rw [h] at h'; cases h'

theorem missing_some (h : nextPacket S = some (p, rest)) :
    missing S = if p.IsComplete then missing rest else p.declared - p.body.length := by
  rw [missing]
  split
  · rename_i h'; rw [h] at h'; cases h'
  · rename_i h'; rw [h] at h'; cases h'; rfl

end equations

/-! ### Packets and their extents -/

namespace Packet

variable (p : Packet)

/-- The packet does not fit the buffer, and is refused once that is known. -/
def Refused : Prop :=
  if p.IsPublish then
    2 ≤ p.body.length ∧ MQTT_BUFFER_SIZE ≤ 1 + p.lengthField.length + 2 + p.topicLength
  else MQTT_BUFFER_SIZE ≤ 1 + p.lengthField.length + p.declared

instance : Decidable p.Refused := by
  unfold Refused
  infer_instance

/-- The packet is complete and too short for the bytes that are read from it. -/
def Short : Prop := p.IsComplete ∧ p.declared < p.fields

instance : Decidable p.Short := by
  unfold Short
  infer_instance

/-- A PUBLISH with a message id whose header takes exactly one byte more than the buffer has. -/
def Deaf : Prop :=
  p.IsPublish ∧ p.fields ≤ p.body.length ∧
    1 + p.lengthField.length + p.fields = MQTT_BUFFER_SIZE + 1

instance : Decidable p.Deaf := by
  unfold Deaf
  infer_instance

end Packet

/-- There is no packet that is short, or deaf, before the first one that is refused. -/
def Sound : List Packet → Prop
  | [] => True
  | p :: ps => p.Refused ∨ (¬ p.Short ∧ ¬ p.Deaf ∧ Sound ps)

instance decidableSound : (ps : List Packet) → Decidable (Sound ps)
  | [] => inferInstanceAs (Decidable True)
  | p :: ps =>
    have := decidableSound ps
    inferInstanceAs (Decidable (p.Refused ∨ (¬ p.Short ∧ ¬ p.Deaf ∧ Sound ps)))

/-- The handler is where the stream is: the bytes in the buffer are those after the last complete
packet, and the payload it waits for is what the last packet lacks. -/
def AtExtent (h : MQTTSocketHandler) (T : List UInt8) : Prop :=
  (h.state = .WAIT_PACKET → h.recvBufferIdx = unfinished T) ∧
    (h.state = .WAIT_DATA → h.pendingDataLen = missing T)

/-- **The handler keeps to the extents of the packets**, in every run over a part of the stream,
in any pieces: it sees nothing else than what the packets are, packet by packet; while it accepts,
it sees all of it, it is where the stream is, and no packet has been too short. -/
def ExtentsKept (S : List UInt8) : Prop :=
  ∀ (h : MQTTSocketHandler) (now : UInt64) (cs : List (List UInt8)), cs.flatten <+: S →
    ∃ calls answer, Chunk.Fed OnRecv (h.reset now) cs calls answer ∧
      match answer with
      | none => seen calls <+: (packetsOf cs.flatten).flatMap Packet.seen
      | some h' => seen calls = (packetsOf cs.flatten).flatMap Packet.seen ∧
          AtExtent h' cs.flatten ∧ ∀ p ∈ packetsOf cs.flatten, ¬ p.Short

/-! ### The packet at the front of a stream -/

section next

variable {T rest : List UInt8} {p : Packet}

theorem two_le_fields (hp : p.IsPublish) : 2 ≤ p.fields := by
  rw [Packet.fields, if_pos hp]
  split <;> omega

/-- With the length of the topic, the bytes of a PUBLISH before its payload are known. -/
theorem fields_publish (hp : p.IsPublish) (hbody : 2 ≤ p.body.length) :
    p.fields = 2 + p.topicLength + idBytes p.first := by
  rw [Packet.fields, if_pos hp, if_neg (Nat.not_lt_of_le hbody)]

/-- The topic of a PUBLISH that is not refused ends in the buffer. -/
theorem topic_lt (hrefused : ¬ p.Refused) (hp : p.IsPublish) (hbody : 2 ≤ p.body.length) :
    1 + p.lengthField.length + 2 + p.topicLength < MQTT_BUFFER_SIZE := by
  by_contra hbig
  exact hrefused ((if_pos hp).mpr ⟨hbody, Nat.not_lt.1 hbig⟩)

/-- Another packet that is not refused ends in the buffer. -/
theorem declared_lt (hrefused : ¬ p.Refused) (hp : ¬ p.IsPublish) :
    1 + p.lengthField.length + p.declared < MQTT_BUFFER_SIZE := by
  by_contra hbig
  exact hrefused ((if_neg hp).mpr (by omega))

/-- The head of a stream, from the packet at its front. -/
theorem head_next (h : nextPacket T = some (p, rest)) (hlen : p.lengthField.length ≤ 4) :
    head T = bodyHead p.first (1 + p.lengthField.length)
      (p.declared + (1 + p.lengthField.length)) (p.body ++ rest) := by
  obtain ⟨rfl, hf, -⟩ := nextPacket_eq h
  rw [bytes_append]
  exact head_packet hf hlen

/-- Of a PUBLISH, the length of the topic has to arrive first. -/
theorem publishHead_short {b0 : UInt8} {pos msgSize : ℕ} {body : List UInt8}
    (h : body.length < 2) : publishHead b0 pos msgSize body = .more := by
  rcases body with _ | ⟨_, _ | ⟨_, _⟩⟩
  · rfl
  · rfl
  · simp only [List.length_cons] at h
    omega

/-- A PUBLISH that is not refused is waited for while the bytes before its payload have not all
arrived, or end behind the buffer. -/
theorem publishHead_more (hrefused : ¬ p.Refused) (hp : p.IsPublish)
    (hshort : p.body.length < p.fields ∨ p.Deaf) (msgSize : ℕ) :
    publishHead p.first (1 + p.lengthField.length) msgSize p.body = .more := by
  rcases Nat.lt_or_ge p.body.length 2 with hnone | hbody
  · exact publishHead_short hnone
  · have hsmall := topic_lt hrefused hp hbody
    have hdef := fields_publish hp hbody
    obtain ⟨t1, t0, r, hb⟩ := Bytes.exists_two hbody
    have htl : p.topicLength = Bytes.beNat [t1, t0] := by rw [Packet.topicLength, hb]; rfl
    simp only [hb, publishHead, ← htl]
    rw [if_neg (by omega)]
    rcases hshort with hlt | ⟨-, -, hdeaf⟩
    · rw [hb, List.length_cons, List.length_cons] at hlt
      rw [if_pos (.inl (by omega))]
    · rw [if_pos (.inr (by omega))]

/-- A packet that is refused is refused. -/
theorem head_refused (h : nextPacket T = some (p, rest)) (hlen : p.lengthField.length ≤ 4)
    (hp : p.Refused) : head T = .refused := by
  rw [head_next h hlen, bodyHead]
  unfold Packet.Refused at hp
  split at hp
  · rename_i hpub
    obtain ⟨hbody, hbig⟩ := hp
    rw [if_pos hpub]
    obtain ⟨t1, t0, r, hb⟩ := Bytes.exists_two hbody
    have htl : p.topicLength = Bytes.beNat [t1, t0] := by rw [Packet.topicLength, hb]; rfl
    rw [htl] at hbig
    simp only [hb, publishHead, List.cons_append]
    rw [if_pos hbig]
  · rename_i hpub
    rw [if_neg hpub, packetHead, if_pos (by omega)]

/-- A complete packet that is neither refused nor short nor deaf can be dealt with. -/
theorem readable_of_complete (h : nextPacket T = some (p, rest)) (hlen : p.lengthField.length ≤ 4)
    (hrefused : ¬ p.Refused) (hshort : ¬ p.Short) (hdeaf : ¬ p.Deaf) (hc : p.IsComplete) :
    p.Readable := by
  obtain ⟨-, hf, -, -⟩ := nextPacket_eq h
  have hfields : p.fields ≤ p.body.length := by
    by_contra hlt
    exact hshort ⟨hc, by omega⟩
  refine ⟨Varint.complete_of_field hf (by omega), hlen, hc, hfields, fun hpub => ?_,
    fun hpub => ?_⟩
  · have hbody := (two_le_fields hpub).trans hfields
    have hdef := fields_publish hpub hbody
    have hid := idBytes_eq p.first
    have hsmall := topic_lt hrefused hpub hbody
    have hne : 1 + p.lengthField.length + p.fields ≠ MQTT_BUFFER_SIZE + 1 :=
      fun heq => hdeaf ⟨hpub, hfields, heq⟩
    omega
  · exact declared_lt hrefused hpub

/-- **A PUBLISH of which the bytes before the payload have arrived**, and not all of the payload. -/
theorem publishHead_arrived (hrefused : ¬ p.Refused) (hdeaf : ¬ p.Deaf) (hp : p.IsPublish)
    (hlen : p.lengthField.length ≤ 4) (hfields : p.fields ≤ p.body.length)
    (hlt : p.body.length < p.declared) : ∃ topic messageId,
      publishHead p.first (1 + p.lengthField.length) (p.declared + (1 + p.lengthField.length))
        p.body = .publish topic messageId (1 + p.lengthField.length + p.fields)
          (p.declared - p.fields) ∧
      p.seen = [.publish topic messageId (p.declared - p.fields) (p.body.drop p.fields)] := by
  have hsize : MQTT_BUFFER_SIZE = 256 := rfl
  have hsmall := topic_lt hrefused hp ((two_le_fields hp).trans hfields)
  have hne : 1 + p.lengthField.length + p.fields ≠ MQTT_BUFFER_SIZE + 1 :=
    fun heq => hdeaf ⟨hp, hfields, heq⟩
  obtain ⟨t1, t0, topic, id, payload, hb, htopic, hid, heq⟩ := Packet.publish_body hp hfields
  have htl : p.topicLength = topic.length := by rw [Packet.topicLength, hb, htopic]; rfl
  have hid2 := idBytes_eq p.first
  have hltv := Varint.value_lt p.lengthField
  have hpow : 2 ^ (7 * p.lengthField.length) ≤ 2 ^ 28 := Nat.pow_le_pow_right (by omega) (by omega)
  have hpublish := publishHead_complete (1 + p.lengthField.length) p.declared payload htopic hid
    (by omega) (by omega) (by omega) (by rw [Packet.declared]; omega)
  have hpayload : p.body.drop p.fields = payload := by
    have hpre : p.body = (t1 :: t0 :: (topic ++ id)) ++ payload := by rw [hb]; simp
    rw [hpre, List.drop_left']
    simp
    omega
  have hseen := Packet.seen_publish hp hb htopic hid
  rw [← hb, ← heq] at hpublish
  rw [← heq, ← hpayload] at hseen
  exact ⟨topic, Bytes.beNat id, hpublish, hseen⟩

/-- An incomplete packet that is neither refused nor deaf is waited for, or it is a PUBLISH whose
header has arrived. -/
theorem head_incomplete (h : nextPacket T = some (p, rest)) (hlen : p.lengthField.length ≤ 4)
    (hrefused : ¬ p.Refused) (hdeaf : ¬ p.Deaf) (hc : ¬ p.IsComplete) :
    (head T = .more ∧ T.length ≤ MQTT_BUFFER_SIZE ∧ p.seen = []) ∨
      ∃ topic messageId size, head T = .publish topic messageId size (p.declared - p.fields) ∧
        T.drop size = p.body.drop p.fields ∧ p.fields ≤ p.body.length ∧
        p.seen = [.publish topic messageId (p.declared - p.fields) (p.body.drop p.fields)] := by
  obtain ⟨hT, -, hle, hrest⟩ := nextPacket_eq h
  obtain rfl := hrest hc
  have hhead := head_next h hlen
  have hsize : MQTT_BUFFER_SIZE = 256 := rfl
  have hlt : p.body.length < p.declared := by
    have : p.body.length ≠ p.declared := hc
    omega
  have hTlen : T.length = 1 + p.lengthField.length + p.body.length := by
    rw [hT, Packet.bytes]
    simp
    omega
  rw [List.append_nil] at hhead hT
  rw [hhead, bodyHead]
  by_cases hpub : p.IsPublish
  · rw [if_pos hpub]
    by_cases hfew : p.body.length < p.fields
    · -- the bytes before the payload have not all arrived
      refine .inl ⟨publishHead_more hrefused hpub (.inl hfew) _, ?_, ?_⟩
      · rcases Nat.lt_or_ge p.body.length 2 with hnone | hbody
        · omega
        · have hsmall := topic_lt hrefused hpub hbody
          have hdef := fields_publish hpub hbody
          have hid := idBytes_eq p.first
          omega
      · rw [Packet.seen, if_pos hpub, if_pos hfew]
    · -- the payload has not
      have hfields : p.fields ≤ p.body.length := Nat.not_lt.1 hfew
      obtain ⟨topic, messageId, hpublish, hseen⟩ :=
        publishHead_arrived hrefused hdeaf hpub hlen hfields hlt
      refine .inr ⟨topic, messageId, _, hpublish, ?_, hfields, hseen⟩
      rw [hT, Packet.bytes, ← List.cons_append, List.drop_append, List.drop_eq_nil_of_le,
        List.nil_append]
      · congr 1
        simp
        omega
      · simp
        omega
  · rw [if_neg hpub]
    have hsmall := declared_lt hrefused hpub
    refine .inl ⟨?_, by omega, by rw [Packet.seen, if_neg hpub, if_pos hlt]⟩
    rw [packetHead, if_neg (by omega), if_pos (.inl (by omega))]

theorem nextPacket_cons {b0 : UInt8} {f body : List UInt8}
    (hf : Varint.field 5 (f ++ body) = some f) :
    nextPacket (b0 :: (f ++ body)) =
      some (⟨b0, f, body.take (Varint.value f)⟩, body.drop (Varint.value f)) := by
  simp only [nextPacket, hf, List.drop_left]

/-- The packet at the front of a part of a stream is a part of the one at its front. -/
theorem nextPacket_prefix (h : nextPacket T = some (p, rest)) {S : List UInt8} (hS : T <+: S) :
    ∃ p' rest', nextPacket S = some (p', rest') ∧ p'.first = p.first ∧
      p'.lengthField = p.lengthField ∧ p.body <+: p'.body ∧
      (p.IsComplete → p' = p ∧ rest <+: rest') := by
  obtain ⟨z, rfl⟩ := hS
  obtain ⟨rfl, hf, hle, hrest⟩ := nextPacket_eq h
  have hz : p.bytes ++ rest ++ z = p.first :: (p.lengthField ++ (p.body ++ (rest ++ z))) := by
    simp [Packet.bytes]
  have hf' : Varint.field 5 (p.lengthField ++ (p.body ++ (rest ++ z))) = some p.lengthField := by
    have := Varint.field_append hf z
    simpa using this
  rw [hz, nextPacket_cons hf', ← Packet.declared]
  refine ⟨_, _, rfl, rfl, rfl, ?_, fun hc => ?_⟩
  · rw [List.take_append, List.take_of_length_le hle]
    exact List.prefix_append _ _
  · rw [List.take_left' hc, List.drop_left' hc]
    exact ⟨rfl, List.prefix_append _ _⟩

/-- A part of a packet that is sound is not refused, not short and not deaf, or it is refused. -/
theorem sound_prefix {p' : Packet} (hfirst : p'.first = p.first)
    (hlen : p'.lengthField = p.lengthField) (hbody : p.body <+: p'.body)
    (hc : p.IsComplete → p' = p) (hrefused : ¬ p.Refused) {ps : List Packet}
    (hsound : Sound (p' :: ps)) : ¬ p.Short ∧ ¬ p.Deaf ∧ (p.IsComplete → Sound ps) := by
  have hcomplete : p.IsComplete → ¬ p.Short ∧ Sound ps := by
    intro h
    obtain rfl := hc h
    rcases hsound with hr | ⟨hs, -, hps⟩
    · exact absurd hr hrefused
    · exact ⟨hs, hps⟩
  refine ⟨fun hs => (hcomplete hs.1).1 hs, ?_, fun h => (hcomplete h).2⟩
  rintro ⟨hpub, hfields, hdeaf⟩
  have htwo := two_le_fields hpub
  have hle := hbody.length_le
  -- the bytes that decide are in the part that has arrived
  have htl : p'.topicLength = p.topicLength := by
    obtain ⟨z, hz⟩ := hbody
    rw [Packet.topicLength, ← hz, List.take_append_of_le_length (by omega), Packet.topicLength]
  have hpub' : p'.IsPublish := by rwa [Packet.IsPublish, hfirst]
  have hfields' : p'.fields = p.fields := by
    rw [Packet.fields, Packet.fields, if_pos hpub', if_pos hpub, htl, hfirst, if_neg (by omega),
      if_neg (by omega)]
  rcases hsound with hr | ⟨-, hd, -⟩
  · obtain ⟨-, hbig⟩ := (if_pos hpub').mp hr
    exact hrefused ((if_pos hpub).mpr ⟨by omega, by rwa [htl, hlen] at hbig⟩)
  · exact hd ⟨hpub', by omega, by rwa [hfields', hlen]⟩

end next

/-! ### A sound stream -/

/-- Where the reader is, compared with the stream. -/
def StAt (T : List UInt8) : St → Prop
  | .buffering B => B.bytes.length = unfinished T ∧ B.bytes.length ≤ MQTT_BUFFER_SIZE
  | .payload n => n = missing T

/-- What a stream is read as, when it is read within the extents of its packets. -/
def ReadWithin (T : List UInt8) (calls : List UpstreamCall) : Option St → Prop
  | none => seen calls <+: (packetsOf T).flatMap Packet.seen
  | some st => seen calls = (packetsOf T).flatMap Packet.seen ∧ StAt T st ∧
      ∀ p ∈ packetsOf T, ¬ p.Short

/-- A stream that ends before the length of its packet does is kept. -/
theorem read_none {T : List UInt8} (h : nextPacket T = none) :
    head T = .more ∧ T.length ≤ MQTT_BUFFER_SIZE := by
  cases T with
  | nil => exact ⟨rfl, by simp⟩
  | cons b0 rest =>
      cases hf : Varint.field 5 rest with
      | none =>
          have := Varint.field_none_length hf
          have hsize : MQTT_BUFFER_SIZE = 256 := rfl
          exact ⟨head_none hf, by rw [List.length_cons]; omega⟩
      | some f => simp [nextPacket, hf] at h

section within

variable {T rest : List UInt8} {p : Packet}

/-- A complete packet in front of a stream that is read within the extents. -/
theorem within_complete (h : nextPacket T = some (p, rest)) (hc : p.IsComplete)
    (hshort : ¬ p.Short) {calls calls' : List UpstreamCall} {out out' : Option St}
    (hwithin : ReadWithin rest calls out) (hseen : seen calls' = p.seen ++ seen calls)
    (hout : out' = out ∨ rest = [] ∧ out = some .start ∧ out' = some (.payload 0)) :
    ReadWithin T calls' out' := by
  have hpackets : (packetsOf T).flatMap Packet.seen =
      p.seen ++ (packetsOf rest).flatMap Packet.seen := by
    rw [packetsOf_some h, List.flatMap_cons]
  have hat : ∀ st, StAt rest st → StAt T st := by
    intro st hst
    cases st with
    | buffering B => rwa [StAt, unfinished_some h, if_pos hc]
    | payload n => rwa [StAt, missing_some h, if_pos hc]
  have hall : (∀ q ∈ packetsOf rest, ¬ q.Short) → ∀ q ∈ packetsOf T, ¬ q.Short := by
    intro hno q hq
    rw [packetsOf_some h] at hq
    rcases List.mem_cons.1 hq with rfl | hq
    · exact hshort
    · exact hno q hq
  rcases hout with rfl | ⟨rfl, rfl, rfl⟩
  · cases out' with
    | none =>
        rw [ReadWithin, hseen, hpackets]
        exact (List.prefix_append_right_inj _).2 hwithin
    | some st =>
        obtain ⟨hs, hst, hno⟩ := hwithin
        exact ⟨by rw [hseen, hpackets, hs], hat st hst, hall hno⟩
  · obtain ⟨hs, -, hno⟩ := hwithin
    refine ⟨by rw [hseen, hpackets, hs], hat _ ?_, hall hno⟩
    rw [StAt, missing_none rfl]

/-- An incomplete packet at the end of a stream. -/
theorem read_incomplete (h : nextPacket T = some (p, rest)) (hlen : p.lengthField.length ≤ 4)
    (hrefused : ¬ p.Refused) (hdeaf : ¬ p.Deaf) (hc : ¬ p.IsComplete) :
    ¬ Defect T ∧ ∃ calls out, Read .start T calls out ∧ ReadWithin T calls out := by
  obtain rfl := (nextPacket_eq h).2.2.2 hc
  have hpackets : packetsOf T = [p] := by rw [packetsOf_some h, packetsOf_none rfl]
  have hall : ∀ q ∈ packetsOf T, ¬ q.Short := by
    rw [hpackets]
    rintro q hq ⟨hq', -⟩
    obtain rfl := List.mem_singleton.1 hq
    exact hc hq'
  rcases head_incomplete h hlen hrefused hdeaf hc with
    ⟨hmore, hle, hseen⟩ | ⟨topic, messageId, size, hhead, hdrop, hfields, hseen⟩
  · refine ⟨fun hd => hd.acted.1 hmore, [], _, read_more ⟨T, hmore⟩, ?_, ⟨?_, hle⟩, hall⟩
    · rw [hpackets]
      simp [hseen]
    · rw [unfinished_some h, if_neg hc]
  · have hmissing : missing T = p.declared - p.body.length := by rw [missing_some h, if_neg hc]
    have hle := (nextPacket_eq h).2.2.1
    have hne : p.body.length ≠ p.declared := hc
    have hlen : (p.body.drop p.fields).length = p.body.length - p.fields := List.length_drop
    generalize p.body.drop p.fields = payload at hdrop hlen hseen
    constructor
    · intro hd
      cases hd with
      | here h' => rw [hhead] at h'; cases h'
      | packet h' => rw [hhead] at h'; cases h'
      | publish h' hrest =>
          rw [hhead] at h'
          cases h'
          rw [← List.drop_drop, hdrop, List.drop_eq_nil_of_le (by omega)] at hrest
          exact not_defect_nil hrest
    · -- the payload that has arrived, if any, has been handed over
      obtain ⟨calls, hread, hdata⟩ : ∃ calls, Read (.payload (p.declared - p.fields)) payload calls
          (some (.payload (p.declared - p.fields - payload.length))) ∧
            seen (.onPublishHeader topic messageId (p.declared - p.fields) :: calls) =
              [.publish topic messageId (p.declared - p.fields) payload] := by
        by_cases hnil : payload = []
        · subst hnil
          exact ⟨[], .leave (readTurn_nil _), rfl⟩
        · exact ⟨_, read_payload_part hnil (by omega), rfl⟩
      refine ⟨_, some (.payload (p.declared - p.fields - payload.length)),
        (read_publish hhead).2 ⟨calls, rfl, hdrop.symm ▸ hread⟩, ?_, ?_, hall⟩
      · rw [hpackets, List.singleton_append, hdata, List.flatMap_singleton, hseen]
      · rw [StAt, hmissing]
        omega

end within

/-- **A part of a sound stream is read within the extents of its packets.** -/
theorem read_sound (n : ℕ) : ∀ {T S : List UInt8}, T.length = n → T <+: S →
    (∀ p ∈ packetsOf S, p.lengthField.length ≤ 4) → Sound (packetsOf S) →
      ¬ Defect T ∧ ∃ calls out, Read .start T calls out ∧ ReadWithin T calls out := by
  induction n using Nat.strong_induction_on with
  | _ n ih =>
      intro T S hn hTS hlens hsound
      subst hn
      cases hnext : nextPacket T with
      | none =>
          obtain ⟨hmore, hle⟩ := read_none hnext
          refine ⟨fun hd => hd.acted.1 hmore, [], _, read_more ⟨T, hmore⟩, ?_⟩
          rw [ReadWithin, packetsOf_none hnext]
          exact ⟨rfl, ⟨(unfinished_none hnext).symm, hle⟩, nofun⟩
      | some next =>
          obtain ⟨p, rest⟩ := next
          obtain ⟨p', rest', hnext', hfirst, hlen, hbody, hcomplete⟩ :=
            nextPacket_prefix hnext hTS
          rw [packetsOf_some hnext'] at hlens hsound
          have hlen4 : p.lengthField.length ≤ 4 := hlen ▸ hlens p' List.mem_cons_self
          by_cases hrefused : p.Refused
          · have hhead := head_refused hnext hlen4 hrefused
            refine ⟨fun hd => hd.acted.2 hhead, [], none, read_refused hhead, ?_⟩
            exact List.nil_prefix
          obtain ⟨hshort, hdeaf, hrestsound⟩ :=
            sound_prefix hfirst hlen hbody (fun hc => (hcomplete hc).1) hrefused hsound
          by_cases hc : p.IsComplete
          · obtain ⟨hd, calls, out, hread, hwithin⟩ := ih _ (nextPacket_length hnext) rfl
              (hcomplete hc).2 (fun q hq => hlens q (List.mem_cons_of_mem p' hq)) (hrestsound hc)
            obtain ⟨hd', calls', out', hread', hseen, hout⟩ := read_packet_append
              (readable_of_complete hnext hlen4 hrefused hshort hdeaf hc) hd hread
            obtain ⟨rfl, -⟩ := nextPacket_eq hnext
            exact ⟨hd', calls', out', hread', within_complete hnext hc hshort hwithin hseen hout⟩
          · exact read_incomplete hnext hlen4 hrefused hdeaf hc

/-! ### An unsound stream -/

/-- A part of a stream that is accepted although a packet of it is too short, or with something
else seen than its packets. -/
def Unsound (S : List UInt8) : Prop :=
  ∃ T, T <+: S ∧ ¬ Defect T ∧ ∃ calls st, Read .start T calls (some st) ∧
    ((∃ p ∈ packetsOf T, p.Short) ∨ seen calls ≠ (packetsOf T).flatMap Packet.seen)

section unsound

variable {S rest : List UInt8} {p : Packet}

/-- The packet at the front of a stream, alone. -/
theorem nextPacket_bytes (h : nextPacket S = some (p, rest)) :
    nextPacket p.bytes = some (p, []) := by
  obtain ⟨-, hf, hle, -⟩ := nextPacket_eq h
  have hf' : Varint.field 5 (p.lengthField ++ p.body) = some p.lengthField := by
    have hassoc : (p.lengthField ++ p.body) ++ rest = p.lengthField ++ (p.body ++ rest) :=
      List.append_assoc ..
    rw [← hassoc] at hf
    exact Varint.field_of_append hf (by simp)
  have hle : p.body.length ≤ Varint.value p.lengthField := hle
  rw [Packet.bytes, nextPacket_cons hf', List.take_of_length_le hle, List.drop_eq_nil_of_le hle]

/-- A packet that is short is waited for. -/
theorem head_short (h : nextPacket S = some (p, rest)) (hlen : p.lengthField.length ≤ 4)
    (hrefused : ¬ p.Refused) (hshort : p.body.length < p.fields ∨ p.Deaf) :
    head p.bytes = .more := by
  rw [head_next (nextPacket_bytes h) hlen, List.append_nil, bodyHead]
  by_cases hpub : p.IsPublish
  · rw [if_pos hpub]
    exact publishHead_more hrefused hpub hshort _
  · rw [if_neg hpub]
    have hsmall := declared_lt hrefused hpub
    rcases hshort with hlt | ⟨hpub', -⟩
    · rw [Packet.fields, if_neg hpub] at hlt
      rw [packetHead, if_neg (by omega), if_pos (.inr hlt)]
    · exact absurd hpub' hpub

/-- A packet that is short, or deaf, shows. -/
theorem unsound_here (h : nextPacket S = some (p, rest)) (hlen : p.lengthField.length ≤ 4)
    (hrefused : ¬ p.Refused) (hbad : p.Short ∨ p.Deaf) : Unsound S := by
  have hbytes := nextPacket_bytes h
  have hpackets : packetsOf p.bytes = [p] := by rw [packetsOf_some hbytes, packetsOf_none rfl]
  have hmore : head p.bytes = .more := by
    refine head_short h hlen hrefused (hbad.imp_left ?_)
    rintro ⟨hc, hs⟩
    have : p.body.length = p.declared := hc
    omega
  obtain ⟨rfl, -⟩ := nextPacket_eq h
  refine ⟨p.bytes, List.prefix_append _ _, fun hd => hd.acted.1 hmore, [], _,
    read_more ⟨p.bytes, hmore⟩, ?_⟩
  rw [hpackets]
  rcases hbad with hs | ⟨hpub, hfields, -⟩
  · exact .inl ⟨p, List.mem_singleton.2 rfl, hs⟩
  · right
    rw [List.flatMap_singleton, Packet.seen, if_pos hpub, if_neg (by omega)]
    exact (List.cons_ne_nil _ _).symm

/-- What shows in the rest of a stream shows in the stream. -/
theorem unsound_append (hp : p.Readable) (hnext : ∀ T, nextPacket (p.bytes ++ T) = some (p, T))
    (h : Unsound rest) : Unsound (p.bytes ++ rest) := by
  obtain ⟨T, hT, hd, calls, st, hread, hbad⟩ := h
  obtain ⟨hd', calls', out', hread', hseen, hout⟩ := read_packet_append hp hd hread
  obtain ⟨st', rfl⟩ : ∃ st', out' = some st' := by
    rcases hout with rfl | ⟨-, -, rfl⟩
    · exact ⟨st, rfl⟩
    · exact ⟨_, rfl⟩
  refine ⟨p.bytes ++ T, (List.prefix_append_right_inj _).2 hT, hd', calls', st', hread', ?_⟩
  rw [packetsOf_some (hnext T), List.flatMap_cons, hseen]
  rcases hbad with ⟨q, hq, hs⟩ | hne
  · exact .inl ⟨q, List.mem_cons_of_mem p hq, hs⟩
  · exact .inr fun heq => hne (List.append_cancel_left heq)

end unsound

/-- **A packet that is short, or deaf, shows**, unless one before it is refused. -/
theorem unsound_shows (n : ℕ) : ∀ {S : List UInt8}, S.length = n →
    (∀ p ∈ packetsOf S, p.lengthField.length ≤ 4) → ¬ Sound (packetsOf S) → Unsound S := by
  induction n using Nat.strong_induction_on with
  | _ n ih =>
      intro S hn hlens hno
      subst hn
      cases hnext : nextPacket S with
      | none =>
          rw [packetsOf_none hnext] at hno
          exact absurd trivial hno
      | some next =>
          obtain ⟨p, rest⟩ := next
          rw [packetsOf_some hnext] at hlens hno
          have hlen4 := hlens p List.mem_cons_self
          have hrefused : ¬ p.Refused := fun hr => hno (.inl hr)
          by_cases hbad : p.Short ∨ p.Deaf
          · exact unsound_here hnext hlen4 hrefused hbad
          obtain ⟨hshort, hdeaf⟩ := not_or.1 hbad
          have hrest : ¬ Sound (packetsOf rest) := fun hs => hno (.inr ⟨hshort, hdeaf, hs⟩)
          by_cases hc : p.IsComplete
          · have hp := readable_of_complete hnext hlen4 hrefused hshort hdeaf hc
            have hunsound := ih _ (nextPacket_length hnext) rfl
              (fun q hq => hlens q (List.mem_cons_of_mem p hq)) hrest
            obtain ⟨rfl, -⟩ := nextPacket_eq hnext
            refine unsound_append hp (fun T => ?_) hunsound
            rw [bytes_append, nextPacket_cons (Varint.field_complete hp.complete (by omega) _),
              ← Packet.declared, List.take_left' hc, List.drop_left' hc]
          · -- an incomplete packet is the last one
            rw [(nextPacket_eq hnext).2.2.2 hc, packetsOf_none rfl] at hrest
            exact absurd trivial hrest

/-! ### Exactly the sound streams -/

theorem atExtent_of_rel {h : MQTTSocketHandler} {st : St} {T : List UInt8} (hrel : Rel h st)
    (hst : StAt T st) : AtExtent h T := by
  cases st with
  | buffering B =>
      obtain ⟨hstate, hb⟩ := hrel
      obtain ⟨hlen, hle⟩ := hst
      refine ⟨fun _ => ?_, fun hdata => by rw [hstate] at hdata; cases hdata⟩
      rw [hb.idx, List.take_of_length_le hle, hlen]
  | payload n =>
      obtain ⟨hstate, hpending, -⟩ := hrel
      refine ⟨fun hpacket => ?_, fun _ => hpending.trans hst⟩
      rw [hstate] at hpacket
      cases hpacket

theorem extentsKept_of_sound {S : List UInt8}
    (hlens : ∀ p ∈ packetsOf S, p.lengthField.length ≤ 4) (hsound : Sound (packetsOf S)) :
    ExtentsKept S := by
  intro h now cs hcs
  obtain ⟨hd, calls, out, hread, hwithin⟩ := read_sound _ rfl hcs hlens hsound
  obtain ⟨calls₀, out₀, hread₀, hall⟩ := fed_of_not_defect hd
  obtain ⟨rfl, rfl⟩ := read_det hread hread₀
  obtain ⟨calls', hfed, hsame⟩ := hall cs rfl
  obtain ⟨answer, hrecv, hrel⟩ := fed_of_reader (rel_reset h now) hfed
  have hseen : seen calls' = seen calls := by rw [← seen_gather, ← hsame, seen_gather]
  refine ⟨calls', answer, hrecv, ?_⟩
  cases hrel with
  | none => exact hseen ▸ hwithin
  | some hrel =>
      obtain ⟨hs, hst, hno⟩ := hwithin
      exact ⟨hseen ▸ hs, atExtent_of_rel hrel hst, hno⟩

theorem sound_of_extentsKept {S : List UInt8}
    (hlens : ∀ p ∈ packetsOf S, p.lengthField.length ≤ 4) (h : ExtentsKept S) :
    Sound (packetsOf S) := by
  by_contra hno
  obtain ⟨T, hT, -, calls, st, hread, hbad⟩ := unsound_shows _ rfl hlens hno
  have hflat : [T].flatten = T := by simp
  obtain ⟨calls', answer, hrecv, hwithin⟩ := h zeroed 0 [T] (by rwa [hflat])
  obtain ⟨out, hfed, hrel⟩ := fed_of_handler (rel_reset zeroed 0) hrecv
  have hfed' : Chunk.Fed Read .start [T] (calls ++ []) (some st) := .go hread (.nil st)
  obtain ⟨rfl, rfl⟩ := fed_det hfed hfed'
  cases hrel with
  | some _ =>
      rw [hflat, List.append_nil] at hwithin
      obtain ⟨hs, -, hno⟩ := hwithin
      rcases hbad with ⟨p, hp, hshort⟩ | hne
      · exact hno p hp hshort
      · exact hne hs

/-- **Exactly the sound streams are read within the extents of their packets**, among the streams
whose remaining lengths have at most four bytes. -/
theorem extentsKept_iff (S : List UInt8)
    (hlens : ∀ p ∈ packetsOf S, p.lengthField.length ≤ 4) :
    ExtentsKept S ↔ Sound (packetsOf S) :=
  ⟨sound_of_extentsKept hlens, extentsKept_of_sound hlens⟩

/-- A CONNACK and a PINGRESP. -/
theorem extentsKept_connAck_ping : ExtentsKept [0x20, 2, 0, 5, 0xD0, 0] := by
  have hpackets : packetsOf [0x20, 2, 0, 5, 0xD0, 0] =
      [⟨0x20, [2], [0, 5]⟩, ⟨0xD0, [0], []⟩] := by
    rw [packetsOf_some (p := ⟨0x20, [2], [0, 5]⟩) rfl, packetsOf_some (p := ⟨0xD0, [0], []⟩) rfl,
      packetsOf_none rfl]
  exact (extentsKept_iff _ (by rw [hpackets]; decide)).2 (by rw [hpackets]; decide)

/-- A PUBACK that declares an empty body takes its message id from the PINGRESP after it. -/
theorem extents_lost_pubAck : ¬ ExtentsKept [0x40, 0, 0xD0, 0] := by
  have hpackets : packetsOf [0x40, 0, 0xD0, 0] = [⟨0x40, [0], []⟩, ⟨0xD0, [0], []⟩] := by
    rw [packetsOf_some (p := ⟨0x40, [0], []⟩) rfl, packetsOf_some (p := ⟨0xD0, [0], []⟩) rfl,
      packetsOf_none rfl]
  intro h
  have := sound_of_extentsKept (by rw [hpackets]; decide) h
  rw [hpackets] at this
  revert this
  decide

end Mqtt
