/-
**A publication between two handlers.**

One handler hands over the beginning of a PUBLISH and then its payload in pieces; another one
receives these bytes, cut in any other way.  The sending side stores the length of the topic as a
`uint16_t`, so of a longer topic only a part is sent.

Main definitions:

* `Mqtt.SubscribeAccepts` — the size check of `send_subscribe`;
* `Mqtt.PublishArrives` — a publication arrives as it has been sent.

Main results:

* `Mqtt.World.runOps_publishData` — the payload, in any pieces;
* `Mqtt.publish_received` — what is received of a publication;
* `Mqtt.publishArrives_iff` — **it arrives exactly when the length of the topic fits**.
-/

import PicoHttps.Mqtt.Framing

set_option relaxedAutoImplicit false
set_option autoImplicit false

namespace Mqtt

/-! ### The packet of a publication -/

/-- The packet of which `World.sendPublishHeader` hands over the beginning, with its payload. -/
def publishPacket (f topic : List UInt8) (messageId : UInt16) (payload : List UInt8) : Packet :=
  { World.publishHeader f topic messageId with
    body := (World.publishHeader f topic messageId).body ++ payload }

section packet

variable {f topic payload : List UInt8} {messageId : UInt16}

theorem publishPacket_isPublish : (publishPacket f topic messageId payload).IsPublish :=
  World.publishHeader_isPublish f topic messageId

theorem publishPacket_bytes : (publishPacket f topic messageId payload).bytes =
    (World.publishHeader f topic messageId).bytes ++ payload := by
  simp [publishPacket, Packet.bytes]

theorem publishPacket_body : (publishPacket f topic messageId payload).body =
    Bytes.byte topic.length 8 :: Bytes.byte topic.length 0 ::
      (topic ++ (World.idField messageId ++ payload)) := by
  simp [publishPacket, World.publishHeader, stringBytes]

theorem idBytes_publishPacket : idBytes (publishPacket f topic messageId payload).first = 2 :=
  if_neg (show ¬ (MQTTPUBLISH ||| MQTTQOS1 ||| MQTTRETAIN) &&& (MQTTQOS1 ||| MQTTQOS2) = 0 by
    decide)

theorem fields_publishPacket (f payload : List UInt8) (messageId : UInt16)
    (htopic : topic.length < 2 ^ 16) :
    (publishPacket f topic messageId payload).fields = topic.length + 4 := by
  have hlen : (publishPacket f topic messageId payload).topicLength = topic.length := by
    rw [Packet.topicLength, publishPacket_body]
    exact Bytes.beNat_split topic.length htopic
  have htwo : ¬ (publishPacket f topic messageId payload).body.length < 2 := by
    rw [publishPacket_body]
    simp
  rw [Packet.fields, if_pos publishPacket_isPublish, if_neg htwo, hlen, idBytes_publishPacket]
  omega

theorem declared_publishPacket
    (hlack : (World.publishHeader f topic messageId).Lacks payload.length) :
    (publishPacket f topic messageId payload).body.length =
      (publishPacket f topic messageId payload).declared :=
  List.length_append.trans hlack.length_body

/-- The complete packet can be received when its topic is short enough. -/
theorem publishPacket_wellFormed (htopic : topic.length ≤ 246)
    (hlack : (World.publishHeader f topic messageId).Lacks payload.length) :
    (publishPacket f topic messageId payload).WellFormed := by
  have hfields := fields_publishPacket f payload messageId
    (show topic.length < 2 ^ 16 by omega)
  have hle : (publishPacket f topic messageId payload).lengthField.length ≤ 4 := hlack.length_le
  refine ⟨hlack.complete, hle, declared_publishPacket hlack, ?_, ?_⟩
  · rw [hfields, publishPacket_body]
    simp [World.idField]
  · rw [if_pos publishPacket_isPublish, hfields]
    omega

/-- The packet is seen as the publication. -/
theorem seen_publishPacket (htopic : topic.length < 2 ^ 16)
    (hlack : (World.publishHeader f topic messageId).Lacks payload.length) :
    (publishPacket f topic messageId payload).seen =
      [.publish topic messageId.toNat payload.length payload] := by
  have hid : Bytes.beNat (World.idField messageId) = messageId.toNat :=
    Bytes.beNat_split _ messageId.toNat_lt
  have hlen : (World.idField messageId).length = 2 := rfl
  have hpayload : (publishPacket f topic messageId payload).declared -
      (2 + topic.length + (World.idField messageId).length) = payload.length := by
    rw [← declared_publishPacket hlack, publishPacket_body]
    simp only [List.length_cons, List.length_append, hlen]
    omega
  rw [Packet.seen_publish publishPacket_isPublish publishPacket_body
    (Bytes.beNat_split topic.length htopic).symm idBytes_publishPacket.symm, hid, hpayload]

end packet

/-- A PINGREQ packet is received as one. -/
theorem World.IsPingReq.wellFormed {p : Packet} (hp : World.IsPingReq p) : p.WellFormed := by
  obtain ⟨hfirst, hbody, hcomplete, hle, hlen⟩ := hp
  have hpublish : ¬ p.IsPublish := by rw [Packet.IsPublish, hfirst]; decide
  have hfields : p.fields = 0 := by rw [Packet.fields, if_neg hpublish, hfirst]; rfl
  refine ⟨hcomplete, hle, hlen, by rw [hfields]; exact Nat.zero_le _, ?_⟩
  rw [if_neg hpublish, hbody]
  simp
  omega

theorem World.IsPingReq.seen_eq {p : Packet} (hp : World.IsPingReq p) :
    p.seen = [.call .onPingReq] := by
  obtain ⟨hfirst, hbody, hcomplete, hle, hlen⟩ := hp
  have hpublish : ¬ p.IsPublish := by rw [Packet.IsPublish, hfirst]; decide
  rw [Packet.seen_other hpublish hlen.ge, hfirst, hbody]
  rfl

namespace World

variable {κ : Type} {d : Downstream κ}

/-! ### Sending the payload -/

/-- The operations that hand over a payload in pieces. -/
def publishData (chunks : List (List UInt8)) : List SendOp := chunks.map .sendPublishData

/-- **The payload is handed over as it is**, and after its end there may be PINGREQ packets that
had been deferred. -/
theorem runOps_publishData (chunks : List (List UInt8)) : ∀ {w : World κ},
    chunks.flatten.length = w.handler.pendingSendDataLen →
    ∃ (w' : World κ) (ps : List Packet), w.runOps d (publishData chunks) = some w' ∧
      (∀ p ∈ ps, IsPingReq p) ∧ w'.bytes = w.bytes ++ chunks.flatten ++ ps.flatMap Packet.bytes := by
  induction chunks with
  | nil => intro w _; exact ⟨w, [], rfl, by simp, by simp⟩
  | cons x chunks ih =>
      intro w hlen
      rw [List.flatten_cons, List.length_append] at hlen
      obtain ⟨r, hstep, hpending, hhanded⟩ :=
        sendPublishData_spec (d := d) (show x.length ≤ w.handler.pendingSendDataLen by omega)
      obtain ⟨w', ps, hrun, hps, hbytes⟩ := ih (w := r.2) (by omega)
      have hrun' : w.runOps d (publishData (x :: chunks)) = some w' := by
        rw [publishData, List.map_cons, runOps, step, hstep]
        exact hrun
      rcases hhanded with hhanded | ⟨hx, p, hp, hhanded⟩
      · refine ⟨w', ps, hrun', hps, ?_⟩
        rw [hbytes, bytes, hhanded]
        simp [bytes]
      · -- the payload is complete, so what follows the packet is empty
        have hrest : chunks.flatten = [] := List.eq_nil_of_length_eq_zero (by omega)
        refine ⟨w', p :: ps, hrun', by simpa using ⟨hp, hps⟩, ?_⟩
        rw [hbytes, bytes, hhanded, hrest]
        simp [bytes, hrest]

end World

/-! ### The round trip -/

/-- The topic passes the size check of `send_subscribe`. -/
def SubscribeAccepts (topic : List UInt8) : Prop :=
  2 + topic.length % 2 ^ 16 + 2 + 1 + MQTT_MAX_HEADER_SIZE ≤ MQTT_BUFFER_SIZE

instance : DecidablePred SubscribeAccepts := fun _ => Nat.decLe _ _

/-- A publication of `payload` under `topic`, sent by a handler without a pending body: the
message id that it stores, what it has handed over at the end, and before. -/
def Publishes {κ : Type} (d : Downstream κ) (w : World κ) (topic : List UInt8)
    (chunks : List (List UInt8)) (messageId : UInt16) (out : List UInt8) : Prop :=
  ∃ ok w₁ w₂, w.sendPublishHeader d topic chunks.flatten.length = some (some messageId, ok, w₁) ∧
    w₁.runOps d (World.publishData chunks) = some w₂ ∧ w₂.bytes = w.bytes ++ out

/-- The bytes `out` are received as a publication, in whatever pieces they arrive at a handler
that has been reset; there may be PINGREQ packets after it. -/
def Receives (out topic : List UInt8) (messageId : UInt16) (payload : List UInt8) : Prop :=
  ∀ (h : MQTTSocketHandler) (now : UInt64) (cs : List (List UInt8)), cs.flatten = out →
    ∃ calls h' pings, Chunk.Fed OnRecv (h.reset now) cs calls (some h') ∧
      seen calls = .publish topic messageId.toNat payload.length payload :: pings ∧
      ∀ s ∈ pings, s = .call .onPingReq

/-- **A publication arrives as it has been sent**, from any handler without a pending body and
with any downstream, however its payload is split. -/
def PublishArrives (topic payload : List UInt8) : Prop :=
  ∀ {κ : Type} (d : Downstream κ) (w : World κ), w.handler.pendingSendDataLen = 0 →
    ∀ chunks : List (List UInt8), chunks.flatten = payload →
      ∃ messageId out, Publishes d w topic chunks messageId out ∧
        Receives out topic messageId payload

section roundTrip

variable {κ : Type} {d : Downstream κ} {w : World κ} {topic : List UInt8}
  {chunks : List (List UInt8)}

/-- **What is sent of a publication, and what is received of it.** -/
theorem publish_received (chunks : List (List UInt8)) (hpending : w.handler.pendingSendDataLen = 0)
    (htopic : SubscribeAccepts topic)
    (hsize : 4 + topic.length + chunks.flatten.length < 2 ^ 28) :
    ∃ messageId out, Publishes d w topic chunks messageId out ∧
      Receives out (topic.take (topic.length % 2 ^ 16)) messageId chunks.flatten := by
  obtain ⟨topic', htopic'⟩ : ∃ t, t = topic.take (topic.length % 2 ^ 16) := ⟨_, rfl⟩
  have hmod := Nat.mod_le topic.length (2 ^ 16)
  have hlen : topic'.length = topic.length % 2 ^ 16 := by
    rw [htopic', List.length_take]
    exact Nat.min_eq_left hmod
  have hbuffer : MQTT_BUFFER_SIZE = 256 := rfl
  have hheader : MQTT_MAX_HEADER_SIZE = 5 := rfl
  rw [SubscribeAccepts] at htopic
  obtain ⟨⟨ok, w₁⟩, f, hresult, hlack, hhanded, hpending₁⟩ :=
    World.sendPublishHeader_spec (d := d) chunks.flatten.length hpending
      (show topic'.length < 2 ^ 16 by omega) (by omega)
  obtain ⟨w₂, ps, hrun, hps, hbytes⟩ :=
    World.runOps_publishData (d := d) chunks (w := w₁) hpending₁.symm
  let q := publishPacket f topic' w.handler.messageId chunks.flatten
  refine ⟨w.handler.messageId, (q :: ps).flatMap Packet.bytes, ⟨ok, w₁, w₂, ?_, hrun, ?_⟩, ?_⟩
  · rw [World.sendPublishHeader_take, ← htopic', hresult]
  · rw [hbytes, World.bytes, hhanded, List.flatMap_cons, publishPacket_bytes]
    simp [World.bytes]
  · rw [← htopic']
    intro h now cs hcs
    -- the PUBLISH, and the PINGREQs that had been deferred
    have hwell : ∀ p ∈ q :: ps, p.WellFormed := by
      intro p hp
      rcases List.mem_cons.1 hp with rfl | hp
      · exact publishPacket_wellFormed (by omega) hlack
      · exact (hps p hp).wellFormed
    obtain ⟨calls, st, hfed, hseen⟩ := fed_packets hwell hcs
    obtain ⟨answer, hrecv, hrel⟩ := fed_of_reader (rel_reset h now) hfed
    have hpings : ∀ s ∈ ps.flatMap Packet.seen, s = .call .onPingReq := by
      intro s hs
      obtain ⟨p, hp, hs⟩ := List.mem_flatMap.1 hs
      rw [(hps p hp).seen_eq] at hs
      exact List.mem_singleton.1 hs
    rw [List.flatMap_cons, seen_publishPacket (by omega) hlack] at hseen
    cases hrel with
    | some _ => exact ⟨calls, _, ps.flatMap Packet.seen, hrecv, hseen, hpings⟩

/-- The same bytes are not received as two publications. -/
theorem Receives.topic_eq {out topic' payload payload' : List UInt8} {messageId messageId' : UInt16}
    (h : Receives out topic messageId payload) (h' : Receives out topic' messageId' payload') :
    topic = topic' := by
  obtain ⟨calls, a, pings, hfed, hseen, -⟩ := h zeroed 0 [out] (by simp)
  obtain ⟨calls', a', pings', hfed', hseen', -⟩ := h' zeroed 0 [out] (by simp)
  obtain ⟨st, hread, -⟩ := fed_of_handler (rel_reset zeroed 0) hfed
  obtain ⟨st', hread', -⟩ := fed_of_handler (rel_reset zeroed 0) hfed'
  obtain ⟨rfl, -⟩ := fed_det hread hread'
  rw [hseen] at hseen'
  injection hseen' with hpublish
  injection hpublish

/-- A sender does what it does in one way. -/
theorem Publishes.out_eq {messageId messageId' : UInt16} {out out' : List UInt8}
    (h : Publishes d w topic chunks messageId out)
    (h' : Publishes d w topic chunks messageId' out') : out = out' := by
  obtain ⟨ok, w₁, w₂, hheader, hrun, hbytes⟩ := h
  obtain ⟨ok', w₁', w₂', hheader', hrun', hbytes'⟩ := h'
  obtain ⟨-, -, rfl⟩ : some messageId = some messageId' ∧ ok = ok' ∧ w₁ = w₁' := by
    simpa using hheader.symm.trans hheader'
  obtain rfl : w₂ = w₂' := Option.some.inj (hrun.symm.trans hrun')
  exact List.append_cancel_left (hbytes.symm.trans hbytes')

/-- A topic whose length does not fit a `uint16_t` does not arrive. -/
theorem not_publishArrives {payload : List UInt8} (htopic : SubscribeAccepts topic)
    (hsize : 4 + topic.length + payload.length < 2 ^ 28) (hlong : 2 ^ 16 ≤ topic.length) :
    ¬ PublishArrives topic payload := by
  intro harrives
  have hflat : [payload].flatten = payload := by simp
  obtain ⟨messageId, out, hpublishes, hreceives⟩ :=
    harrives quiet ⟨zeroed, (), []⟩ rfl [payload] hflat
  obtain ⟨messageId', out', hpublishes', hreceives'⟩ :=
    publish_received (d := quiet) (w := ⟨zeroed, (), []⟩) [payload] rfl htopic
      (by rwa [hflat])
  obtain rfl := hpublishes.out_eq hpublishes'
  have heq := congrArg List.length (hreceives.topic_eq hreceives')
  rw [List.length_take, Nat.min_eq_left (Nat.mod_le _ _)] at heq
  omega

end roundTrip

/-- **MQTT publish round trip.**  A publication whose topic passes the check of `send_subscribe`,
and whose size fits a remaining length, arrives exactly when the length of its topic fits a
`uint16_t`. -/
theorem publishArrives_iff (topic payload : List UInt8) (htopic : SubscribeAccepts topic)
    (hsize : 4 + topic.length + payload.length < 2 ^ 28) :
    PublishArrives topic payload ↔ topic.length < 2 ^ 16 := by
  constructor
  · intro harrives
    by_contra hlong
    exact not_publishArrives htopic hsize (Nat.le_of_not_lt hlong) harrives
  · rintro hlt κ d w hpending chunks rfl
    have hreceived := publish_received (d := d) chunks hpending htopic hsize
    rwa [Nat.mod_eq_of_lt hlt, List.take_length] at hreceived

/-- The topic `[7]` with two bytes of payload. -/
theorem publishArrives_example : PublishArrives [7] [10, 11] :=
  (publishArrives_iff [7] [10, 11] (by decide) (by decide)).2 (by decide)

/-- A topic of 65536 characters, which `send_subscribe` takes for an empty one. -/
theorem long_topic_lost : ∃ topic : List UInt8, SubscribeAccepts topic ∧
    4 + topic.length + ([] : List UInt8).length < 2 ^ 28 ∧ ¬ PublishArrives topic [] := by
  have hlen : (List.replicate (2 ^ 16) (0x74 : UInt8)).length = 2 ^ 16 := List.length_replicate
  have htopic : SubscribeAccepts (List.replicate (2 ^ 16) 0x74) := by
    rw [SubscribeAccepts, hlen]
    decide
  have hsize : 4 + (List.replicate (2 ^ 16) (0x74 : UInt8)).length + ([] : List UInt8).length <
      2 ^ 28 := by
    rw [hlen]
    decide
  exact ⟨_, htopic, hsize, not_publishArrives htopic hsize hlen.ge⟩

end Mqtt
