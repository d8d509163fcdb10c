/-
**Message ids.**

A SUBSCRIBE and a PUBLISH carry the message id of the handler, which is then the next one; zero is
left out, so there are 65535 of them.  The ids are read back here from the bytes that are handed to
the downstream: between two resets, the packets that carry an id carry the ids in their order, and
the same id comes back after 65535 packets and not before.

Main definitions:

* `Mqtt.messageIdOf` — the message id of a packet, by the rules of MQTT 3.1.1;
* `Mqtt.Call`, `Mqtt.Returned`, `Mqtt.World.trace` — the calls of a handler, and what they leave;
* `Mqtt.Returned.Sound` — the ids of a call are not zero, and are stored as they are handed over;
* `Mqtt.idAfter` — the ids in their order.

Main results:

* `Mqtt.World.perform_takes` — a call takes no message id, or the one of the handler;
* `Mqtt.World.trace_ids` — the ids of a run without a reset are the ids in their order;
* `Mqtt.ids_fresh` — **message ids are fresh**.
-/

import PicoHttps.Mqtt.Connect
import PicoHttps.Mqtt.Reconnect

set_option relaxedAutoImplicit false
set_option autoImplicit false

namespace Mqtt

/-! ### Reading a message id -/

/-- Two bytes at the front, the high one first. -/
def readId : List UInt8 → Option ℕ
  | high :: low :: _ => some (Bytes.beNat [high, low])
  | _ => none

/-- The message id of a SUBSCRIBE, or of a PUBLISH that is acknowledged. -/
def messageIdOf : List UInt8 → Option ℕ
  | first :: rest => do
    let lengthField ← Varint.field 5 rest
    let body := rest.drop lengthField.length
    if first &&& 0xf0 = MQTTSUBSCRIBE then readId body
    else if first &&& 0xf0 = MQTTPUBLISH ∧ first &&& 0x06 ≠ 0 then do
      let (_, body) ← readString body
      readId body
    else none
  | [] => none

theorem readId_idField (messageId : UInt16) (rest : List UInt8) :
    readId (World.idField messageId ++ rest) = some messageId.toNat :=
  congrArg some (Bytes.beNat_split messageId.toNat messageId.toNat_lt)

theorem messageIdOf_bytes {p : Packet} (hcomplete : Varint.Complete p.lengthField)
    (hle : p.lengthField.length ≤ 4) : messageIdOf p.bytes =
      if p.first &&& 0xf0 = MQTTSUBSCRIBE then readId p.body
      else if p.first &&& 0xf0 = MQTTPUBLISH ∧ p.first &&& 0x06 ≠ 0 then
        (readString p.body).bind fun r => readId r.2
      else none := by
  have hfield : Varint.field 5 (p.lengthField ++ p.body) = some p.lengthField :=
    Varint.field_complete hcomplete (by omega) p.body
  have hdrop : (p.lengthField ++ p.body).drop p.lengthField.length = p.body := List.drop_left
  rw [Packet.bytes, messageIdOf, hfield, Option.bind_eq_bind, Option.bind_some, hdrop]
  rfl

/-- **The message id of a SUBSCRIBE is read back.** -/
theorem messageIdOf_subscribePacket {f topic : List UInt8} {messageId : UInt16}
    (hcomplete : Varint.Complete f) (hle : f.length ≤ 4) :
    messageIdOf (World.subscribePacket f topic messageId).bytes = some messageId.toNat := by
  have htype : (MQTTSUBSCRIBE ||| MQTTQOS1) &&& 0xf0 = MQTTSUBSCRIBE := by decide
  have hbytes := messageIdOf_bytes (p := World.subscribePacket f topic messageId) hcomplete hle
  rw [hbytes]
  refine (if_pos htype).trans ?_
  rw [World.subscribePacket, List.append_assoc]
  exact readId_idField messageId _

/-- **The message id of a PUBLISH is read back.** -/
theorem messageIdOf_publishHeader {f topic : List UInt8} {messageId : UInt16}
    (hcomplete : Varint.Complete f) (hle : f.length ≤ 4) (htopic : topic.length < 2 ^ 16) :
    messageIdOf (World.publishHeader f topic messageId).bytes = some messageId.toNat := by
  have htype : ¬ (MQTTPUBLISH ||| MQTTQOS1 ||| MQTTRETAIN) &&& 0xf0 = MQTTSUBSCRIBE := by decide
  have hqos : (MQTTPUBLISH ||| MQTTQOS1 ||| MQTTRETAIN) &&& 0xf0 = MQTTPUBLISH ∧
      (MQTTPUBLISH ||| MQTTQOS1 ||| MQTTRETAIN) &&& 0x06 ≠ 0 := by decide
  have hbytes := messageIdOf_bytes (p := World.publishHeader f topic messageId) hcomplete hle
  have hid := readId_idField messageId []
  rw [List.append_nil] at hid
  rw [hbytes]
  refine (if_neg htype).trans ((if_pos hqos).trans ?_)
  rw [World.publishHeader, readString_stringBytes htopic, Option.bind_some]
  exact hid

/-! ### Calls -/

/-- What is called: `on_connected`, or an operation. -/
inductive Call
  | onConnected
  | operate (op : SendOp)

/-- The call sets the message id back. -/
def Call.Restarts : Call → Prop
  | .onConnected | .operate (.sendConnect ..) => True
  | .operate _ => False

/-- A call that has returned: what it has stored in `*out_message_id`, and what it has handed to
the downstream. -/
structure Returned where
  call : Call
  messageId : Option UInt16
  handed : List (List UInt8)

/-- The message ids of the packets that a call has handed over. -/
def Returned.ids (r : Returned) : List (Option ℕ) :=
  match r.call with
  | .operate (.sendSubscribe _) | .operate (.sendPublishHeader ..) => r.handed.map messageIdOf
  | _ => []

/-- **The ids of a call** are not zero and fit 16 bits, and the id of a PUBLISH is stored. -/
structure Returned.Sound (r : Returned) : Prop where
  nonzero : ∀ id ∈ r.ids, ∃ n, id = some n ∧ 0 < n ∧ n < 2 ^ 16
  stored : ∀ topic messageLength, r.call = .operate (.sendPublishHeader topic messageLength) →
    r.ids = r.messageId.toList.map fun messageId => some messageId.toNat

/-- What a call does with the message id `m`: it may set it back, with a CONNECT that it hands over
or because the connection is established; it leaves it; or it hands over one packet that carries
it, and takes the next one. -/
inductive Takes (m : UInt16) : Returned → UInt16 → Prop
  | restart {r : Returned} (hcall : r.call.Restarts) (hids : r.ids = [])
      (hreason : r.call = .onConnected ∨ r.handed ≠ []) : Takes m r 1
  | nothing {r : Returned} (hids : r.ids = []) (hstored : r.messageId = none) : Takes m r m
  | one {r : Returned} (hids : r.ids = [some m.toNat]) (hhanded : r.handed ≠ [])
      (hstored : ∀ topic messageLength,
        r.call = .operate (.sendPublishHeader topic messageLength) → r.messageId = some m) :
      Takes m r (World.nextMessageId m)

namespace World

variable {κ : Type} {d : Downstream κ} {w w' : World κ}

/-- A call, and what it leaves. -/
def perform (d : Downstream κ) (w : World κ) : Call → Option (Returned × World κ)
  | .onConnected => some (⟨.onConnected, none, []⟩, w.onConnected d)
  | .operate op => do
    let (messageId, _, w') ← w.operate d op
    return (⟨.operate op, messageId, w'.handed.drop w.handed.length⟩, w')

/-- Calls, one after the other, whatever they return. -/
def trace (d : Downstream κ) (w : World κ) : List Call → Option (List Returned × World κ)
  | [] => some ([], w)
  | c :: cs => do
    let (r, w) ← w.perform d c
    let (rs, w) ← w.trace d cs
    return (r :: rs, w)

/-! ### One call -/

/-- A SUBSCRIBE is refused, or it is handed over with the message id of the handler. -/
theorem sendSubscribe_id {topic : List UInt8} {ok : Bool}
    (h : w.sendSubscribe d topic = some (ok, w')) :
    w' = w ∨ w'.handler.messageId = nextMessageId w.handler.messageId ∧
      ∃ bytes, w'.handed = w.handed ++ [bytes] ∧
        messageIdOf bytes = some w.handler.messageId.toNat := by
  rw [sendSubscribe_take] at h
  have htopic : (topic.take (topic.length % 2 ^ 16)).length < 2 ^ 16 := by
    rw [length_take_mod]
    omega
  generalize topic.take (topic.length % 2 ^ 16) = topic at htopic h
  by_cases hrefused : 0 < w.handler.pendingSendDataLen ∨
      MQTT_BUFFER_SIZE < 2 + topic.length + 2 + 1 + MQTT_MAX_HEADER_SIZE
  · rw [sendSubscribe_refused htopic hrefused] at h
    cases h
    exact .inl rfl
  · rw [not_or, Nat.not_lt, Nat.not_lt] at hrefused
    have hzero : w.handler.pendingSendDataLen = 0 := Nat.le_zero.1 hrefused.1
    obtain ⟨r, f, hresult, hwhole, hhanded, -⟩ :=
      sendSubscribe_spec (d := d) hzero htopic hrefused.2
    obtain rfl : (ok, w') = r := Option.some.inj (h.symm.trans hresult)
    refine .inr ⟨?_, _, hhanded, messageIdOf_subscribePacket hwhole.complete hwhole.length_le⟩
    rcases sendSubscribe_cases h with ⟨-, rfl⟩ | ⟨-, bytes, heq⟩
    · -- something has been handed over
      exact absurd (List.self_eq_append_right.1 hhanded) (List.cons_ne_nil _ _)
    · cases heq
      rfl

/-- A PUBLISH is refused, or it is handed over with the message id of the handler. -/
theorem sendPublishHeader_id {topic : List UInt8} {messageLength : ℕ}
    {messageId : Option UInt16} {ok : Bool}
    (h : w.sendPublishHeader d topic messageLength = some (messageId, ok, w')) :
    (messageId = none ∧ w' = w) ∨ messageId = some w.handler.messageId ∧
      w'.handler.messageId = nextMessageId w.handler.messageId ∧
      ∃ bytes, w'.handed = w.handed ++ [bytes] ∧
        messageIdOf bytes = some w.handler.messageId.toNat := by
  rw [sendPublishHeader_take] at h
  have htopic : (topic.take (topic.length % 2 ^ 16)).length < 2 ^ 16 := by
    rw [length_take_mod]
    omega
  generalize topic.take (topic.length % 2 ^ 16) = topic at htopic h
  rw [sendPublishHeader] at h
  split at h
  · cases h
    exact .inl ⟨rfl, rfl⟩
  dsimp only at h
  obtain ⟨c, hwrite, h⟩ := Option.bind_eq_some_iff.1 h
  cases c with
  | none =>
      cases h
      exact .inl ⟨rfl, rfl⟩
  | some c =>
      have hheader : MQTT_MAX_HEADER_SIZE = 5 := rfl
      obtain ⟨f, hc, hcomplete, hle, -⟩ := writeHeader_some (by omega) hwrite
      obtain ⟨c₁, hput₁, h⟩ := Option.bind_eq_some_iff.1 h
      obtain ⟨c₂, hput₂, h⟩ := Option.bind_eq_some_iff.1 h
      obtain ⟨c₃, hcopy, h⟩ := Option.bind_eq_some_iff.1 h
      obtain ⟨c₄, hput₄, h⟩ := Option.bind_eq_some_iff.1 h
      obtain ⟨c₅, hput₅, h⟩ := Option.bind_eq_some_iff.1 h
      have hall := ((((hc.of_put hput₁).of_put hput₂).of_copy hcopy).of_put hput₄).of_put hput₅
      cases h
      refine .inr ⟨rfl, rfl, _, rfl, ?_⟩
      rw [hall.written_eq, Nat.mod_eq_of_lt htopic, List.take_length]
      have hread : messageIdOf (publishHeader f topic w.handler.messageId).bytes =
          some w.handler.messageId.toNat := messageIdOf_publishHeader hcomplete hle htopic
      simpa [publishHeader, Packet.bytes, idField, stringBytes] using hread

/-- Other operations leave the message id as it is. -/
theorem sendPing_messageId {ok : Bool} (h : w.sendPing d = some (ok, w')) :
    w'.handler.messageId = w.handler.messageId := by
  rcases sendPing_cases h with ⟨-, -, rfl⟩ | ⟨-, bytes, heq⟩
  · rfl
  · cases heq
    rfl

theorem sendPublishData_messageId {data : List UInt8} {ok : Bool}
    (h : w.sendPublishData d data = some (ok, w')) :
    w'.handler.messageId = w.handler.messageId := by
  rcases sendPublishData_cases h with ⟨-, -, rfl⟩ | ⟨-, sent, w₁, heq, hrest⟩
  · rfl
  · cases heq
    split at hrest
    · have hid := sendPing_messageId hrest
      exact hid
    · obtain ⟨-, rfl⟩ := hrest
      rfl

theorem update_messageId {nowUs : UInt64} {ok : Bool} (h : w.update d nowUs = some (ok, w')) :
    w'.handler.messageId = w.handler.messageId := by
  rcases hconnected : d.isConnected w.env with ⟨connected, env⟩
  rw [update, hconnected] at h
  dsimp only at h
  split at h
  · split at h
    · obtain ⟨⟨ok', w₁⟩, hping, h⟩ := Option.bind_eq_some_iff.1 h
      cases h
      have hid := sendPing_messageId hping
      exact hid
    · cases h
      rfl
  · cases h
    rfl

theorem perform_call {c : Call} {r : Returned} (h : w.perform d c = some (r, w')) : r.call = c := by
  cases c with
  | onConnected =>
      cases h
      rfl
  | operate op =>
      obtain ⟨⟨messageId, ok, w₁⟩, hop, h⟩ := Option.bind_eq_some_iff.1 h
      cases h
      rfl

/-- **What a call does with the message id.** -/
theorem perform_takes {c : Call} {r : Returned} (h : w.perform d c = some (r, w')) :
    Takes w.handler.messageId r w'.handler.messageId := by
  cases c with
  | onConnected =>
      cases h
      exact .restart trivial rfl (.inl rfl)
  | operate op =>
      obtain ⟨⟨messageId, ok, w₁⟩, hop, h⟩ := Option.bind_eq_some_iff.1 h
      cases h
      cases op with
      | sendConnect cleanSession keepaliveSeconds id willTopic willMessage user pass =>
          obtain ⟨⟨ok', w₂⟩, hresult, heq⟩ := Option.map_eq_some_iff.1 hop
          cases heq
          rcases sendConnect_cases hresult with ⟨-, rfl⟩ | ⟨-, bytes, heq⟩
          · exact .nothing rfl rfl
          · cases heq
            refine .restart trivial rfl (.inr ?_)
            show (w.handed ++ [bytes]).drop w.handed.length ≠ []
            rw [List.drop_left]
            exact List.cons_ne_nil _ _
      | sendSubscribe topic =>
          obtain ⟨⟨ok', w₂⟩, hresult, heq⟩ := Option.map_eq_some_iff.1 hop
          cases heq
          rcases sendSubscribe_id hresult with rfl | ⟨hnext, bytes, hhanded, hid⟩
          · refine .nothing ?_ rfl
            rw [Returned.ids, List.drop_length, List.map_nil]
          · rw [hnext, hhanded, List.drop_left]
            refine .one ?_ (List.cons_ne_nil _ _) (fun _ _ hcall => by cases hcall)
            rw [Returned.ids, List.map_singleton, hid]
      | sendPublishHeader topic messageLength =>
          rcases sendPublishHeader_id hop with ⟨rfl, rfl⟩ | ⟨rfl, hnext, bytes, hhanded, hid⟩
          · refine .nothing ?_ rfl
            rw [Returned.ids, List.drop_length, List.map_nil]
          · rw [hnext, hhanded, List.drop_left]
            refine .one ?_ (List.cons_ne_nil _ _) (fun _ _ _ => rfl)
            rw [Returned.ids, List.map_singleton, hid]
      | sendPublishData data =>
          obtain ⟨⟨ok', w₂⟩, hresult, heq⟩ := Option.map_eq_some_iff.1 hop
          cases heq
          rw [sendPublishData_messageId hresult]
          exact .nothing rfl rfl
      | sendPing =>
          obtain ⟨⟨ok', w₂⟩, hresult, heq⟩ := Option.map_eq_some_iff.1 hop
          cases heq
          rw [sendPing_messageId hresult]
          exact .nothing rfl rfl
      | update nowUs =>
          obtain ⟨⟨ok', w₂⟩, hresult, heq⟩ := Option.map_eq_some_iff.1 hop
          cases heq
          rw [update_messageId hresult]
          exact .nothing rfl rfl

end World

/-! ### The ids in their order -/

/-- The message id that comes `k` places after `m`. -/
def idAfter (m : UInt16) (k : ℕ) : ℕ := (m.toNat - 1 + k) % 65535 + 1

section order

variable {m m' : UInt16} {r : Returned}

theorem toNat_pos_of_ne_zero (hm : m ≠ 0) : 0 < m.toNat :=
  Nat.pos_of_ne_zero fun hzero => hm (UInt16.toNat_inj.1 hzero)

/-- The last id is followed by the first. -/
theorem toNat_nextMessageId (m : UInt16) :
    (World.nextMessageId m).toNat = if m.toNat = 65535 then 1 else m.toNat + 1 := by
  have hlt := m.toNat_lt
  have hlast : m = 0xFFFF ↔ m.toNat = 65535 := UInt16.toNat_inj.symm
  rw [World.nextMessageId]
  by_cases h : m.toNat = 65535
  · rw [if_pos (hlast.2 h), if_pos h]
    rfl
  · rw [if_neg (fun hm => h (hlast.1 hm)), if_neg h, UInt16.toNat_add]
    exact Nat.mod_eq_of_lt (by have : (1 : UInt16).toNat = 1 := rfl; omega)

theorem nextMessageId_ne_zero (m : UInt16) : World.nextMessageId m ≠ 0 := by
  intro hzero
  have hnat := toNat_nextMessageId m
  rw [hzero, UInt16.toNat_zero] at hnat
  split at hnat <;> omega

theorem idAfter_zero (hm : m ≠ 0) : idAfter m 0 = m.toNat := by
  have hpos := toNat_pos_of_ne_zero hm
  have hlt := m.toNat_lt
  rw [idAfter, Nat.add_zero, Nat.mod_eq_of_lt (by omega)]
  omega

theorem idAfter_next (hm : m ≠ 0) (k : ℕ) :
    idAfter (World.nextMessageId m) k = idAfter m (k + 1) := by
  have hpos := toNat_pos_of_ne_zero hm
  rw [idAfter, idAfter, toNat_nextMessageId]
  split <;> omega

/-- **The same id comes back after 65535 ids and not before.** -/
theorem dvd_of_idAfter_eq {i j : ℕ} (hij : i ≤ j) (h : idAfter m i = idAfter m j) :
    65535 ∣ j - i := by
  have hmod : (m.toNat - 1 + i) % 65535 = (m.toNat - 1 + j) % 65535 := Nat.succ.inj h
  omega

/-- A call that hands nothing over leaves the message id, unless it is `on_connected`. -/
theorem Takes.unused (h : Takes m r m') (hcall : r.call ≠ .onConnected) (hhanded : r.handed = []) :
    m' = m := by
  cases h with
  | restart _ _ hreason =>
      rcases hreason with hconnected | hsome
      · exact absurd hconnected hcall
      · exact absurd hhanded hsome
  | nothing => rfl
  | one _ hsome => exact absurd hhanded hsome

/-- A call that has returned is sound, and does not leave zero. -/
theorem Takes.sound (h : Takes m r m') (hm : m ≠ 0) : r.Sound ∧ m' ≠ 0 := by
  have hpos := toNat_pos_of_ne_zero hm
  have hlt := m.toNat_lt
  cases h with
  | restart hcall hids =>
      refine ⟨⟨?_, ?_⟩, by decide⟩
      · intro id hid
        rw [hids] at hid
        exact absurd hid List.not_mem_nil
      · intro topic messageLength hpublish
        rw [hpublish] at hcall
        exact hcall.elim
  | nothing hids hstored =>
      refine ⟨⟨?_, ?_⟩, hm⟩
      · intro id hid
        rw [hids] at hid
        exact absurd hid List.not_mem_nil
      · intro topic messageLength _
        rw [hids, hstored]
        rfl
  | one hids hhanded hstored =>
      refine ⟨⟨?_, ?_⟩, nextMessageId_ne_zero m⟩
      · intro id hid
        rw [hids, List.mem_singleton] at hid
        exact ⟨m.toNat, hid, hpos, hlt⟩
      · intro topic messageLength hpublish
        rw [hids, hstored topic messageLength hpublish]
        rfl

end order

/-! ### Runs -/

namespace World

variable {κ : Type} {d : Downstream κ}

/-- **The calls of a run are sound.** -/
theorem trace_sound {calls : List Call} : ∀ {w w' : World κ} {rs : List Returned},
    w.handler.messageId ≠ 0 → w.trace d calls = some (rs, w') →
    (∀ r ∈ rs, r.Sound) ∧ w'.handler.messageId ≠ 0 := by
  induction calls with
  | nil =>
      intro w w' rs hm h
      cases h
      exact ⟨fun r hr => absurd hr List.not_mem_nil, hm⟩
  | cons c cs ih =>
      intro w w' rs hm h
      obtain ⟨⟨r, w₁⟩, hperform, h⟩ := Option.bind_eq_some_iff.1 h
      obtain ⟨⟨rs₁, w₂⟩, htrace, h⟩ := Option.bind_eq_some_iff.1 h
      cases h
      obtain ⟨hr, hm₁⟩ := (perform_takes hperform).sound hm
      obtain ⟨hrs, hm₂⟩ := ih hm₁ htrace
      exact ⟨List.forall_mem_cons.2 ⟨hr, hrs⟩, hm₂⟩

/-- A run, up to any of its calls and from there on. -/
theorem trace_split {calls : List Call} : ∀ {w w' : World κ} {pre post : List Returned},
    w.trace d calls = some (pre ++ post, w') → ∃ cs₁ cs₂ w₁, calls = cs₁ ++ cs₂ ∧
      w.trace d cs₁ = some (pre, w₁) ∧ w₁.trace d cs₂ = some (post, w') := by
  induction calls with
  | nil =>
      intro w w' pre post h
      have hnil : [] = pre ++ post := (Prod.mk.inj (Option.some.inj h)).1
      obtain ⟨rfl, rfl⟩ := List.append_eq_nil_iff.1 hnil.symm
      cases h
      exact ⟨[], [], w, rfl, rfl, rfl⟩
  | cons c cs ih =>
      intro w w' pre post h
      cases pre with
      | nil => exact ⟨[], c :: cs, w, rfl, rfl, h⟩
      | cons r pre =>
          obtain ⟨⟨r₁, w₁⟩, hperform, h⟩ := Option.bind_eq_some_iff.1 h
          obtain ⟨⟨rs₁, w₂⟩, htrace, h⟩ := Option.bind_eq_some_iff.1 h
          cases h
          obtain ⟨cs₁, cs₂, w₃, rfl, hpre, hpost⟩ := ih htrace
          refine ⟨c :: cs₁, cs₂, w₃, rfl, ?_, hpost⟩
          rw [trace, hperform, Option.bind_eq_bind, Option.bind_some]
          dsimp only
          rw [hpre]
          rfl

/-- **The ids of a run without a restart are the ids in their order.** -/
theorem trace_ids {calls : List Call} : ∀ {w w' : World κ} {rs : List Returned},
    w.handler.messageId ≠ 0 → w.trace d calls = some (rs, w') →
    (∀ r ∈ rs, ¬ r.call.Restarts) → ∀ (k : ℕ) (id : Option ℕ),
      (rs.flatMap Returned.ids)[k]? = some id → id = some (idAfter w.handler.messageId k) := by
  induction calls with
  | nil =>
      intro w w' rs _ h _ k id hk
      cases h
      cases hk
  | cons c cs ih =>
      intro w w' rs hm h hno k id hk
      obtain ⟨⟨r, w₁⟩, hperform, h⟩ := Option.bind_eq_some_iff.1 h
      obtain ⟨⟨rs₁, w₂⟩, htrace, h⟩ := Option.bind_eq_some_iff.1 h
      cases h
      obtain ⟨hr, hrs⟩ := List.forall_mem_cons.1 hno
      have htakes := perform_takes hperform
      have hm₁ := (htakes.sound hm).2
      rw [List.flatMap_cons] at hk
      generalize hm' : w₁.handler.messageId = m' at htakes hm₁
      cases htakes with
      | restart hcall => exact absurd hcall hr
      | nothing hids =>
          rw [hids, List.nil_append] at hk
          rw [← hm']
          exact ih (hm' ▸ hm) htrace hrs k id hk
      | one hids =>
          rw [hids, List.singleton_append] at hk
          cases k with
          | zero =>
              rw [idAfter_zero hm]
              exact (Option.some.inj hk).symm
          | succ k =>
              rw [← idAfter_next hm, ← hm']
              exact ih (hm' ▸ hm₁) htrace hrs k id hk

end World

/-- **Message ids are fresh.**  In a run of `on_connected` and of the operations, from a new handler
on: every SUBSCRIBE and every PUBLISH that is handed over carries a message id that is not zero, and
`*out_message_id` is the one that is written in the PUBLISH; a call that hands nothing over takes no
message id; and in a part of the run without `on_connected` and `send_connect`, packets with the
same id are a multiple of 65535 packets with an id apart. -/
theorem ids_fresh {κ : Type} (d : Downstream κ) (recvBuffer : Buffer MQTT_BUFFER_SIZE) (env : κ)
    (calls : List Call) (rs : List Returned) (w : World κ)
    (hrun : (⟨.new recvBuffer, env, []⟩ : World κ).trace d calls = some (rs, w)) :
    (∀ r ∈ rs, r.Sound) ∧
    (∀ (w₁ w₂ : World κ) (op : SendOp) (r : Returned),
      w₁.perform d (.operate op) = some (r, w₂) → r.handed = [] →
        w₂.handler.messageId = w₁.handler.messageId) ∧
    ∀ pre mid post, rs = pre ++ mid ++ post → (∀ r ∈ mid, ¬ r.call.Restarts) →
      ∀ i j id, i ≤ j → (mid.flatMap Returned.ids)[i]? = some id →
        (mid.flatMap Returned.ids)[j]? = some id → 65535 ∣ j - i := by
  have hnew : (⟨.new recvBuffer, env, []⟩ : World κ).handler.messageId ≠ 0 :=
    show (1 : UInt16) ≠ 0 by decide
  refine ⟨(World.trace_sound hnew hrun).1, ?_, ?_⟩
  · intro w₁ w₂ op r hperform hhanded
    refine (World.perform_takes hperform).unused ?_ hhanded
    rw [World.perform_call hperform]
    exact fun hcall => by cases hcall
  · rintro pre mid post rfl hno i j id hij hi hj
    rw [List.append_assoc] at hrun
    obtain ⟨cs₁, cs₂, w₁, -, hpre, hrest⟩ := World.trace_split hrun
    obtain ⟨cs₃, cs₄, w₂, -, hmid, -⟩ := World.trace_split hrest
    have hm := (World.trace_sound hnew hpre).2
    have hid := World.trace_ids hm hmid hno i id hi
    have hid' := World.trace_ids hm hmid hno j id hj
    exact dvd_of_idAfter_eq hij (Option.some.inj (hid.symm.trans hid'))

/-- A SUBSCRIBE, and a PUBLISH without payload. -/
theorem ids_fresh_example : ∃ (rs : List Returned) (w : World Unit),
    (⟨zeroed, (), []⟩ : World Unit).trace quiet
      [.operate (.sendSubscribe [7]), .operate (.sendPublishHeader [7] 0)] = some (rs, w) ∧
    (∀ r ∈ rs, r.Sound) ∧ rs.flatMap Returned.ids = [some 1, some 2] := by
  have hrun : ((⟨zeroed, (), []⟩ : World Unit).trace quiet
      [.operate (.sendSubscribe [7]), .operate (.sendPublishHeader [7] 0)]).map
        (fun r => r.1.flatMap Returned.ids) = some [some 1, some 2] := by
    decide +kernel
  obtain ⟨⟨rs, w⟩, htrace, hids⟩ := Option.map_eq_some_iff.1 hrun
  exact ⟨rs, w, htrace, (ids_fresh quiet (.filled _ 0) () _ rs w htrace).1, hids⟩

end Mqtt
