/-
**A reconnect leaves nothing behind.**

`on_connected` does not touch the bytes of the receive buffer, and it does not touch the keepalive
time.  Neither can be noticed: the decoder reads the buffer only below the index, which starts at
zero again, and the keepalive time is used by `update` only.  So a handler whose connection has
been established behaves like a new one, whatever it went through before.

Main definitions:

* `Mqtt.Alike`, `Mqtt.World.Alike` — handlers that differ only in what is not used;
* `Mqtt.Happening`, `Mqtt.Observed`, `Mqtt.Acts`, `Mqtt.Behaves` — what may happen to a handler on
  a connection, and what can be observed of what it does.

Main results:

* `Mqtt.sim_alike` — alike handlers decode alike;
* `Mqtt.World.step_alike` — alike handlers send alike;
* `Mqtt.reconnected` — **after `on_connected` a handler behaves like a new one**.
-/

import PicoHttps.Mqtt.Recv
import PicoHttps.Mqtt.Send

set_option relaxedAutoImplicit false
set_option autoImplicit false

namespace Mqtt

open MQTTSocketHandler

/-! ### Handlers that decode alike -/

/-- The handlers differ only in what is not used on a connection: the bytes of the buffer from the
index on, the keepalive time and the last time something was sent. -/
structure Alike (h₁ h₂ : MQTTSocketHandler) : Prop where
  received : ∃ Y, (h₁.recvBuffer.Holds Y ∧ h₁.recvBufferIdx = Y.length) ∧
    h₂.recvBuffer.Holds Y ∧ h₂.recvBufferIdx = Y.length
  state_eq : h₁.state = h₂.state
  pendingDataLen : h₁.pendingDataLen = h₂.pendingDataLen
  pendingPing : h₁.pendingPing = h₂.pendingPing
  messageId : h₁.messageId = h₂.messageId
  pendingSendDataLen : h₁.pendingSendDataLen = h₂.pendingSendDataLen

namespace Alike

variable {h₁ h₂ : MQTTSocketHandler}

theorem symm (h : Alike h₁ h₂) : Alike h₂ h₁ := by
  obtain ⟨⟨Y, hb₁, hb₂⟩, hstate, hdata, hping, hid, hsend⟩ := h
  exact ⟨⟨Y, hb₂, hb₁⟩, hstate.symm, hdata.symm, hping.symm, hid.symm, hsend.symm⟩

theorem buffered (h : Alike h₁ h₂) : ∃ Y, Buffered h₁ Y ∧ Buffered h₂ Y := by
  obtain ⟨Y, ⟨hb₁, hi₁⟩, hb₂, hi₂⟩ := h.received
  exact ⟨Y, ⟨hb₁, hi₁⟩, hb₂, hi₂⟩

/-- The same bytes in the buffer. -/
theorem withBuffer (h : Alike h₁ h₂) {b₁ b₂ : Buffer MQTT_BUFFER_SIZE} {i₁ i₂ : ℕ}
    {Y : List UInt8} (hb₁ : Buffered (h₁.withBuffer b₁ i₁) Y)
    (hb₂ : Buffered (h₂.withBuffer b₂ i₂) Y) :
    Alike (h₁.withBuffer b₁ i₁) (h₂.withBuffer b₂ i₂) :=
  { h with received := ⟨Y, ⟨hb₁.holds, hb₁.idx⟩, hb₂.holds, hb₂.idx⟩ }

/-- The buffer is emptied. -/
theorem restart (h : Alike h₁ h₂) :
    Alike { h₁ with recvBufferIdx := 0 } { h₂ with recvBufferIdx := 0 } :=
  { h with received := ⟨[], ⟨Buffer.holds_nil _, rfl⟩, Buffer.holds_nil _, rfl⟩ }

end Alike

/-- What two decoders leave is alike. -/
structure DecodedAlike (d₁ d₂ : Decoded) : Prop where
  handler : Alike d₁.handler d₂.handler
  data : d₁.data = d₂.data
  calls : d₁.calls = d₂.calls
  ok : d₁.ok = d₂.ok

section decode

variable {h₁ h₂ : MQTTSocketHandler}

theorem consume_alike (h : Alike h₁ h₂) (data : List UInt8) (calls : List UpstreamCall)
    (bytes : ℕ) : DecodedAlike (consume h₁ data calls bytes) (consume h₂ data calls bytes) := by
  unfold consume
  split
  · exact ⟨h, rfl, rfl, rfl⟩
  · exact ⟨h, rfl, rfl, rfl⟩

/-- **What a decoder leaves is alike**, from alike handlers with the same head. -/
theorem decoded_alike (h : Alike h₁ h₂) (data : List UInt8) (startPosition : ℕ) (hd : Head) :
    DecodedAlike (hd.decoded h₁ data startPosition) (hd.decoded h₂ data startPosition) := by
  have hrestart := h.restart
  cases hd with
  | more => exact consume_alike h data [] data.length
  | refused => exact ⟨h, rfl, rfl, rfl⟩
  | publish topic messageId size n =>
      have hpublish : Alike
          { h₁ with pendingDataLen := n, state := .WAIT_DATA, recvBufferIdx := 0 }
          { h₂ with pendingDataLen := n, state := .WAIT_DATA, recvBufferIdx := 0 } :=
        { hrestart with state_eq := rfl, pendingDataLen := rfl }
      rw [Head.decoded, Head.decoded]
      split
      · exact ⟨hpublish, rfl, rfl, rfl⟩
      · exact consume_alike hpublish data _ _
  | packet call need size =>
      rw [Head.decoded, Head.decoded]
      split
      · exact ⟨h, rfl, rfl, rfl⟩
      · exact consume_alike hrestart data _ _

theorem decodeHeader_alike (h : Alike h₁ h₂) (x : List UInt8) :
    ∃ d₁ d₂, h₁.decodeHeader x = some d₁ ∧ h₂.decodeHeader x = some d₂ ∧ DecodedAlike d₁ d₂ := by
  obtain ⟨Y, hY₁, hY₂⟩ := h.buffered
  have htake : Y.take MQTT_BUFFER_SIZE = Y := List.take_of_length_le hY₁.holds.length_le
  obtain ⟨b₁, i₁, hb₁, hdec₁⟩ := decodeHeader_eq (B := Y) (htake.symm ▸ hY₁) x
  obtain ⟨b₂, i₂, hb₂, hdec₂⟩ := decodeHeader_eq (B := Y) (htake.symm ▸ hY₂) x
  exact ⟨_, _, hdec₁, hdec₂, decoded_alike (h.withBuffer hb₁ hb₂) x _ _⟩

/-- The loops have returned alike. -/
def LeftAlike (r₁ r₂ : Option (Bool × MQTTSocketHandler)) : Prop :=
  Option.Rel (fun p₁ p₂ => p₁.1 = p₂.1 ∧ Alike p₁.2 p₂.2) r₁ r₂

/-- **Alike handlers decode alike**, iteration by iteration. -/
theorem sim_alike : While.Sim decodeTurn decodeTurn (fun s₁ s₂ => Alike s₁.1 s₂.1 ∧ s₁.2 = s₂.2)
    LeftAlike := by
  rintro ⟨h₁, x⟩ ⟨h₂, x'⟩ ⟨h, hxx⟩
  obtain rfl : x = x' := hxx
  by_cases hx : x = []
  · subst hx
    exact ⟨rfl, .inr (.some ⟨rfl, h⟩)⟩
  cases hst : h₂.state with
  | WAIT_PACKET =>
      obtain ⟨d₁, d₂, hdec₁, hdec₂, hd⟩ := decodeHeader_alike h x
      rw [decodeTurn_packet hx (h.state_eq.trans hst) hdec₁, decodeTurn_packet hx hst hdec₂,
        hd.ok, hd.calls]
      split
      · exact ⟨rfl, .inl ⟨hd.handler, hd.data⟩⟩
      · exact ⟨rfl, .inr (.some ⟨rfl, hd.handler⟩)⟩
  | WAIT_DATA =>
      rw [decodeTurn_data hx (h.state_eq.trans hst), decodeTurn_data hx hst, h.pendingDataLen]
      split
      · exact ⟨rfl, .inl ⟨{ h with pendingDataLen := rfl }, rfl⟩⟩
      · exact ⟨rfl, .inl ⟨{ h with state_eq := rfl, pendingDataLen := rfl }, rfl⟩⟩

end decode

/-! ### Handlers that send alike -/

/-- Two computations that go on alike. -/
theorem rel_bind {α β γ : Type} {R : β → γ → Prop} {x : Option α} {f : α → Option β}
    {g : α → Option γ} (h : ∀ a, Option.Rel R (f a) (g a)) :
    Option.Rel R (x >>= f) (x >>= g) := by
  cases x with
  | none => exact .none
  | some a => exact h a

namespace World

variable {κ : Type} {d : Downstream κ} {w₁ w₂ : World κ}

/-- Alike handlers in the same surroundings. -/
structure Alike (w₁ w₂ : World κ) : Prop where
  handler : Mqtt.Alike w₁.handler w₂.handler
  env : w₁.env = w₂.env

theorem Alike.symm (h : w₁.Alike w₂) : w₂.Alike w₁ := ⟨h.handler.symm, h.env.symm⟩

/-- From `w₁` and `w₂` the operations have answered the same, have handed over the same and have
left alike handlers. -/
def AnswersAlike (w₁ w₂ : World κ) (r₁ r₂ : Bool × World κ) : Prop :=
  r₁.1 = r₂.1 ∧ r₁.2.Alike r₂.2 ∧
    ∃ out, r₁.2.handed = w₁.handed ++ out ∧ r₂.2.handed = w₂.handed ++ out

theorem Alike.refuse (h : w₁.Alike w₂) (ok : Bool) : AnswersAlike w₁ w₂ (ok, w₁) (ok, w₂) :=
  ⟨rfl, h, [], (List.append_nil _).symm, (List.append_nil _).symm⟩

/-- The same bytes are handed over by alike handlers. -/
theorem send_alike {v₁ v₂ : World κ} (h : v₁.Alike v₂) (h₁ : v₁.handed = w₁.handed)
    (h₂ : v₂.handed = w₂.handed) (bytes : List UInt8) :
    AnswersAlike w₁ w₂ (World.send d v₁ bytes) (World.send d v₂ bytes) := by
  refine ⟨?_, ⟨h.handler, ?_⟩, [bytes], ?_, ?_⟩
  · show ((d.send bytes v₁.env).1 != 0) = ((d.send bytes v₂.env).1 != 0)
    rw [h.env]
  · show (d.send bytes v₁.env).2 = (d.send bytes v₂.env).2
    rw [h.env]
  · show v₁.handed ++ [bytes] = w₁.handed ++ [bytes]
    rw [h₁]
  · show v₂.handed ++ [bytes] = w₂.handed ++ [bytes]
    rw [h₂]

theorem Alike.stamp (h : w₁.Alike w₂) : (w₁.stamp d).Alike (w₂.stamp d) := by
  refine ⟨{ h.handler with }, ?_⟩
  show (d.getAbsoluteTime w₁.env).2 = (d.getAbsoluteTime w₂.env).2
  rw [h.env]

/-! The handlers are stamped and send the same bytes. -/

theorem stamped_alike {v₁ v₂ : World κ} (h : Mqtt.Alike v₁.handler v₂.handler)
    (henv : v₁.env = v₂.env) (h₁ : v₁.handed = w₁.handed) (h₂ : v₂.handed = w₂.handed)
    (bytes : List UInt8) :
    AnswersAlike w₁ w₂ (World.send d (v₁.stamp d) bytes) (World.send d (v₂.stamp d) bytes) :=
  send_alike (Alike.stamp ⟨h, henv⟩) h₁ h₂ bytes

theorem sendConnect_alike (h : w₁.Alike w₂) (cleanSession : Bool) (keepaliveSeconds : UInt8)
    (id willTopic willMessage user pass : Option (List UInt8)) :
    Option.Rel (AnswersAlike w₁ w₂)
      (w₁.sendConnect d cleanSession keepaliveSeconds id willTopic willMessage user pass)
      (w₂.sendConnect d cleanSession keepaliveSeconds id willTopic willMessage user pass) := by
  have hrefuse := h.refuse false
  rw [sendConnect, sendConnect, h.handler.pendingSendDataLen]
  split
  · exact .some hrefuse
  · extract_lets idLen willTopicLen willMessageLen userLen passLen messageSize sendBuffer
    split
    · exact .some hrefuse
    · refine rel_bind fun c => ?_
      cases c with
      | none => exact .some hrefuse
      | some c =>
          refine rel_bind fun c₁ => ?_
          cases id with
          | none => exact .some hrefuse
          | some id =>
              refine rel_bind fun c₂ => .some (send_alike ⟨?_, ?_⟩ rfl rfl _)
              · exact { h.handler with messageId := rfl }
              · show (d.getAbsoluteTime w₁.env).2 = (d.getAbsoluteTime w₂.env).2
                rw [h.env]

theorem sendSubscribe_alike (h : w₁.Alike w₂) (topic : List UInt8) :
    Option.Rel (AnswersAlike w₁ w₂) (w₁.sendSubscribe d topic) (w₂.sendSubscribe d topic) := by
  have hrefuse := h.refuse false
  have hstack : ∀ n, d.stack n w₁.env = d.stack n w₂.env := fun n => by rw [h.env]
  rw [sendSubscribe, sendSubscribe, h.handler.pendingSendDataLen, h.handler.messageId]
  split
  · exact .some hrefuse
  · dsimp only
    split
    · exact .some hrefuse
    · rw [hstack]
      refine rel_bind fun c => ?_
      cases c with
      | none => exact .some hrefuse
      | some c =>
          refine rel_bind fun c₁ => rel_bind fun c₂ => rel_bind fun c₃ => rel_bind fun c₄ => ?_
          refine .some (stamped_alike ?_ ?_ rfl rfl _)
          · exact { h.handler with messageId := rfl }
          · exact h.env

theorem sendPublishHeader_alike (h : w₁.Alike w₂) (topic : List UInt8) (messageLength : ℕ) :
    Option.Rel (fun r₁ r₂ => r₁.1 = r₂.1 ∧ AnswersAlike w₁ w₂ r₁.2 r₂.2)
      (w₁.sendPublishHeader d topic messageLength) (w₂.sendPublishHeader d topic messageLength) := by
  have hrefuse := h.refuse false
  rw [sendPublishHeader, sendPublishHeader, h.handler.pendingSendDataLen, h.handler.messageId]
  split
  · exact .some ⟨rfl, hrefuse⟩
  · dsimp only
    refine rel_bind fun c => ?_
    cases c with
    | none => exact .some ⟨rfl, hrefuse⟩
    | some c =>
        refine rel_bind fun c₁ => rel_bind fun c₂ => rel_bind fun c₃ => rel_bind fun c₄ =>
          rel_bind fun c₅ => ?_
        refine .some ⟨rfl, stamped_alike ?_ ?_ rfl rfl _⟩
        · exact { h.handler with messageId := rfl, pendingSendDataLen := rfl }
        · exact h.env

theorem sendPing_alike (h : w₁.Alike w₂) :
    Option.Rel (AnswersAlike w₁ w₂) (w₁.sendPing d) (w₂.sendPing d) := by
  rw [sendPing, sendPing, h.handler.pendingSendDataLen]
  split
  · exact .some ⟨rfl, ⟨{ h.handler with pendingPing := rfl }, h.env⟩, [],
      (List.append_nil _).symm, (List.append_nil _).symm⟩
  · refine rel_bind fun c => .some (stamped_alike ?_ ?_ rfl rfl _)
    · exact { h.handler with pendingPing := rfl }
    · exact h.env

theorem sendPublishData_alike (h : w₁.Alike w₂) (data : List UInt8) :
    Option.Rel (AnswersAlike w₁ w₂) (w₁.sendPublishData d data) (w₂.sendPublishData d data) := by
  rw [sendPublishData, sendPublishData, h.handler.pendingSendDataLen]
  split
  · exact .some (h.refuse false)
  · extract_lets u₁ v₁ u₂ v₂
    have hv : v₁.Alike v₂ := ⟨{ h.handler with pendingSendDataLen := rfl }, h.env⟩
    have hanswers : AnswersAlike w₁ w₂ (World.send d v₁ data) (World.send d v₂ data) :=
      send_alike hv rfl rfl data
    obtain ⟨hok, hsent, hout⟩ := hanswers
    generalize World.send d v₁ data = r₁, World.send d v₂ data = r₂ at hok hsent hout
    obtain ⟨sent, s₁⟩ := r₁
    obtain ⟨sent₂, s₂⟩ := r₂
    obtain rfl : sent = sent₂ := hok
    dsimp only at hsent hout ⊢
    rw [hsent.handler.pendingSendDataLen, hsent.handler.pendingPing]
    split
    · exact .some ⟨rfl, hsent, hout⟩
    · split
      · -- what is handed over after the data comes after it
        obtain ⟨out, hout₁, hout₂⟩ := hout
        have hping := sendPing_alike (d := d) hsent
        generalize s₁.sendPing d = q₁, s₂.sendPing d = q₂ at hping ⊢
        cases hping with
        | none => exact .none
        | some hr =>
            obtain ⟨hok, halike, out', h₁, h₂⟩ := hr
            refine .some ⟨hok, halike, out ++ out', ?_, ?_⟩
            · rw [h₁, hout₁, List.append_assoc]
            · rw [h₂, hout₂, List.append_assoc]
      · exact .some ⟨rfl, hsent, hout⟩

/-- An operation, with what it stores in `*out_message_id`. -/
def operate (d : Downstream κ) (w : World κ) : SendOp → Option (Option UInt16 × Bool × World κ)
  | .sendPublishHeader topic messageLength => w.sendPublishHeader d topic messageLength
  | op => (w.step d op).map fun r => (none, r)

/-- **Alike handlers send alike.** -/
theorem operate_alike (h : w₁.Alike w₂) {op : SendOp} (hop : ∀ nowUs, op ≠ .update nowUs) :
    Option.Rel (fun r₁ r₂ => r₁.1 = r₂.1 ∧ AnswersAlike w₁ w₂ r₁.2 r₂.2)
      (w₁.operate d op) (w₂.operate d op) := by
  have hmap : ∀ {q₁ q₂ : Option (Bool × World κ)}, Option.Rel (AnswersAlike w₁ w₂) q₁ q₂ →
      Option.Rel (fun r₁ r₂ : Option UInt16 × Bool × World κ =>
        r₁.1 = r₂.1 ∧ AnswersAlike w₁ w₂ r₁.2 r₂.2)
        (q₁.map fun r => (none, r)) (q₂.map fun r => (none, r)) := by
    intro q₁ q₂ hq
    cases hq with
    | none => exact .none
    | some hr => exact .some ⟨rfl, hr⟩
  cases op with
  | sendConnect cleanSession keepaliveSeconds id willTopic willMessage user pass =>
      exact hmap (sendConnect_alike h cleanSession keepaliveSeconds id willTopic willMessage user
        pass)
  | sendSubscribe topic => exact hmap (sendSubscribe_alike h topic)
  | sendPublishHeader topic messageLength => exact sendPublishHeader_alike h topic messageLength
  | sendPublishData data => exact hmap (sendPublishData_alike h data)
  | sendPing => exact hmap (sendPing_alike h)
  | update nowUs => exact absurd rfl (hop nowUs)

end World

/-! ### What can be observed on a connection -/

/-- What may happen to a handler on a connection: a chunk arrives, or an operation is called that
sends. -/
inductive Happening
  | recv (data : List UInt8)
  | send (op : SendOp) (hop : ∀ nowUs, op ≠ .update nowUs)

/-- What can be observed of it: the calls of the upstream interface and the answer of `on_recv`;
what an operation stores and returns, and what it hands to the downstream. -/
inductive Observed
  | recv (calls : List UpstreamCall) (ok : Bool)
  | send (messageId : Option UInt16) (ok : Bool) (handed : List (List UInt8))

/-- `Acts d w e o w'` : when `e` happens to `w`, the call returns, `o` is observed and `w'` is
left. -/
inductive Acts {κ : Type} (d : Downstream κ) : World κ → Happening → Observed → World κ → Prop
  | recv {w : World κ} {x : List UInt8} {calls : List UpstreamCall} {ok : Bool}
      {h' : MQTTSocketHandler} : While.Exec decodeTurn (w.handler, x) calls (some (ok, h')) →
      Acts d w (.recv x) (.recv calls ok) { w with handler := h' }
  | send {w w' : World κ} {op : SendOp} {hop : ∀ nowUs, op ≠ .update nowUs}
      {messageId : Option UInt16} {ok : Bool} {out : List (List UInt8)} :
      w.operate d op = some (messageId, ok, w') → w'.handed = w.handed ++ out →
      Acts d w (.send op hop) (.send messageId ok out) w'

/-- `Behaves d w es os` : when the `es` happen to `w`, one after the other and whatever is answered,
the `os` are observed. -/
inductive Behaves {κ : Type} (d : Downstream κ) : World κ → List Happening → List Observed → Prop
  | nil (w : World κ) : Behaves d w [] []
  | cons {w w' : World κ} {e : Happening} {o : Observed} {es : List Happening}
      {os : List Observed} : Acts d w e o w' → Behaves d w' es os →
      Behaves d w (e :: es) (o :: os)

section behaves

variable {κ : Type} {d : Downstream κ}

/-- **Of alike handlers the same is observed**, and alike handlers are left. -/
theorem Acts.alike {w₁ w₂ w₁' : World κ} {e : Happening} {o : Observed} (h : w₁.Alike w₂)
    (hacts : Acts d w₁ e o w₁') : ∃ w₂', Acts d w₂ e o w₂' ∧ w₁'.Alike w₂' := by
  cases hacts with
  | @recv x calls ok h₁ hexec =>
      obtain ⟨r, hexec', hr⟩ := sim_alike.exec hexec (w₂.handler, x) ⟨h.handler, rfl⟩
      cases hr with
      | some hr =>
          obtain ⟨hok, halike⟩ := hr
          cases hok
          exact ⟨_, .recv hexec', halike, h.env⟩
  | @send _ op hop messageId ok out hresult hhanded =>
      have hrel := World.operate_alike (d := d) h hop
      rw [hresult] at hrel
      generalize hresult' : w₂.operate d op = q₂ at hrel
      cases hrel with
      | @some _ r₂ hr =>
          obtain ⟨messageId₂, ok₂, w₂'⟩ := r₂
          obtain ⟨hid, hok, halike, out', hout₁, hout₂⟩ := hr
          obtain rfl : messageId = messageId₂ := hid
          obtain rfl : ok = ok₂ := hok
          obtain rfl : out' = out := List.append_cancel_left (hout₁.symm.trans hhanded)
          exact ⟨w₂', .send hresult' hout₂, halike⟩

theorem Behaves.alike {w₁ w₂ : World κ} {es : List Happening} {os : List Observed}
    (hbehaves : Behaves d w₁ es os) (h : w₁.Alike w₂) : Behaves d w₂ es os := by
  induction hbehaves generalizing w₂ with
  | nil w => exact .nil w₂
  | cons hacts _ ih =>
      obtain ⟨w₂', hacts', halike⟩ := hacts.alike h
      exact .cons hacts' (ih halike)

/-- A handler whose connection has been established, and a new one. -/
theorem onConnected_alike (w : World κ) (recvBuffer : Buffer MQTT_BUFFER_SIZE) :
    (w.onConnected d).Alike ⟨.new recvBuffer, (w.onConnected d).env, []⟩ :=
  ⟨⟨⟨[], ⟨Buffer.holds_nil _, rfl⟩, Buffer.holds_nil _, rfl⟩, rfl, rfl, rfl, rfl, rfl⟩, rfl⟩

end behaves

/-- **After `on_connected` a handler behaves like a new one.**  Whatever state a handler is in when
its connection is established, and whatever the receive buffer of a new handler holds: in the same
surroundings, chunks that arrive and operations that are called, in any order, make both of them
return with the same answers, with the same calls of the upstream interface and with the same bytes
handed to the downstream, or make neither return. -/
theorem reconnected {κ : Type} (d : Downstream κ) (w : World κ)
    (recvBuffer : Buffer MQTT_BUFFER_SIZE) (es : List Happening) (os : List Observed) :
    Behaves d (w.onConnected d) es os ↔
      Behaves d ⟨.new recvBuffer, (w.onConnected d).env, []⟩ es os := by
  have halike := onConnected_alike (d := d) w recvBuffer
  constructor
  · intro hbehaves
    exact hbehaves.alike halike
  · intro hbehaves
    exact hbehaves.alike halike.symm

end Mqtt
