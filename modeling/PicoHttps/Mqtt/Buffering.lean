/-
**What is kept of a packet.**

While the decoder waits for the rest of a packet it consumes the whole chunk, although it copies
only as much of it as the buffer has room for.  A packet that it waits for fits the buffer, with
one exception: the length of the topic of a PUBLISH is checked before the message id is taken into
account.  So a header of one byte more than the buffer has is waited for when the buffer is full,
and everything that arrives from then on is lost.

Main definitions:

* `Mqtt.Reached`, `Mqtt.Follows` — the packets of a stream that are complete, and what follows the
  last one of them;
* `Mqtt.Stored` — the buffer holds what follows the last complete packet;
* `Mqtt.LongHeader`, `Mqtt.Deafened` — a header of one byte too many, of which more than the
  buffer has arrived.

Main results:

* `Mqtt.longHeader_of_more` — a packet that is waited for fits the buffer, or has such a header;
* `Mqtt.At.turn`, `Mqtt.at_of_fed` — where a reader is in the stream it has read;
* `Mqtt.stored_iff` — **nothing is lost unless such a header arrives**.
-/

import PicoHttps.Mqtt.Progress

set_option relaxedAutoImplicit false
set_option autoImplicit false

namespace Mqtt

/-! ### The packets of a stream that are complete -/

/-- `Reached S R` : after some complete packets of the stream `S` there is `R`. -/
inductive Reached : List UInt8 → List UInt8 → Prop
  | refl (S : List UInt8) : Reached S S
  | packet {S R : List UInt8} {call : Option UpstreamCall} {need size : ℕ} :
      head S = .packet call need size → Reached (S.drop size) R → Reached S R
  | publish {S R topic : List UInt8} {messageId size n : ℕ} :
      head S = .publish topic messageId size n → size + n ≤ S.length →
      Reached (S.drop (size + n)) R → Reached S R

/-- `Follows S R` : after the last complete packet of the stream `S` there is `R`. -/
def Follows (S R : List UInt8) : Prop := Reached S R ∧ head R = .more

/-- **The buffer holds what follows the last complete packet** of the stream `S`, when the handler
waits for a packet. -/
def Stored (h : MQTTSocketHandler) (S : List UInt8) : Prop :=
  h.state = .WAIT_PACKET → Follows S h.received

/-- A PUBLISH with a message id, whose header has one byte more than the buffer. -/
def LongHeader (R : List UInt8) : Prop :=
  ∃ b0 f t1 t0 rest, R = b0 :: (f ++ t1 :: t0 :: rest) ∧
    Varint.field 5 (f ++ t1 :: t0 :: rest) = some f ∧ b0 &&& 0xf0 = MQTTPUBLISH ∧
    idBytes b0 = 2 ∧ 1 + f.length + 2 + Bytes.beNat [t1, t0] + 2 = MQTT_BUFFER_SIZE + 1

/-- The stream has, at the start of a packet, a header of one byte more than the buffer, and more
of it than the buffer holds. -/
def Deafened (S : List UInt8) : Prop :=
  ∃ R, Reached S R ∧ LongHeader R ∧ MQTT_BUFFER_SIZE < R.length

section reached

variable {S R R' : List UInt8}

theorem Reached.trans (h : Reached S R) (h' : Reached R R') : Reached S R' := by
  induction h with
  | refl S => exact h'
  | packet hhead _ ih => exact .packet hhead (ih h')
  | publish hhead hle _ ih => exact .publish hhead hle (ih h')

/-- Complete packets stay complete when more arrives. -/
theorem Reached.append (h : Reached S R) (y : List UInt8) : Reached (S ++ y) (R ++ y) := by
  induction h with
  | refl S => exact .refl _
  | packet hhead _ ih =>
      obtain ⟨hmin, hle, -⟩ := packet_size hhead
      refine .packet ((head_append (by rw [hhead]; nofun) y).trans hhead) ?_
      rwa [List.drop_append_of_le_length (hmin.trans hle)]
  | publish hhead hle _ ih =>
      refine .publish ((head_append (by rw [hhead]; nofun) y).trans hhead) ?_ ?_
      · rw [List.length_append]
        omega
      · rwa [List.drop_append_of_le_length hle]

/-- The complete packets come one after the other. -/
theorem Reached.linear (h : Reached S R) (h' : Reached S R') : Reached R R' ∨ Reached R' R := by
  induction h with
  | refl S => exact .inl h'
  | packet hhead hrest ih =>
      cases h' with
      | refl => exact .inr (.packet hhead hrest)
      | packet hhead' h' =>
          rw [hhead] at hhead'
          cases hhead'
          exact ih h'
      | publish hhead' => rw [hhead] at hhead'; cases hhead'
  | publish hhead hle hrest ih =>
      cases h' with
      | refl => exact .inr (.publish hhead hle hrest)
      | packet hhead' => rw [hhead] at hhead'; cases hhead'
      | publish hhead' _ h' =>
          rw [hhead] at hhead'
          cases hhead'
          exact ih h'

/-- Nothing follows a packet that is not complete. -/
theorem Reached.eq_of_more (h : Reached R R') (hmore : head R = .more) : R' = R := by
  cases h with
  | refl => rfl
  | packet hhead => rw [hmore] at hhead; cases hhead
  | publish hhead => rw [hmore] at hhead; cases hhead

/-- **What follows the last complete packet is determined by the stream.** -/
theorem Follows.det (h : Follows S R) (h' : Follows S R') : R = R' := by
  rcases h.1.linear h'.1 with hr | hr
  · exact (hr.eq_of_more h.2).symm
  · exact hr.eq_of_more h'.2

end reached

/-! ### A header of one byte too many -/

section longHeader

variable {R S : List UInt8}

theorem LongHeader.append (h : LongHeader R) (y : List UInt8) : LongHeader (R ++ y) := by
  obtain ⟨b0, f, t1, t0, rest, rfl, hf, hpub, hid, hlen⟩ := h
  refine ⟨b0, f, t1, t0, rest ++ y, by simp, ?_, hpub, hid, hlen⟩
  have hfield := Varint.field_append hf y
  simpa using hfield

/-- Such a packet is waited for, whatever arrives. -/
theorem LongHeader.more (h : LongHeader R) : head R = .more := by
  obtain ⟨b0, f, t1, t0, rest, rfl, hf, hpub, hid, hlen⟩ := h
  have hsize : MQTT_BUFFER_SIZE = 256 := rfl
  rw [head_some hf, List.drop_left, bodyHead, if_pos hpub]
  simp only [publishHead, hid]
  rw [if_neg (by omega), if_pos (.inr (by omega))]

/-- **A packet that is waited for fits the buffer, or has such a header.** -/
theorem longHeader_of_more (h : head R = .more) (hlong : MQTT_BUFFER_SIZE < R.length) :
    LongHeader R := by
  have hsize : MQTT_BUFFER_SIZE = 256 := rfl
  cases R with
  | nil => simp at hlong
  | cons b0 xs =>
      rw [List.length_cons] at hlong
      cases hf : Varint.field 5 xs with
      | none =>
          -- a length field is complete long before the buffer is full
          have := Varint.field_none_length hf
          omega
      | some f =>
          have hfive := Varint.field_length hf
          obtain ⟨body, rfl⟩ := Varint.field_prefix hf
          rw [List.length_append] at hlong
          rw [head_some hf, List.drop_left, bodyHead] at h
          split at h
          · rename_i hpub
            obtain ⟨t1, t0, rest, rfl⟩ := Bytes.exists_two (show 2 ≤ body.length by omega)
            have hid := idBytes_eq b0
            simp only [publishHead] at h
            simp only [List.length_cons] at hlong
            split at h
            · cases h
            · split at h
              · -- the topic ends in the buffer, and the two bytes of the message id do not
                rename_i hsmall hfew
                have hid2 : idBytes b0 = 2 := by omega
                exact ⟨b0, f, t1, t0, rest, rfl, hf, hpub, hid2, by omega⟩
              · cases h
          · have hfields : fieldBytes b0 ≤ 2 := by unfold fieldBytes; split <;> omega
            unfold packetHead at h
            split at h
            · cases h
            · split at h
              · omega
              · cases h

/-- Of what follows the last complete packet, more than the buffer holds has arrived. -/
theorem deafened_iff : Deafened S ↔ ∃ R, Follows S R ∧ MQTT_BUFFER_SIZE < R.length := by
  constructor
  · rintro ⟨R, hreach, hlong, hlen⟩
    exact ⟨R, ⟨hreach, hlong.more⟩, hlen⟩
  · rintro ⟨R, ⟨hreach, hmore⟩, hlen⟩
    exact ⟨R, hreach, longHeader_of_more hmore hlen, hlen⟩

theorem Deafened.append (h : Deafened S) (y : List UInt8) : Deafened (S ++ y) := by
  obtain ⟨R, hreach, hlong, hlen⟩ := h
  refine ⟨R ++ y, hreach.append y, hlong.append y, ?_⟩
  rw [List.length_append]
  omega

end longHeader

/-! ### Where a reader is in the stream -/

/-- A reader that has read the stream `T` up to its last bytes `x` is in the state `st`. -/
def At (T : List UInt8) : St → List UInt8 → Prop
  | .buffering B, x => Reached T (B.bytes ++ x)
  | .payload n, x => ∃ R topic messageId size m, Reached T R ∧
      head R = .publish topic messageId size m ∧ n ≤ m ∧ R.length = size + (m - n) + x.length ∧
      x = R.drop (size + (m - n))

section at_

variable {T x x' : List UInt8} {st st' : St} {calls : List UpstreamCall}

/-- **A turn of the reader goes on in the stream.** -/
theorem At.turn (h : At T st x) (hturn : readTurn (st, x) = (calls, .inl (st', x'))) :
    At T st' x' := by
  cases turned hturn with
  | part hx hlt =>
      obtain ⟨R, topic, messageId, size, m, hreach, hhead, hle, hlen, hdrop⟩ := h
      refine ⟨R, topic, messageId, size, m, hreach, hhead, by omega, ?_, ?_⟩
      · rw [List.length_nil]
        omega
      · exact (List.drop_eq_nil_of_le (by omega)).symm
  | @full n x hx hle =>
      obtain ⟨R, topic, messageId, size, m, hreach, hhead, hle', hlen, hdrop⟩ := h
      refine hreach.trans (.publish hhead (by omega) ?_)
      have hrest : x.drop n = R.drop (size + m) := by
        rw [hdrop, List.drop_drop]
        congr 1
        omega
      rw [Pending.bytes_empty, List.nil_append, hrest]
      exact .refl _
  | more hx hhead =>
      rw [At, List.append_nil]
      exact h
  | @publish B x topic messageId size n hx hhead =>
      obtain ⟨-, hle⟩ := publish_size hhead
      refine ⟨B.bytes ++ x, topic, messageId, size, _, h, hhead, Nat.le_refl _, ?_, ?_⟩
      · rw [List.length_drop]
        omega
      · rw [Nat.sub_self, Nat.add_zero]
  | packet hx hhead hon => exact Reached.trans h (.packet hhead (.refl _))

theorem At.exec (h : At T st x) {out : Option St}
    (hread : While.Exec readTurn (st, x) calls out) : ∀ st' ∈ out, At T st' [] := by
  generalize hs : (st, x) = s at hread
  induction hread generalizing st x with
  | leave hturn =>
      subst hs
      intro st' hst'
      obtain rfl := hst'
      cases turned hturn with
      | nil => exact h
  | @turn s s' es es' r hturn hrest ih =>
      subst hs
      obtain ⟨st₁, x₁⟩ := s'
      exact ih (h.turn hturn) rfl

/-- More bytes arrive. -/
theorem At.append (h : At T st []) (c : List UInt8) : At (T ++ c) st c := by
  cases st with
  | buffering B =>
      rw [At, List.append_nil] at h
      exact h.append c
  | payload n =>
      obtain ⟨R, topic, messageId, size, m, hreach, hhead, hle, hlen, -⟩ := h
      rw [List.length_nil, Nat.add_zero] at hlen
      refine ⟨R ++ c, topic, messageId, size, m, hreach.append c,
        (head_append (by rw [hhead]; nofun) c).trans hhead, hle, ?_, ?_⟩
      · rw [List.length_append]
        omega
      · rw [List.drop_left' hlen]

/-- **A reader that has read chunks is where the stream is.** -/
theorem at_of_fed {cs : List (List UInt8)} : ∀ {T : List UInt8} {st st' : St}
    {calls : List UpstreamCall}, At T st [] → Chunk.Fed Read st cs calls (some st') →
      At (T ++ cs.flatten) st' [] := by
  induction cs with
  | nil =>
      intro T st st' calls h hfed
      cases hfed
      rwa [List.flatten_nil, List.append_nil]
  | cons c cs ih =>
      intro T st st' calls h hfed
      cases hfed with
      | go hc hcs =>
          rw [List.flatten_cons, ← List.append_assoc]
          exact ih ((h.append c).exec hc _ rfl) hcs

end at_

/-! ### Exactly when nothing is lost -/

section stored

variable {h h' : MQTTSocketHandler} {now : UInt64} {cs : List (List UInt8)}
  {calls : List UpstreamCall}

/-- A handler that waits for a packet, and what follows the last complete packet. -/
theorem follows_of_fed (hfed : Chunk.Fed OnRecv (h.reset now) cs calls (some h')) :
    ∃ st, Rel h' st ∧ At cs.flatten st [] := by
  obtain ⟨out, hread, hrel⟩ := fed_of_handler (rel_reset h now) hfed
  cases hrel with
  | some hrel =>
      have hstart : At [] .start [] := .refl _
      exact ⟨_, hrel, at_of_fed hstart hread⟩

/-- **Nothing is lost unless a header of one byte too many arrives**, ... -/
theorem stored_of_not_deafened (hfed : Chunk.Fed OnRecv (h.reset now) cs calls (some h'))
    (hno : ¬ Deafened cs.flatten) : Stored h' cs.flatten := by
  intro hstate
  obtain ⟨st, hrel, hat⟩ := follows_of_fed hfed
  cases st with
  | payload n =>
      rw [hrel.1] at hstate
      cases hstate
  | buffering B =>
      rw [At, List.append_nil] at hat
      have hle : B.bytes.length ≤ MQTT_BUFFER_SIZE := by
        by_contra hlt
        exact hno (deafened_iff.2 ⟨B.bytes, ⟨hat, B.more⟩, by omega⟩)
      rw [MQTTSocketHandler.received, hrel.2.idx, hrel.2.holds.take_eq,
        List.take_of_length_le hle]
      exact ⟨hat, B.more⟩

/-- ... and something is lost when it does. -/
theorem not_stored_of_deafened (hfed : Chunk.Fed OnRecv (h.reset now) cs calls (some h'))
    (hdeaf : Deafened cs.flatten) : ¬ Stored h' cs.flatten := by
  obtain ⟨R, hfollows, hlen⟩ := deafened_iff.1 hdeaf
  obtain ⟨st, hrel, hat⟩ := follows_of_fed hfed
  cases st with
  | payload n =>
      -- the packet that is waited for is not a PUBLISH whose header has arrived
      obtain ⟨R', topic, messageId, size, m, hreach, hhead, hle, hlen', -⟩ := hat
      rw [List.length_nil] at hlen'
      have hsame : R' = R ∨ Reached R' R := by
        rcases hfollows.1.linear hreach with hr | hr
        · exact .inl (hr.eq_of_more hfollows.2)
        · exact .inr hr
      rcases hsame with rfl | hr
      · rw [hfollows.2] at hhead
        cases hhead
      · cases hr with
        | refl =>
            rw [hfollows.2] at hhead
            cases hhead
        | packet hhead' =>
            rw [hhead] at hhead'
            cases hhead'
        | publish hhead' hle' hrest =>
            rw [hhead] at hhead'
            cases hhead'
            rw [List.drop_eq_nil_of_le (by omega)] at hrest
            rw [hrest.eq_of_more rfl] at hlen
            cases hlen
  | buffering B =>
      rw [At, List.append_nil] at hat
      obtain rfl : B.bytes = R := Follows.det ⟨hat, B.more⟩ hfollows
      intro hstored
      have hkept := (hstored hrel.1).det hfollows
      have hshort : h'.received.length ≤ MQTT_BUFFER_SIZE := by
        rw [MQTTSocketHandler.received, hrel.2.idx, hrel.2.holds.take_eq]
        exact List.length_take_le _ _
      rw [hkept] at hshort
      omega

end stored

/-- **Nothing is lost exactly when no header of one byte too many arrives.**  For a handler that
has been reset and has accepted the chunks `cs`, the buffer holds, between any two of them at which
the handler waits for a packet, what follows the last complete packet of the stream received so
far, if and only if there is no PUBLISH in the stream whose header has 257 bytes, with more than
256 bytes received from its start on. -/
theorem stored_iff (h : MQTTSocketHandler) (now : UInt64) (cs : List (List UInt8))
    (calls : List UpstreamCall) (h' : MQTTSocketHandler)
    (hfed : Chunk.Fed OnRecv (h.reset now) cs calls (some h')) :
    (∀ pre post calls₁ h₁, cs = pre ++ post →
      Chunk.Fed OnRecv (h.reset now) pre calls₁ (some h₁) → Stored h₁ pre.flatten) ↔
      ¬ Deafened cs.flatten := by
  constructor
  · intro hall hdeaf
    exact not_stored_of_deafened hfed hdeaf
      (hall cs [] calls h' (List.append_nil cs).symm hfed)
  · intro hno pre post calls₁ h₁ hcs hpre
    refine stored_of_not_deafened hpre fun hdeaf => hno ?_
    rw [hcs, List.flatten_append]
    exact hdeaf.append _

/-- The bytes of a packet that is waited for are accepted. -/
theorem fed_of_more (h : MQTTSocketHandler) (now : UInt64) {R : List UInt8}
    (hmore : head R = .more) : ∃ calls h', Chunk.Fed OnRecv (h.reset now) [R] calls (some h') := by
  have hread : Chunk.Fed Read .start [R] ([] ++ []) (some (.buffering ⟨R, hmore⟩)) :=
    .go (read_more ⟨R, hmore⟩) (.nil _)
  obtain ⟨answer, hfed, hrel⟩ := fed_of_reader (rel_reset h now) hread
  cases hrel with
  | some hrel => exact ⟨_, _, hfed⟩

/-- A PINGRESP of which one byte has arrived. -/
theorem stored_iff_example : ∃ calls h', Chunk.Fed OnRecv (zeroed.reset 0) [[0xD0]] calls (some h') ∧
    Stored h' [0xD0] := by
  have hmore : head [0xD0] = .more := by decide
  obtain ⟨calls, h', hfed⟩ := fed_of_more zeroed 0 hmore
  have hno : ¬ Deafened [[0xD0]].flatten := by
    rintro ⟨R, hreach, -, hlen⟩
    rw [hreach.eq_of_more hmore] at hlen
    exact absurd hlen (by decide)
  exact ⟨calls, h', hfed,
    (stored_iff zeroed 0 _ calls h' hfed).2 hno [[0xD0]] [] calls h' rfl hfed⟩

/-- A PUBLISH of QoS 1 with a topic of 250 bytes: of the 257 bytes before the payload, which are
accepted, the last one is lost. -/
theorem header_byte_lost :
    ¬ ∀ (h : MQTTSocketHandler) (now : UInt64) (cs : List (List UInt8)) (calls : List UpstreamCall)
      (h' : MQTTSocketHandler), Chunk.Fed OnRecv (h.reset now) cs calls (some h') →
        Stored h' cs.flatten := by
  intro hall
  let rest : List UInt8 := List.replicate 250 7 ++ [0, 1]
  have hlong : LongHeader (0x32 :: ([0xFE, 0x01] ++ 0x00 :: 0xFA :: rest)) :=
    ⟨0x32, [0xFE, 0x01], 0x00, 0xFA, rest, rfl, rfl, by decide, rfl, rfl⟩
  obtain ⟨calls, h', hfed⟩ := fed_of_more zeroed 0 hlong.more
  refine not_stored_of_deafened hfed ?_ (hall _ _ _ _ _ hfed)
  refine ⟨_, .refl _, ?_, ?_⟩
  · rw [List.flatten_singleton]
    exact hlong
  · rw [List.flatten_singleton]
    simp only [rest, List.cons_append, List.nil_append, List.length_cons, List.length_append,
      List.length_replicate, List.length_nil]
    decide

end Mqtt
