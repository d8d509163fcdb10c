/-
**The last piece of a payload.**

`decode_data` hands the payload of a PUBLISH over as it arrives, and marks the piece that completes
it.  It looks for the end of the payload only while there is data left in the chunk: an empty
payload is complete as soon as its header is, but where the chunk ends with the header it is not
closed before the next chunk.

Main definitions:

* `Mqtt.Packet.PublishFits` — a well-formed PUBLISH whose header fits the buffer;
* `Mqtt.dataFlags` — the flags of the calls that hand over the payload of the PUBLISH;
* `Mqtt.ClosedInTime` — the last of these calls is marked, and no other.

Main results:

* `Mqtt.flags_payload`, `Mqtt.flags_publish` — a payload, and a PUBLISH, in any pieces;
* `Mqtt.closedInTime_iff` — **a PUBLISH is closed in time unless it is empty and ends its chunk**.
-/

import PicoHttps.Mqtt.Packets

set_option relaxedAutoImplicit false
set_option autoImplicit false

namespace Mqtt

open MQTTSocketHandler

/-- A well-formed PUBLISH whose header fits the buffer. -/
structure Packet.PublishFits (p : Packet) : Prop where
  isPublish : p.IsPublish
  complete : Varint.Complete p.lengthField
  length_le : p.lengthField.length ≤ 4
  length_body : p.body.length = p.declared
  fields_le : p.fields ≤ p.body.length
  fits : p.headerSize ≤ MQTT_BUFFER_SIZE

/-- The flags of the calls of `on_publish_data` before the next PUBLISH. -/
def dataFlags : List UpstreamCall → List Bool
  | [] => []
  | .onPublishData _ last :: calls => last :: dataFlags calls
  | .onPublishHeader _ _ _ :: _ => []
  | _ :: calls => dataFlags calls

/-- **The calls from a PUBLISH on close it**: the last call that hands over its payload is marked,
and no other. -/
def ClosedInTime (calls : List UpstreamCall) : Prop :=
  ∃ topic messageId n rest k, calls = .onPublishHeader topic messageId n :: rest ∧
    dataFlags rest = List.replicate k false ++ [true]

/-! ### A payload in pieces -/

/-- A turn of the reader in a chunk is the first thing that happens in it. -/
theorem fed_turn_iff {st st' : St} {c c' : List UInt8} {es : List UpstreamCall}
    (hturn : readTurn (st, c) = (es, .inl (st', c'))) {cs : List (List UInt8)}
    {calls : List UpstreamCall} {out : Option St} :
    Chunk.Fed Read st (c :: cs) calls out ↔
      ∃ calls', calls = es ++ calls' ∧ Chunk.Fed Read st' (c' :: cs) calls' out := by
  constructor
  · intro h
    cases h with
    | stop hc =>
        obtain ⟨calls', rfl, hc'⟩ := (While.exec_turn_iff hturn).1 hc
        exact ⟨calls', rfl, .stop hc'⟩
    | go hc hcs =>
        obtain ⟨calls', rfl, hc'⟩ := (While.exec_turn_iff hturn).1 hc
        exact ⟨_, List.append_assoc .., .go hc' hcs⟩
  · rintro ⟨calls', rfl, h⟩
    exact fed_turn hturn h

theorem fed_nil_iff {st : St} {cs : List (List UInt8)} {calls : List UpstreamCall}
    {out : Option St} :
    Chunk.Fed Read st ([] :: cs) calls out ↔ Chunk.Fed Read st cs calls out := by
  constructor
  · intro h
    cases h with
    | stop hc =>
        obtain ⟨-, hst⟩ := (While.exec_leave_iff (readTurn_nil st)).1 hc
        cases hst
    | go hc hcs =>
        obtain ⟨rfl, hst⟩ := (While.exec_leave_iff (readTurn_nil st)).1 hc
        cases hst
        exact hcs
  · exact fed_nil_chunk

/-- From the start of a packet, data is not handed over before the header of a PUBLISH. -/
theorem dataFlags_start {S : List UInt8} {calls : List UpstreamCall} {out : Option St}
    (h : Read .start S calls out) : dataFlags calls = [] := by
  refine read_start_induction (motive := fun _ calls _ => dataFlags calls = [])
    (fun B => rfl) (fun S _ => rfl) (fun S topic messageId size n calls out _ _ => rfl)
    (fun S call need size calls out hhead _ ih => ?_) h
  cases call with
  | none => exact ih
  | some call =>
      have hcall := isHead_of_packet hhead
      cases call with
      | onPublishData => cases hcall
      | onPublishHeader => rfl
      | _ => exact ih

/-- The same, in one last chunk. -/
theorem dataFlags_last {S : List UInt8} {calls : List UpstreamCall} {out : Option St}
    (h : Chunk.Fed Read .start [S] calls out) : dataFlags calls = [] := by
  cases h with
  | stop hc => exact dataFlags_start hc
  | go hc hcs =>
      cases hcs
      rw [List.append_nil]
      exact dataFlags_start hc

/-- **A payload in pieces**: the last piece is marked, and no other. -/
theorem flags_payload (cs : List (List UInt8)) : ∀ {c z : List UInt8} {n : ℕ}
    {calls : List UpstreamCall} {out : Option St}, c ≠ [] → (cs.flatten ++ c).length = n →
    Chunk.Fed Read (.payload n) (cs ++ [c ++ z]) calls out →
      ∃ k, dataFlags calls = List.replicate k false ++ [true] := by
  induction cs with
  | nil =>
      intro c z n calls out hc hn hfed
      have hlen : c.length = n := by simpa using hn
      have hturn := readTurn_payload (x := c ++ z) (by simp [hc]) n
      rw [if_neg (by rw [List.length_append]; omega), List.drop_left' hlen] at hturn
      obtain ⟨calls', rfl, hrest⟩ := (fed_turn_iff hturn).1 hfed
      refine ⟨0, ?_⟩
      rw [List.singleton_append, dataFlags, dataFlags_last hrest]
      rfl
  | cons d cs ih =>
      intro c z n calls out hc hn hfed
      have hpos := List.length_pos_of_ne_nil hc
      rw [List.flatten_cons, List.append_assoc, List.length_append] at hn
      by_cases hd : d = []
      · subst hd
        rw [List.length_nil, Nat.zero_add] at hn
        exact ih hc hn (fed_nil_iff.1 hfed)
      · have hlt : d.length < n := by
          rw [List.length_append] at hn
          omega
        have hturn := readTurn_payload hd n
        rw [if_pos hlt] at hturn
        obtain ⟨calls', rfl, hrest⟩ := (fed_turn_iff hturn).1 hfed
        obtain ⟨k, hk⟩ := ih hc (show (cs.flatten ++ c).length = n - d.length by omega)
          (fed_nil_iff.1 hrest)
        refine ⟨k + 1, ?_⟩
        rw [List.singleton_append, dataFlags, hk]
        rfl

/-! ### A PUBLISH in pieces -/

section publish

variable {p : Packet} {z : List UInt8} {calls : List UpstreamCall} {out : Option St}

/-- A header that has arrived, and what follows it in its chunk and in the next ones. -/
theorem fed_header {B : Pending} {d topic : List UInt8} {messageId size n : ℕ}
    (hhead : head (B.bytes ++ d) = .publish topic messageId size n) {cs : List (List UInt8)} :
    Chunk.Fed Read (.buffering B) (d :: cs) calls out ↔
      ∃ rest, calls = .onPublishHeader topic messageId n :: rest ∧
        Chunk.Fed Read (.payload n) ((B.bytes ++ d).drop size :: cs) rest out := by
  have hd : d ≠ [] := by
    rintro rfl
    rw [List.append_nil, B.more] at hhead
    cases hhead
  exact fed_turn_iff (readTurn_publish hd hhead)

/-- Bytes of a packet whose head is not known yet. -/
theorem fed_buffered {B : Pending} {d : List UInt8} (hmore : head (B.bytes ++ d) = .more)
    {cs : List (List UInt8)} (hfed : Chunk.Fed Read (.buffering B) (d :: cs) calls out) :
    Chunk.Fed Read (.buffering ⟨B.bytes ++ d, hmore⟩) cs calls out := by
  by_cases hd : d = []
  · subst hd
    rw [B.mk_append_nil]
    exact fed_nil_iff.1 hfed
  · obtain ⟨calls', rfl, hrest⟩ := (fed_turn_iff (readTurn_more hd hmore)).1 hfed
    exact fed_nil_iff.1 hrest

/-- **A PUBLISH in pieces is closed in time**, unless it is empty and ends its chunk. -/
theorem flags_publish (hp : p.Readable) (hpub : p.IsPublish) (hend : p.payload ≠ [] ∨ z ≠ [])
    {cs : List (List UInt8)} : ∀ {B : Pending} {c : List UInt8} {calls : List UpstreamCall},
    c ≠ [] → B.bytes ++ (cs.flatten ++ c) = p.bytes →
    Chunk.Fed Read (.buffering B) (cs ++ [c ++ z]) calls out → ClosedInTime calls := by
  obtain ⟨topic, messageId, -, hhead⟩ := hp.head_publish hpub
  induction cs with
  | nil =>
      intro B c calls hc hbytes hfed
      rw [List.flatten_nil, List.nil_append] at hbytes
      have hall : B.bytes ++ (c ++ z) = p.bytes ++ z := by rw [← List.append_assoc, hbytes]
      obtain ⟨rest, rfl, hrest⟩ := (fed_header (hall ▸ hhead z)).1 hfed
      rw [hall, p.drop_headerSize hp.fields_le] at hrest
      have hflags : ∃ k, dataFlags rest = List.replicate k false ++ [true] := by
        by_cases hpayload : p.payload = []
        · -- what follows the header in its chunk closes the empty payload
          have hz : z ≠ [] := hend.resolve_left (not_not_intro hpayload)
          rw [hpayload, List.nil_append, List.length_nil] at hrest
          have hturn := readTurn_payload hz 0
          rw [if_neg (Nat.not_lt_zero _)] at hturn
          obtain ⟨calls', rfl, hlast⟩ := (fed_turn_iff hturn).1 hrest
          exact ⟨0, by rw [List.singleton_append, dataFlags, dataFlags_last hlast]; rfl⟩
        · exact flags_payload [] hpayload rfl hrest
      obtain ⟨k, hk⟩ := hflags
      exact ⟨topic, messageId, _, rest, k, rfl, hk⟩
  | cons d cs ih =>
      intro B c calls hc hbytes hfed
      have hpos := List.length_pos_of_ne_nil hc
      rw [List.flatten_cons, List.append_assoc, ← List.append_assoc B.bytes] at hbytes
      by_cases hmore : head (B.bytes ++ d) = .more
      · exact ih hc hbytes (fed_buffered hmore hfed)
      · have hwhole : head (B.bytes ++ d) =
            .publish topic messageId p.headerSize p.payload.length := by
          rw [← head_append hmore (cs.flatten ++ c), hbytes, ← hhead [], List.append_nil]
        obtain ⟨-, hle⟩ := publish_size hwhole
        obtain ⟨rest, rfl, hrest⟩ := (fed_header hwhole).1 hfed
        have hleft : (B.bytes ++ d).drop p.headerSize ++ (cs.flatten ++ c) = p.payload := by
          have hdrop := p.drop_headerSize (S := []) hp.fields_le
          rw [List.append_nil, List.append_nil, ← hbytes,
            List.drop_append_of_le_length hle] at hdrop
          exact hdrop
        obtain ⟨k, hk⟩ := flags_payload ((B.bytes ++ d).drop p.headerSize :: cs) hc
          (by rw [List.flatten_cons, List.append_assoc, hleft]) hrest
        exact ⟨topic, messageId, _, rest, k, rfl, hk⟩

/-- An empty PUBLISH that ends its chunk is not closed in it. -/
theorem fed_empty (hp : p.Readable) (hpub : p.IsPublish) (hpayload : p.payload = [])
    (cs : List (List UInt8)) : ∀ {B : Pending} {c : List UInt8}, c ≠ [] →
    B.bytes ++ (cs.flatten ++ c) = p.bytes → ∃ topic messageId,
      Chunk.Fed Read (.buffering B) (cs ++ [c]) [.onPublishHeader topic messageId 0]
        (some (.payload 0)) := by
  obtain ⟨topic, messageId, -, hhead⟩ := hp.head_publish hpub
  have hdrop := p.drop_headerSize (S := []) hp.fields_le
  have hhead := hhead []
  rw [List.append_nil] at hhead hdrop
  rw [hpayload] at hdrop hhead
  have hwhole : ∀ {B : Pending} {c : List UInt8}, B.bytes ++ c = p.bytes →
      Chunk.Fed Read (.buffering B) [c] [.onPublishHeader topic messageId 0]
        (some (.payload 0)) := by
    intro B c hbytes
    refine (fed_header (hbytes ▸ hhead)).2 ⟨[], rfl, ?_⟩
    rw [hbytes, hdrop]
    exact fed_nil_chunk (.nil _)
  induction cs with
  | nil =>
      intro B c _ hbytes
      exact ⟨topic, messageId, hwhole hbytes⟩
  | cons d cs ih =>
      intro B c hc hbytes
      have hpos := List.length_pos_of_ne_nil hc
      rw [List.flatten_cons, List.append_assoc, ← List.append_assoc B.bytes] at hbytes
      -- the header is the whole packet, so it has not arrived before the last chunk
      have hmore : head (B.bytes ++ d) = .more := by
        by_contra hacted
        have hsame := head_append hacted (cs.flatten ++ c)
        rw [hbytes, hhead] at hsame
        have hsize := (publish_size hsame.symm).2
        have hlen := congrArg List.length hbytes
        have hfull : p.bytes.length ≤ p.headerSize := List.drop_eq_nil_iff.1 hdrop
        simp only [List.length_append] at hlen hsize
        omega
      obtain ⟨topic', messageId', hrest⟩ := ih (B := ⟨B.bytes ++ d, hmore⟩) hc hbytes
      refine ⟨topic', messageId', ?_⟩
      by_cases hd : d = []
      · subst hd
        rw [B.mk_append_nil] at hrest
        exact fed_nil_chunk hrest
      · exact fed_turn (readTurn_more hd hmore) (fed_nil_chunk hrest)

end publish

/-! ### A PUBLISH that is refused -/

/-- A topic that ends where the buffer does is refused. -/
theorem Packet.PublishFits.head_refused {p : Packet} (hp : p.PublishFits)
    (hbig : MQTT_BUFFER_SIZE ≤ 1 + p.lengthField.length + 2 + p.topicLength) (S : List UInt8) :
    head (p.bytes ++ S) = .refused := by
  have hfield := Varint.field_complete hp.complete
    (show p.lengthField.length ≤ 5 by have := hp.length_le; omega) (p.body ++ S)
  obtain ⟨t1, t0, topic, id, payload, hsplit, -⟩ := Packet.publish_body hp.isPublish hp.fields_le
  have htl : p.topicLength = Bytes.beNat [t1, t0] := by rw [Packet.topicLength, hsplit]; rfl
  rw [htl] at hbig
  rw [bytes_append, head_packet hfield hp.length_le, bodyHead, if_pos hp.isPublish, hsplit]
  simp only [List.cons_append, publishHead]
  rw [if_pos hbig]

/-- A packet that is refused is refused in any pieces. -/
theorem fed_refused {cs : List (List UInt8)} : ∀ {B : Pending},
    head (B.bytes ++ cs.flatten) = .refused → Chunk.Fed Read (.buffering B) cs [] none := by
  induction cs with
  | nil =>
      intro B hhead
      rw [List.flatten_nil, List.append_nil, B.more] at hhead
      cases hhead
  | cons d cs ih =>
      intro B hhead
      rw [List.flatten_cons, ← List.append_assoc] at hhead
      by_cases hd : d = []
      · subst hd
        rw [List.append_nil] at hhead
        exact fed_nil_chunk (ih hhead)
      by_cases hmore : head (B.bytes ++ d) = .more
      · exact fed_turn (readTurn_more hd hmore) (fed_nil_chunk (ih (B := ⟨_, hmore⟩) hhead))
      · rw [head_append hmore] at hhead
        exact .stop (.leave (readTurn_refused hd hhead))

/-! ### Exactly when a PUBLISH is closed in time -/

/-- What is read from a PUBLISH on, in pieces. -/
theorem closedInTime_reader_iff {p : Packet} (hp : p.PublishFits) {cs : List (List UInt8)}
    {c z : List UInt8} (hc : c ≠ []) (hbytes : cs.flatten ++ c = p.bytes) :
    (∀ calls out, Chunk.Fed Read .start (cs ++ [c ++ z]) calls out → ClosedInTime calls) ↔
      1 + p.lengthField.length + 2 + p.topicLength < MQTT_BUFFER_SIZE ∧
        (p.payload ≠ [] ∨ z ≠ []) := by
  rcases Nat.lt_or_ge (1 + p.lengthField.length + 2 + p.topicLength) MQTT_BUFFER_SIZE with
    hsmall | hbig
  · have hready : p.Readable := ⟨hp.complete, hp.length_le, hp.length_body, hp.fields_le,
      fun _ => ⟨hsmall, hp.fits⟩, fun hno => absurd hp.isPublish hno⟩
    rw [and_iff_right hsmall]
    constructor
    · intro hall
      by_contra hempty
      obtain ⟨hpayload, hz⟩ := not_or.1 hempty
      obtain ⟨topic, messageId, hfed⟩ := fed_empty hready hp.isPublish
        (not_not.1 hpayload) cs (B := .empty) hc hbytes
      rw [not_not.1 hz, List.append_nil] at hall
      obtain ⟨_, _, _, rest, k, heq, hflags⟩ := hall _ _ hfed
      cases heq
      exact absurd hflags.symm (by simp [dataFlags])
    · intro hend calls out hfed
      exact flags_publish hready hp.isPublish hend (B := .empty) hc hbytes hfed
  · refine iff_of_false (fun hall => ?_) fun hsmall => absurd hsmall.1 (Nat.not_lt.2 hbig)
    have hrefused : head (Pending.empty.bytes ++ (cs ++ [c ++ z]).flatten) = .refused := by
      rw [Pending.bytes_empty, List.nil_append, List.flatten_append, List.flatten_singleton,
        ← List.append_assoc, hbytes]
      exact hp.head_refused hbig z
    obtain ⟨_, _, _, _, _, heq, -⟩ := hall _ _ (fed_refused hrefused)
    cases heq

/-- **A PUBLISH is closed in time unless it is empty and ends its chunk.**  In a call of `on_recv`
on `x`, after some iterations and the calls `before`, the decoder is at the start of a packet and
`y` is left of the chunk.  From there on the bytes of the PUBLISH `p` arrive, in the chunks `cs`
and `c`, and `z` follows its last byte in the same chunk.  When the call of `on_recv` that gets
this chunk returns, the PUBLISH has been closed, if and only if its topic ends before the buffer
does, and it has a payload or something follows it in the chunk. -/
theorem closedInTime_iff (h h₁ : MQTTSocketHandler) (x y : List UInt8)
    (before : List UpstreamCall) (hsteps : While.Steps decodeTurn (h, x) before (h₁, y))
    (hstate : h₁.state = .WAIT_PACKET) (hidx : h₁.recvBufferIdx = 0) (p : Packet)
    (hp : p.PublishFits) (later cs : List (List UInt8)) (c z : List UInt8)
    (hcut : y :: later = cs ++ [c ++ z]) (hc : c ≠ []) (hbytes : cs.flatten ++ c = p.bytes) :
    (∀ calls answer, Chunk.Fed OnRecv h (x :: later) calls answer →
      ∃ own, calls = before ++ own ∧ ClosedInTime own) ↔
      1 + p.lengthField.length + 2 + p.topicLength < MQTT_BUFFER_SIZE ∧
        (p.payload ≠ [] ∨ z ≠ []) := by
  have hrel : Rel h₁ .start := ⟨hstate, Buffer.holds_nil _, hidx⟩
  rw [← closedInTime_reader_iff hp hc hbytes, ← hcut]
  constructor
  · intro hall calls out hread
    obtain ⟨answer, hfed, -⟩ := fed_of_reader hrel hread
    -- the iterations before belong to the call that starts at `h`
    have hfrom : Chunk.Fed OnRecv h (x :: later) (before ++ calls) answer := by
      cases hfed with
      | stop hc =>
          obtain ⟨ok, h', hexec, hans⟩ := hc
          exact .stop ⟨ok, h', hsteps.exec_iff.2 hexec, hans⟩
      | go hc hcs =>
          obtain ⟨ok, h', hexec, hans⟩ := hc
          rw [← List.append_assoc]
          exact .go ⟨ok, h', hsteps.exec_iff.2 hexec, hans⟩ hcs
    obtain ⟨own, heq, hclosed⟩ := hall _ _ hfrom
    rwa [List.append_cancel_left heq]
  · intro hall calls answer hfed
    have hrest : ∃ own, calls = before ++ own ∧ Chunk.Fed OnRecv h₁ (y :: later) own answer := by
      cases hfed with
      | stop hc =>
          obtain ⟨ok, h', hexec, hans⟩ := hc
          obtain ⟨own, rfl, hexec'⟩ := hsteps.exec_split hexec
          exact ⟨own, rfl, .stop ⟨ok, h', hexec', hans⟩⟩
      | go hc hcs =>
          obtain ⟨ok, h', hexec, hans⟩ := hc
          obtain ⟨own, rfl, hexec'⟩ := hsteps.exec_split hexec
          exact ⟨_, List.append_assoc .., .go ⟨ok, h', hexec', hans⟩ hcs⟩
    obtain ⟨own, rfl, hfed'⟩ := hrest
    obtain ⟨out, hread, -⟩ := fed_of_handler hrel hfed'
    exact ⟨own, rfl, hall own out hread⟩

/-- A PUBLISH of the topic `[7]` with one byte of payload, in two chunks, after a PINGRESP in the
first one. -/
theorem closedInTime_iff_example :
    (⟨0x30, [4], [0, 1, 7, 9]⟩ : Packet).payload = [9] ∧ ∀ calls answer,
      Chunk.Fed OnRecv (zeroed.reset 0) [[0xD0, 0, 0x30, 4], [0, 1, 7, 9]] calls answer →
        ∃ own, calls = [.onPingResp] ++ own ∧ ClosedInTime own := by
  have hhead : head [0xD0, 0, 0x30, 4] = .packet (some .onPingResp) 2 2 := by decide
  have hturn := readTurn_packet (B := .empty) (x := [0xD0, 0, 0x30, 4]) (List.cons_ne_nil _ _) hhead
  rw [if_neg (by decide)] at hturn
  obtain ⟨⟨h₁, y⟩, hsteps, hrel, hy⟩ := sim.symm.steps (.turn hturn (.refl _))
    (zeroed.reset 0, [0xD0, 0, 0x30, 4]) ⟨rel_reset zeroed 0, rfl⟩
  obtain rfl : y = [0x30, 4] := hy
  have hp : (⟨0x30, [4], [0, 1, 7, 9]⟩ : Packet).PublishFits := by constructor <;> decide
  refine ⟨rfl, (closedInTime_iff (zeroed.reset 0) h₁ _ _ [.onPingResp] hsteps hrel.1 hrel.2.idx _ hp
    [[0, 1, 7, 9]] [[0x30, 4]] [0, 1, 7, 9] [] rfl (List.cons_ne_nil _ _) rfl).2
    ⟨by decide, .inl (by decide)⟩⟩

/-- An empty PUBLISH of the topic `[7]` that arrives alone is not closed. -/
theorem empty_not_closed :
    ¬ ∀ (h : MQTTSocketHandler) (now : UInt64) (p : Packet), p.PublishFits →
      ∀ cs : List (List UInt8), cs.flatten = p.bytes → ∀ calls answer,
        Chunk.Fed OnRecv (h.reset now) cs calls answer → ClosedInTime calls := by
  intro hall
  have hp : (⟨0x30, [3], [0, 1, 7]⟩ : Packet).PublishFits := by constructor <;> decide
  have hready : (⟨0x30, [3], [0, 1, 7]⟩ : Packet).Readable := by constructor <;> decide
  obtain ⟨topic, messageId, hread⟩ := fed_empty hready hp.isPublish rfl [] (B := .empty)
    (c := [0x30, 3, 0, 1, 7]) (List.cons_ne_nil _ _) rfl
  obtain ⟨answer, hfed, -⟩ := fed_of_reader (rel_reset zeroed 0) hread
  obtain ⟨_, _, _, rest, k, heq, hflags⟩ := hall zeroed 0 _ hp _ rfl _ _ hfed
  cases heq
  exact absurd hflags.symm (by simp [dataFlags])

end Mqtt
