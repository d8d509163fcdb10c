/-
**Frames of a WebSocket stream.**

What a peer means by the bytes it sends: RFC 6455 cuts a stream into frames, each with a head of 2
bytes, 0, 2 or 8 bytes of extended length, an optional masking key of 4 bytes, and a payload.
Nothing here refers to the handler.

The reader `WebSocket.readStream` looks at a whole stream.  It stops at the first frame that does
not carry data, and says in which part of a frame the stream ends.  The same stream read one byte
at a time is `WebSocket.byteStep`.

Main definitions:

* `WebSocket.Head`, `WebSocket.readHead` — the head of a frame, read from the front of a stream;
* `WebSocket.Reading`, `WebSocket.readStream` — **the frames of a stream**;
* `WebSocket.St`, `WebSocket.byteStep` — a reader that takes one byte at a time;
* `WebSocket.delivered` — the payloads a list of callback calls has handed over.

Main results:

* `WebSocket.readHead_append` — a complete head does not depend on what follows it;
* `WebSocket.bytes_header` — reading a head byte by byte;
* `WebSocket.readsAs` — **reading byte by byte delivers the frames of the stream**.
-/

import PicoHttps.Basics.Chunked
import PicoHttps.WebSocket.Handler

set_option relaxedAutoImplicit false
set_option autoImplicit false

namespace WebSocket

/-! ### The head of a frame -/

/-- The head of a frame. -/
structure Head where
  opcode : UInt8
  key : Option (Fin 4 → UInt8)
  length : ℕ

/-- The number of bytes of extended length. -/
def extendedBytes (b1 : UInt8) : ℕ :=
  if b1 &&& 0x7f = 126 then 2 else if b1 &&& 0x7f = 127 then 8 else 0

/-- The number of bytes of the masking key. -/
def keyBytes (b1 : UInt8) : ℕ := if b1 &&& 0x80 = 0 then 0 else 4

/-- The head with first bytes `b0` and `b1` whose other bytes are at the front of `rest`. -/
def headOf (b0 b1 : UInt8) (rest : List UInt8) : Head where
  opcode := b0 &&& 0x0f
  key := if b1 &&& 0x80 = 0 then none
    else some fun i => rest.getD (extendedBytes b1 + i) 0
  length := if extendedBytes b1 = 0 then (b1 &&& 0x7f).toNat
    else Bytes.beNat (rest.take (extendedBytes b1))

/-- The head at the front of a stream and the bytes after it, when all its bytes are there. -/
def readHead : List UInt8 → Option (Head × List UInt8)
  | b0 :: b1 :: rest =>
    if rest.length < extendedBytes b1 + keyBytes b1 then none
    else some (headOf b0 b1 rest, rest.drop (extendedBytes b1 + keyBytes b1))
  | _ => none

theorem readHead_none {b0 b1 : UInt8} {rest : List UInt8}
    (h : rest.length < extendedBytes b1 + keyBytes b1) : readHead (b0 :: b1 :: rest) = none :=
  if_pos h

theorem readHead_some {b0 b1 : UInt8} {rest : List UInt8}
    (h : extendedBytes b1 + keyBytes b1 ≤ rest.length) : readHead (b0 :: b1 :: rest) =
      some (headOf b0 b1 rest, rest.drop (extendedBytes b1 + keyBytes b1)) :=
  if_neg (by omega)

/-- A head is read off a stream with at least two bytes. -/
theorem exists_of_readHead {xs rest : List UInt8} {hd : Head} (h : readHead xs = some (hd, rest)) :
    ∃ b0 b1 ys, xs = b0 :: b1 :: ys ∧ extendedBytes b1 + keyBytes b1 ≤ ys.length ∧
      hd = headOf b0 b1 ys ∧ rest = ys.drop (extendedBytes b1 + keyBytes b1) := by
  match xs with
  | [] => simp [readHead] at h
  | [_] => simp [readHead] at h
  | b0 :: b1 :: ys =>
      rcases Nat.lt_or_ge ys.length (extendedBytes b1 + keyBytes b1) with hlt | hge
      · rw [readHead_none hlt] at h; cases h
      · rw [readHead_some hge] at h
        cases h
        exact ⟨b0, b1, ys, rfl, hge, rfl, rfl⟩

theorem keyBytes_of_ne {b1 : UInt8} (h : b1 &&& 0x80 ≠ 0) : keyBytes b1 = 4 := if_neg h

/-- The head does not depend on the bytes after it. -/
theorem headOf_append {b0 b1 : UInt8} {xs ys : List UInt8}
    (h : extendedBytes b1 + keyBytes b1 ≤ xs.length) :
    headOf b0 b1 (xs ++ ys) = headOf b0 b1 xs := by
  have hlen : (xs ++ ys).take (extendedBytes b1) = xs.take (extendedBytes b1) :=
    List.take_append_of_le_length (by omega)
  by_cases hk : b1 &&& 0x80 = 0
  · simp only [headOf, hk, hlen, if_true]
  · have hkey : ∀ i : Fin 4, (xs ++ ys).getD (extendedBytes b1 + i) 0 =
        xs.getD (extendedBytes b1 + i) 0 := by
      intro i
      have := keyBytes_of_ne hk
      rw [List.getD_eq_getElem?_getD, List.getElem?_append_left (by omega),
        ← List.getD_eq_getElem?_getD]
    simp only [headOf, hk, hlen, hkey, if_false]

/-- **A complete head does not depend on what follows it.** -/
theorem readHead_append {xs rest : List UInt8} {hd : Head} (h : readHead xs = some (hd, rest))
    (ys : List UInt8) : readHead (xs ++ ys) = some (hd, rest ++ ys) := by
  obtain ⟨b0, b1, zs, rfl, hle, rfl, rfl⟩ := exists_of_readHead h
  rw [List.cons_append, List.cons_append, readHead_some (by simp; omega), headOf_append hle,
    List.drop_append_of_le_length hle]

/-- A head takes bytes off the stream. -/
theorem readHead_length {xs rest : List UInt8} {hd : Head} (h : readHead xs = some (hd, rest)) :
    rest.length < xs.length := by
  obtain ⟨b0, b1, zs, rfl, hle, rfl, rfl⟩ := exists_of_readHead h
  simp
  omega

/-- The byte that completes a head is its last one. -/
theorem readHead_concat {xs rest : List UInt8} {b : UInt8} {hd : Head} (hxs : readHead xs = none)
    (h : readHead (xs ++ [b]) = some (hd, rest)) : rest = [] := by
  obtain ⟨b0, b1, ys, hys, hle, rfl, rfl⟩ := exists_of_readHead h
  match xs with
  | [] => simp at hys
  | [_] =>
      have hnil : ys = [] := by
        have := congrArg List.length hys
        exact List.eq_nil_of_length_eq_zero (by simpa using this.symm)
      rw [hnil, List.drop_nil]
  | c0 :: c1 :: zs =>
      simp only [List.cons_append, List.cons.injEq] at hys
      obtain ⟨rfl, rfl, rfl⟩ := hys
      rcases Nat.lt_or_ge zs.length (extendedBytes c1 + keyBytes c1) with hlt | hge
      · refine List.drop_eq_nil_of_le ?_
        simp
        omega
      · rw [readHead_some hge] at hxs
        cases hxs

/-! ### The frames of a stream -/

/-- The operations that carry data: continuation, text and binary frames. -/
def Head.isData (hd : Head) : Bool := hd.opcode == 0 || hd.opcode == 1 || hd.opcode == 2

/-- The byte of the payload that is sent as `b` at the index `i`. -/
def Head.unmaskByte (hd : Head) (i : ℕ) (b : UInt8) : UInt8 :=
  match hd.key with
  | none => b
  | some key => b ^^^ key ⟨i % 4, Nat.mod_lt i (by decide)⟩

/-- The payload that is sent as `bs`, from the index `i` on. -/
def Head.unmaskFrom (hd : Head) : ℕ → List UInt8 → List UInt8
  | _, [] => []
  | i, b :: bs => hd.unmaskByte i b :: hd.unmaskFrom (i + 1) bs

@[simp] theorem Head.length_unmaskFrom (hd : Head) (i : ℕ) (bs : List UInt8) :
    (hd.unmaskFrom i bs).length = bs.length := by
  induction bs generalizing i with
  | nil => rfl
  | cons b bs ih => simp [unmaskFrom, ih]

/-- The part of a frame in which a stream ends. -/
inductive Tail
  /-- between two frames -/
  | boundary
  /-- in a head -/
  | head
  /-- in the payload of a frame that carries data, or right after its head -/
  | payload
  /-- right after the head of a frame that carries no data -/
  | control
  /-- past the head of a frame that carries no data -/
  | refused
  deriving DecidableEq, Repr

/-- What a stream says, up to the first frame that carries no data. -/
structure Reading where
  /-- the payloads of the complete frames -/
  frames : List (List UInt8)
  /-- the payload received of a frame that is not complete, if there is any -/
  part : Option (List UInt8)
  tail : Tail

/-- **The frames of a stream.** -/
def readStream (s : List UInt8) : Reading :=
  match _h : readHead s with
  | none => ⟨[], none, if s = [] then .boundary else .head⟩
  | some (hd, rest) =>
    if hd.isData then
      if rest.length < hd.length then
        ⟨[], if rest = [] then none else some (hd.unmaskFrom 0 rest), .payload⟩
      else
        let r := readStream (rest.drop hd.length)
        { r with frames := hd.unmaskFrom 0 (rest.take hd.length) :: r.frames }
    else ⟨[], none, if rest = [] then .control else .refused⟩
termination_by s.length
decreasing_by
  have := readHead_length ‹_›
  simp
  omega

/-- The frames whose end has been noticed: the end of an empty payload is noticed only when
another byte follows it. -/
def Reading.reported (r : Reading) : List (List UInt8) :=
  if r.tail = .boundary ∧ r.frames.getLast? = some [] then r.frames.dropLast else r.frames

/-! ### The payloads handed over by a list of calls -/

/-- The payloads handed over, and the bytes of the frame that is open, after one more call. -/
def deliver (acc : List (List UInt8) × Option (List UInt8)) :
    Call → List (List UInt8) × Option (List UInt8)
  | .onWebSocketData data => (acc.1, some (acc.2.getD [] ++ data))
  | .onFinishedPacket => (acc.1 ++ [acc.2.getD []], none)
  | .onWebsocketEncodedData _ => acc

/-- **The payloads that a list of calls has handed over**, each ended by a call of
`onFinishedPacket`; and, when `onWebSocketData` was called after the last of these, the bytes it
was given. -/
def delivered (calls : List Call) : List (List UInt8) × Option (List UInt8) :=
  calls.foldl deliver ([], none)

/-- Two lists of calls that hand over the same, whatever was handed over before. -/
def SameDelivery (a b : List Call) : Prop := ∀ acc, a.foldl deliver acc = b.foldl deliver acc

theorem sameDelivery_congr : Chunk.Congr SameDelivery where
  equivalence := ⟨fun _ _ => rfl, fun h acc => (h acc).symm, fun h h' acc => (h acc).trans (h' acc)⟩
  append h h' acc := by rw [List.foldl_append, List.foldl_append, h, h']

/-- The calls that hand over the bytes `bs` one by one. -/
def singles (bs : List UInt8) : List Call := bs.map fun b => .onWebSocketData [b]

theorem foldl_singles {bs : List UInt8} (h : bs ≠ []) :
    ∀ acc, (singles bs).foldl deliver acc = (acc.1, some (acc.2.getD [] ++ bs)) := by
  induction bs with
  | nil => exact absurd rfl h
  | cons b bs ih =>
      intro acc
      rw [singles, List.map_cons, List.foldl_cons, ← singles]
      by_cases hbs : bs = []
      · subst hbs
        rfl
      · rw [ih hbs]
        simp [deliver]

/-- Handing over bytes at once is handing them over one by one. -/
theorem sameDelivery_singles {bs : List UInt8} (h : bs ≠ []) :
    SameDelivery [.onWebSocketData bs] (singles bs) := by
  intro acc
  rw [foldl_singles h]
  rfl

/-! ### Reading one byte at a time -/

/-- Where a reader that takes one byte at a time is. -/
inductive St
  /-- in a head, with the bytes of it received so far -/
  | header (received : List UInt8)
  /-- in the payload of a frame, before the byte at the index -/
  | payload (hd : Head) (index : ℕ)

/-- The state after the bytes of a head that has not ended before the last of them. -/
def onHeader (received : List UInt8) : St :=
  match readHead received with
  | none => .header received
  | some (hd, _) => .payload hd 0

/-- One byte: the calls it causes, and the next state unless it is refused. -/
def byteStep : St → UInt8 → List Call × (St ⊕ Unit)
  | .header received, b => ([], .inl (onHeader (received ++ [b])))
  | .payload hd i, b =>
    if hd.isData then
      if i < hd.length then
        if i + 1 = hd.length then
          ([.onWebSocketData [hd.unmaskByte i b], .onFinishedPacket], .inl (.header []))
        else ([.onWebSocketData [hd.unmaskByte i b]], .inl (.payload hd (i + 1)))
      else ([.onWebSocketData [], .onFinishedPacket], .inl (onHeader [b]))
    else ([], .inr ())

/-- Reading a stream byte by byte. -/
abbrev bytes : Chunk.Proc St UInt8 Call Unit := Chunk.ofStep byteStep

/-- Bytes that do not complete a head are kept. -/
theorem bytes_header_none {xs : List UInt8} : ∀ received : List UInt8,
    readHead (received ++ xs) = none →
      bytes (.header received) xs = ([], .inl (.header (received ++ xs))) := by
  induction xs with
  | nil => intro received _; simp
  | cons b xs ih =>
      intro received h
      have hb : readHead (received ++ [b]) = none := by
        by_contra hne
        obtain ⟨⟨hd, rest⟩, hsome⟩ := Option.ne_none_iff_exists'.1 hne
        have := readHead_append hsome xs
        rw [List.append_assoc, List.singleton_append, h] at this
        cases this
      have hstep : byteStep (.header received) b = ([], .inl (.header (received ++ [b]))) := by
        simp only [byteStep, onHeader, hb]
      rw [bytes, Chunk.ofStep_cons_go hstep, ← bytes, ih _ (by simpa using h)]
      simp

/-- **Reading a head byte by byte** leaves the reader at the first byte of the payload. -/
theorem bytes_header {xs : List UInt8} : ∀ (received : List UInt8) {rest : List UInt8} {hd : Head},
    readHead received = none → readHead (received ++ xs) = some (hd, rest) →
      rest <:+ xs ∧ rest.length < xs.length ∧
        bytes (.header received) xs = bytes (.payload hd 0) rest := by
  induction xs with
  | nil => intro received rest hd h h'; rw [List.append_nil, h] at h'; cases h'
  | cons b xs ih =>
      intro received rest hd h h'
      have hsplit : received ++ b :: xs = (received ++ [b]) ++ xs := by simp
      rw [hsplit] at h'
      cases hb : readHead (received ++ [b]) with
      | none =>
          obtain ⟨hsuf, hlt, heq⟩ := ih _ hb h'
          have hstep : byteStep (.header received) b = ([], .inl (.header (received ++ [b]))) := by
            simp only [byteStep, onHeader, hb]
          refine ⟨hsuf.trans (List.suffix_cons b xs), by simp; omega, ?_⟩
          rw [bytes, Chunk.ofStep_cons_go hstep, ← bytes, heq]
          simp
      | some r =>
          obtain ⟨hd', rest'⟩ := r
          obtain rfl := readHead_concat h hb
          have hstep : byteStep (.header received) b = ([], .inl (.payload hd' 0)) := by
            simp only [byteStep, onHeader, hb]
          rw [readHead_append hb xs] at h'
          cases h'
          refine ⟨List.suffix_cons b xs, by simp, ?_⟩
          rw [bytes, Chunk.ofStep_cons_go hstep]
          simp

/-- Reading bytes that do not complete a payload. -/
theorem bytes_payload_lt {hd : Head} (hdata : hd.isData = true) {xs : List UInt8} :
    ∀ {i : ℕ}, i + xs.length < hd.length →
      bytes (.payload hd i) xs =
        (singles (hd.unmaskFrom i xs), .inl (.payload hd (i + xs.length))) := by
  induction xs with
  | nil => intro i _; rfl
  | cons b xs ih =>
      intro i hlt
      rw [List.length_cons] at hlt
      have hstep : byteStep (.payload hd i) b =
          ([.onWebSocketData [hd.unmaskByte i b]], .inl (.payload hd (i + 1))) := by
        simp only [byteStep, hdata, if_true]
        rw [if_pos (by omega), if_neg (by omega)]
      rw [bytes, Chunk.ofStep_cons_go hstep, ← bytes, ih (by omega), List.length_cons,
        Nat.add_right_comm, Nat.add_assoc]
      rfl

/-- Reading the bytes that complete a payload. -/
theorem bytes_payload_eq {hd : Head} (hdata : hd.isData = true) {xs : List UInt8} :
    ∀ {i : ℕ}, xs ≠ [] → i + xs.length = hd.length →
      bytes (.payload hd i) xs =
        (singles (hd.unmaskFrom i xs) ++ [.onFinishedPacket], .inl (.header [])) := by
  induction xs with
  | nil => intro i h _; exact absurd rfl h
  | cons b xs ih =>
      intro i _ hlen
      rw [List.length_cons] at hlen
      by_cases hxs : xs = []
      · subst hxs
        have hstep : byteStep (.payload hd i) b =
            ([.onWebSocketData [hd.unmaskByte i b], .onFinishedPacket], .inl (.header [])) := by
          simp only [byteStep, hdata, if_true]
          rw [if_pos (by simpa using by omega), if_pos (by simpa using hlen)]
        rw [bytes, Chunk.ofStep_cons_go hstep]
        rfl
      · have hpos := List.length_pos_of_ne_nil hxs
        have hstep : byteStep (.payload hd i) b =
            ([.onWebSocketData [hd.unmaskByte i b]], .inl (.payload hd (i + 1))) := by
          simp only [byteStep, hdata, if_true]
          rw [if_pos (by omega), if_neg (by omega)]
        rw [bytes, Chunk.ofStep_cons_go hstep, ← bytes, ih hxs (by omega)]
        rfl

/-- The end of an empty payload is noticed at the next byte, which starts another head. -/
theorem bytes_payload_empty {hd : Head} (hdata : hd.isData = true) (hlen : hd.length = 0)
    {xs : List UInt8} (hxs : xs ≠ []) :
    bytes (.payload hd 0) xs =
      ([.onWebSocketData [], .onFinishedPacket] ++ (bytes (.header []) xs).1,
        (bytes (.header []) xs).2) := by
  match xs with
  | [] => exact absurd rfl hxs
  | b :: xs =>
      have hstep : byteStep (.payload hd 0) b =
          ([.onWebSocketData [], .onFinishedPacket], .inl (onHeader [b])) := by
        simp only [byteStep, hdata, hlen, if_true]
        rw [if_neg (by omega)]
      have hstep' : byteStep (.header []) b = ([], .inl (onHeader [b])) := rfl
      rw [bytes, Chunk.ofStep_cons_go hstep, Chunk.ofStep_cons_go hstep']
      rfl

/-- A frame that carries no data is refused at the first byte after its head. -/
theorem bytes_payload_refused {hd : Head} (hdata : hd.isData = false) {i : ℕ} {data : List UInt8}
    (hne : data ≠ []) : bytes (.payload hd i) data = ([], .inr ()) := by
  cases data with
  | nil => exact absurd rfl hne
  | cons b bs =>
      have hstep : byteStep (.payload hd i) b = ([], .inr ()) := by
        simp [byteStep, hdata]
      exact Chunk.ofStep_cons_stop hstep bs

/-! ### Reading byte by byte delivers the frames of the stream -/

theorem readStream_none {s : List UInt8} (h : readHead s = none) :
    readStream s = ⟨[], none, if s = [] then .boundary else .head⟩ := by
  rw [readStream]
  split
  · rfl
  · rename_i h'; rw [h] at h'; cases h'

theorem readStream_some {s rest : List UInt8} {hd : Head} (h : readHead s = some (hd, rest)) :
    readStream s =
      if hd.isData then
        if rest.length < hd.length then
          ⟨[], if rest = [] then none else some (hd.unmaskFrom 0 rest), .payload⟩
        else { readStream (rest.drop hd.length) with
          frames := hd.unmaskFrom 0 (rest.take hd.length) ::
            (readStream (rest.drop hd.length)).frames }
      else ⟨[], none, if rest = [] then .control else .refused⟩ := by
  rw [readStream]
  split
  · rename_i h'; rw [h] at h'; cases h'
  · rename_i hd' rest' h'
    rw [h] at h'
    cases h'
    rfl

/-- Only the empty stream ends between two frames without having had one. -/
theorem eq_nil_of_boundary {s : List UInt8} (ht : (readStream s).tail = .boundary)
    (hf : (readStream s).frames = []) : s = [] := by
  cases h : readHead s with
  | none =>
      rw [readStream_none h] at ht
      by_contra hs
      simp [hs] at ht
  | some r =>
      obtain ⟨hd, rest⟩ := r
      rw [readStream_some h] at ht hf
      split at ht
      · split at ht <;> simp_all
      · split at ht <;> cases ht

/-- A frame before other frames is reported, unless it is an empty one at the very end. -/
theorem reported_cons {r : Reading} {f : List UInt8}
    (h : f ≠ [] ∨ ¬ (r.tail = .boundary ∧ r.frames = [])) :
    ({ r with frames := f :: r.frames } : Reading).reported = f :: r.reported := by
  unfold Reading.reported
  cases hfr : r.frames with
  | nil => rcases h with h | h <;> simp_all
  | cons g gs =>
      rw [List.getLast?_cons_cons]
      by_cases hc : r.tail = .boundary ∧ (g :: gs).getLast? = some []
      · rw [if_pos hc, if_pos hc]
        simp
      · rw [if_neg hc, if_neg hc]

/-- What reading the stream `s` byte by byte should give, after the payloads `fs`. -/
def ReadsAs (s : List UInt8) : Prop :=
  (∀ fs, (bytes (.header []) s).1.foldl deliver (fs, none) =
    (fs ++ (readStream s).reported, (readStream s).part)) ∧
  ((bytes (.header []) s).2 = .inr () ↔ (readStream s).tail = .refused)

/-- A complete frame in front of a stream that is read as it should. -/
theorem readsAs_frame {s rest : List UInt8} {hd : Head} (h : readHead s = some (hd, rest))
    (hdata : hd.isData = true) (hlen : hd.length ≤ rest.length)
    (ih : ReadsAs (rest.drop hd.length)) : ReadsAs s := by
  obtain ⟨-, -, hbytes⟩ := bytes_header [] rfl h
  have hread := readStream_some h
  rw [if_pos hdata, if_neg (by omega)] at hread
  obtain ⟨ihev, ihst⟩ := ih
  rcases Nat.eq_zero_or_pos hd.length with hzero | hpos
  · -- an empty payload: whether its end is noticed depends on what follows
    rw [hzero, List.drop_zero] at hread ihev ihst
    rw [List.take_zero] at hread
    by_cases hrest : rest = []
    · subst hrest
      rw [readStream_none (s := []) rfl] at hread
      rw [ReadsAs, hbytes, hread]
      refine ⟨fun fs => ?_, ?_⟩
      · simp [Reading.reported, Head.unmaskFrom]
      · simp
    · rw [ReadsAs, hbytes, bytes_payload_empty hdata hzero hrest, hread,
        reported_cons (.inr fun hb => hrest (eq_nil_of_boundary hb.1 hb.2))]
      refine ⟨fun fs => ?_, ihst⟩
      rw [List.foldl_append]
      have hone : [Call.onWebSocketData [], .onFinishedPacket].foldl deliver (fs, none) =
          (fs ++ [[]], none) := by simp [deliver]
      rw [hone, ihev]
      simp [Head.unmaskFrom]
  · have hne : rest.take hd.length ≠ [] := by
      rw [← List.length_pos_iff, List.length_take]
      omega
    have hne' : hd.unmaskFrom 0 (rest.take hd.length) ≠ [] := by
      rw [← List.length_pos_iff, Head.length_unmaskFrom, List.length_take]
      omega
    have htake := bytes_payload_eq hdata (i := 0) hne (by rw [List.length_take]; omega)
    have hsplit := Chunk.ofStep_append_go htake (rest.drop hd.length)
    rw [List.take_append_drop, ← bytes] at hsplit
    rw [ReadsAs, hbytes, hsplit, hread, reported_cons (.inl hne')]
    refine ⟨fun fs => ?_, ihst⟩
    rw [List.foldl_append, List.foldl_append, foldl_singles hne', List.foldl_cons,
      List.foldl_nil, deliver]
    simpa using ihev (fs ++ [hd.unmaskFrom 0 (rest.take hd.length)])

/-- **Reading byte by byte delivers the frames of the stream**, and refuses it exactly when a byte
follows the head of a frame that carries no data. -/
theorem readsAs (s : List UInt8) : ReadsAs s := by
  -- on the length of the stream: a frame takes at least its head off it
  induction hn : s.length using Nat.strong_induction_on generalizing s with
  | _ n ih =>
      cases h : readHead s with
      | none =>
          have hbytes := bytes_header_none [] (by simpa using h : readHead ([] ++ s) = none)
          rw [ReadsAs, hbytes, readStream_none h]
          refine ⟨fun fs => ?_, ?_⟩
          · simp [Reading.reported]
          · by_cases hs : s = [] <;> simp [hs]
      | some r =>
          obtain ⟨hd, rest⟩ := r
          obtain ⟨-, hlt, hbytes⟩ := bytes_header [] rfl h
          by_cases hdata : hd.isData = true
          · rcases Nat.lt_or_ge rest.length hd.length with hshort | hlen
            · have hpart := bytes_payload_lt hdata (show 0 + rest.length < hd.length by omega)
              rw [ReadsAs, hbytes, hpart, readStream_some h, if_pos hdata, if_pos hshort]
              refine ⟨fun fs => ?_, by simp⟩
              by_cases hrest : rest = []
              · subst hrest
                simp [singles, Head.unmaskFrom, Reading.reported]
              · have hne : hd.unmaskFrom 0 rest ≠ [] := by
                  rw [← List.length_pos_iff, Head.length_unmaskFrom]
                  exact List.length_pos_of_ne_nil hrest
                rw [foldl_singles hne]
                simp [hrest, Reading.reported]
            · exact readsAs_frame h hdata hlen (ih _ (by simp; omega) _ rfl)
          · rw [ReadsAs, hbytes, readStream_some h, if_neg hdata]
            match rest with
            | [] => simp [Reading.reported]
            | b :: bs =>
                rw [bytes_payload_refused (Bool.eq_false_iff.2 hdata) (List.cons_ne_nil b bs)]
                simp [Reading.reported]

end WebSocket
