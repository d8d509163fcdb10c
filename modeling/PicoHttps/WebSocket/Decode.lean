/-
**The WebSocket decoder reads frames.**

`WebSocketHandler::decodeData` copies up to 16 bytes of a head into its buffer, hands back the
ones that belong to the payload, and unmasks the payload in place.  This module proves that, fed
in chunks, it does what the reader of `PicoHttps/WebSocket/Frame.lean` does on the whole stream.

The link between the two is `WebSocket.Rel`: while a head is being received the buffer holds
exactly its bytes; in a payload the fields hold the head of the frame and the index reached.  One
turn of the loop keeps it (`WebSocket.waitPacket_some`, `WebSocket.waitPacket_none`,
`WebSocket.waitData_data`), reading exactly the bytes that it takes off the chunk.

Main definitions:

* `WebSocket.Rel` — a handler that is where a byte-by-byte reader is;
* `WebSocket.decodeChunks` — the chunks of a connection, up to the first call that returns false.

Main results:

* `WebSocket.decodeData_returns` — **`decodeData` always returns**, and stays inside its buffer;
* `WebSocket.decode_refines_reader` — **decoding refines the whole-stream reader**, for every
  stream and every way of cutting it.
-/

import PicoHttps.WebSocket.Frame

set_option relaxedAutoImplicit false
set_option autoImplicit false

namespace WebSocket

open WebSocketHandler

/-! ### Reading a head from the buffer -/

variable {buffer : Buffer MAX_WEBSOCKET_HEADER} {c0 c1 : UInt8} {ys : List UInt8}

/-- Reading past the first two bytes of a buffer that holds a head. -/
theorem read_add_two (hb : buffer.Holds (c0 :: c1 :: ys)) {i : ℕ} (hi : i < ys.length) :
    buffer.read (i + 2) = some (ys.getD i 0) := by
  rw [hb.read (i := i + 2) (by simp; omega), List.getD_eq_getElem?_getD,
    List.getElem?_eq_getElem hi]
  simp

theorem extendedBytes_le (b1 : UInt8) : extendedBytes b1 ≤ 8 := by
  unfold extendedBytes
  split <;> [omega; split <;> omega]

theorem keyBytes_le (b1 : UInt8) : keyBytes b1 ≤ 4 := by
  unfold keyBytes
  split <;> omega

/-- The seven low bits of a byte that are neither 126 nor 127 are below 126. -/
theorem low_lt {b : UInt8} (h6 : b &&& 0x7f ≠ 126) (h7 : b &&& 0x7f ≠ 127) :
    b &&& 0x7f < 126 := by
  have hle : (b &&& 0x7f).toNat ≤ 127 := by
    rw [UInt8.toNat_and]
    exact Nat.and_le_right
  have h6' : (b &&& 0x7f).toNat ≠ 126 := fun h => h6 (UInt8.toNat_inj.1 h)
  have h7' : (b &&& 0x7f).toNat ≠ 127 := fun h => h7 (UInt8.toNat_inj.1 h)
  rw [UInt8.lt_iff_toNat_lt]
  change _ < 126
  omega

/-- A list of at least eight bytes has eight first ones. -/
theorem exists_eight {xs : List UInt8} (h : 8 ≤ xs.length) :
    ∃ x0 x1 x2 x3 x4 x5 x6 x7 ys, xs = x0 :: x1 :: x2 :: x3 :: x4 :: x5 :: x6 :: x7 :: ys := by
  obtain ⟨x0, x1, xs, rfl⟩ := Bytes.exists_two (show 2 ≤ xs.length by omega)
  simp only [List.length_cons] at h
  obtain ⟨x2, x3, xs, rfl⟩ := Bytes.exists_two (show 2 ≤ xs.length by omega)
  simp only [List.length_cons] at h
  obtain ⟨x4, x5, xs, rfl⟩ := Bytes.exists_two (show 2 ≤ xs.length by omega)
  simp only [List.length_cons] at h
  obtain ⟨x6, x7, xs, rfl⟩ := Bytes.exists_two (show 2 ≤ xs.length by omega)
  exact ⟨x0, x1, x2, x3, x4, x5, x6, x7, xs, rfl⟩

/-- The length that the decoder reads is the one of the head. -/
theorem readLength_eq (hb : buffer.Holds (c0 :: c1 :: ys)) (hys : extendedBytes c1 ≤ ys.length) :
    readLength buffer (c1 &&& 0x7f) = some ((headOf c0 c1 ys).length, 2 + extendedBytes c1) := by
  have hr : ∀ i, i < ys.length → buffer.read (i + 2) = some (ys.getD i 0) :=
    fun i hi => read_add_two hb hi
  unfold extendedBytes at hys
  by_cases h6 : c1 &&& 0x7f = 126
  · rw [if_pos h6] at hys
    obtain ⟨y0, y1, ys, rfl⟩ := Bytes.exists_two hys
    have h2 := hr 0 (by simp)
    have h3 := hr 1 (by simp)
    simp [readLength, h6, h2, h3, headOf, extendedBytes, Bytes.beNat_two_shift]
  · by_cases h7 : c1 &&& 0x7f = 127
    · rw [if_neg h6, if_pos h7] at hys
      obtain ⟨y0, y1, y2, y3, y4, y5, y6, y7, ys, rfl⟩ := exists_eight hys
      have h2 := hr 0 (by simp)
      have h3 := hr 1 (by simp)
      have h4 := hr 2 (by simp)
      have h5 := hr 3 (by simp)
      have h6' := hr 4 (by simp)
      have h7' := hr 5 (by simp)
      have h8 := hr 6 (by simp)
      have h9 := hr 7 (by simp)
      have hlen : (headOf c0 c1 (y0 :: y1 :: y2 :: y3 :: y4 :: y5 :: y6 :: y7 :: ys)).length =
          Bytes.beNat [y0, y1, y2, y3, y4, y5, y6, y7] := by
        simp [headOf, extendedBytes, h7]
      rw [hlen, ← Bytes.beNat_eight_shift]
      simp [readLength, h7, extendedBytes, h2, h3, h4, h5, h6', h7', h8, h9]
    · simp [readLength, low_lt h6 h7, headOf, extendedBytes, h6, h7]

/-- The masking key that the decoder reads is the one of the head. -/
theorem readKey_eq (hb : buffer.Holds (c0 :: c1 :: ys))
    (hys : extendedBytes c1 + keyBytes c1 ≤ ys.length) :
    ∃ key, readKey buffer (c1 &&& 0x80 != 0) (2 + extendedBytes c1) = some key ∧
      (headOf c0 c1 ys).key = if c1 &&& 0x80 != 0 then some key else none := by
  by_cases hk : c1 &&& 0x80 = 0
  · exact ⟨_, by simp [readKey, hk]; rfl, by simp [headOf, hk]⟩
  · rw [keyBytes_of_ne hk] at hys
    have hr : ∀ j, j < 4 → buffer.read (2 + extendedBytes c1 + j) =
        some (ys.getD (extendedBytes c1 + j) 0) := by
      intro j hj
      rw [Nat.add_assoc, Nat.add_comm 2]
      exact read_add_two hb (by omega)
    refine ⟨fun i => ys.getD (extendedBytes c1 + i) 0, ?_, by simp [headOf, hk]⟩
    have hne : (c1 &&& 0x80 != 0) = true := by simpa using hk
    simp only [readKey, hne, if_true, hr 0 (by omega), hr 1 (by omega), hr 2 (by omega),
      hr 3 (by omega), Option.bind_eq_bind, Option.bind_some, Option.pure_def, Option.some.injEq]
    funext j
    obtain ⟨i, hi⟩ := j
    obtain rfl | rfl | rfl | rfl : i = 0 ∨ i = 1 ∨ i = 2 ∨ i = 3 := by omega
    all_goals rfl

/-! ### Where the handler is -/

/-- `Rel h st` : the handler `h` is where the byte-by-byte reader is in the state `st`. -/
inductive Rel (h : WebSocketHandler) : St → Prop
  /-- The buffer holds the bytes of a head that is not complete. -/
  | header {received : List UInt8} (hstate : h.state = .WAIT_PACKET)
      (hindex : h.bufferIndex = received.length) (hholds : h.buffer.Holds received)
      (hhead : readHead received = none) : Rel h (.header received)
  /-- The fields hold the head of the frame and the index reached in its payload. -/
  | payload {hd : Head} {i : ℕ} (hstate : h.state = .WAIT_DATA) (hindex : h.bufferIndex = 0)
      (hop : h.webSocketOperation = hd.opcode)
      (hkey : hd.key = if h.mask then some h.maskingKey else none)
      (hlen : h.webSocketDataLen = hd.length) (hi : h.webSocketDataIndex = i)
      (hle : i < hd.length ∨ i = 0) : Rel h (.payload hd i)

theorem rel_fresh (op : WebSocketOperation) (key : Fin 4 → UInt8)
    (buffer : Buffer MAX_WEBSOCKET_HEADER) : Rel (fresh op key buffer) (.header []) :=
  .header rfl rfl buffer.holds_nil rfl

/-- A head that is not complete has fewer bytes than a head can have. -/
theorem length_lt_of_readHead_none {xs : List UInt8} (h : readHead xs = none) :
    xs.length < 14 := by
  match xs with
  | [] | [_] => simp
  | b0 :: b1 :: rest =>
      have he := extendedBytes_le b1
      have hk := keyBytes_le b1
      rcases Nat.lt_or_ge rest.length (extendedBytes b1 + keyBytes b1) with hlt | hge
      · simp
        omega
      · rw [readHead_some hge] at h
        cases h

/-- The size of a head, as the decoder computes it. -/
theorem headerSize_eq (b1 : UInt8) :
    2 + (if b1 &&& 0x7f = 126 then 2 else 0) + (if b1 &&& 0x7f = 127 then 8 else 0) +
      (if (b1 &&& 0x80 != 0) = true then 4 else 0) = 2 + (extendedBytes b1 + keyBytes b1) := by
  unfold extendedBytes keyBytes
  by_cases h6 : b1 &&& 0x7f = 126
  · by_cases hk : b1 &&& 0x80 = 0 <;> simp [h6, hk]
  · by_cases h7 : b1 &&& 0x7f = 127 <;> by_cases hk : b1 &&& 0x80 = 0 <;> simp [h6, h7, hk]

/-- A head that is not complete is shorter than the head it becomes. -/
theorem length_lt_head {received data ys : List UInt8} {b0 b1 : UInt8}
    (h : readHead received = none) (hxs : received ++ data = b0 :: b1 :: ys) :
    received.length < 2 + (extendedBytes b1 + keyBytes b1) := by
  match received with
  | [] | [_] => simp only [List.length_nil, List.length_singleton]; omega
  | c0 :: c1 :: cs =>
      simp only [List.cons_append, List.cons.injEq] at hxs
      obtain ⟨rfl, rfl, -⟩ := hxs
      by_contra hlt
      rw [readHead_some (by simp only [List.length_cons] at hlt; omega)] at h
      cases h

/-- The bytes of the stream that are in the buffer after `k` more have been copied. -/
theorem copied_eq {received data ys : List UInt8} {b0 b1 : UInt8} {k : ℕ}
    (hxs : received ++ data = b0 :: b1 :: ys) (hk : 2 ≤ received.length + k) :
    received ++ data.take k = b0 :: b1 :: ys.take (received.length + k - 2) := by
  obtain ⟨m, hm⟩ : ∃ m, received.length + k = m + 2 := ⟨received.length + k - 2, by omega⟩
  rw [← List.take_length_add_append, hxs, hm]
  simp

/-- The bytes of a chunk after the bytes of the head in it. -/
theorem drop_extra {received data ys : List UInt8} {b0 b1 : UInt8} {n : ℕ}
    (hxs : received ++ data = b0 :: b1 :: ys) (hle : received.length ≤ 2 + n) :
    data.drop (2 + n - received.length) = ys.drop n := by
  have h : (received ++ data).drop (2 + n) = data.drop (2 + n - received.length) := by
    rw [List.drop_append, List.drop_eq_nil_of_le hle, List.nil_append]
  rw [← h, hxs, Nat.add_comm 2]
  rfl

/-- **The branch `WAIT_PACKET` when the chunk completes the head**: the handler is at the first
byte of the payload, and the bytes after the head are handed back. -/
theorem waitPacket_some {h : WebSocketHandler} {received data rest : List UInt8} {hd : Head}
    (hrel : Rel h (.header received)) (hread : readHead (received ++ data) = some (hd, rest)) :
    ∃ h', h.waitPacket data = some (h', some rest) ∧ Rel h' (.payload hd 0) := by
  cases hrel with
  | header hstate hindex hholds hhead =>
      have hshort := length_lt_of_readHead_none hhead
      obtain ⟨b0, b1, ys, hxs, hys, rfl, rfl⟩ := exists_of_readHead hread
      have he := extendedBytes_le b1
      have hk := keyBytes_le b1
      have hlt := length_lt_head hhead hxs
      have hxlen := congrArg List.length hxs
      simp only [List.length_append, List.length_cons] at hxlen
      obtain ⟨k, hkdef⟩ : ∃ k, min data.length (MAX_WEBSOCKET_HEADER - h.bufferIndex) = k :=
        ⟨_, rfl⟩
      have hkval : min data.length (16 - received.length) = k := by rw [← hkdef, hindex]
      have hklen : (data.take k).length = k := by rw [List.length_take]; omega
      -- what the buffer holds is a prefix of the stream that contains the whole head
      obtain ⟨buf, hcopy, hbuf⟩ := hholds.memcpy (data.take k)
        (by rw [hklen]; change _ ≤ 16; omega)
      rw [← hindex] at hcopy
      rw [copied_eq hxs (by omega)] at hbuf
      have hzlen : extendedBytes b1 + keyBytes b1 ≤ (ys.take (received.length + k - 2)).length := by
        rw [List.length_take]
        omega
      have hhd : headOf b0 b1 ys = headOf b0 b1 (ys.take (received.length + k - 2)) := by
        conv_lhs => rw [← List.take_append_drop (received.length + k - 2) ys, headOf_append hzlen]
      have hlength := readLength_eq hbuf (by omega)
      obtain ⟨key, hkey, hkeyeq⟩ := readKey_eq hbuf hzlen
      have hextra : ((k : ℤ) - (h.bufferIndex + k - (2 + (extendedBytes b1 + keyBytes b1)) : ℕ)) =
          ((2 + (extendedBytes b1 + keyBytes b1) - received.length : ℕ) : ℤ) := by
        omega
      refine ⟨{ h with
        buffer := buf
        fin := b0 &&& 0x80 != 0
        webSocketOperation := b0 &&& 0x0f
        mask := b1 &&& 0x80 != 0
        webSocketDataLen := (headOf b0 b1 (ys.take (received.length + k - 2))).length
        maskingKey := key
        webSocketDataIndex := 0
        state := .WAIT_DATA
        bufferIndex := 0 }, ?_, ?_⟩
      · unfold waitPacket
        simp only [hkdef, hcopy, Option.bind_eq_bind, Option.bind_some,
          hbuf.read (i := 0) (by simp), hbuf.read (i := 1) (by simp), List.getElem_cons_zero,
          List.getElem_cons_succ, headerSize_eq]
        rw [if_neg (by omega), if_neg (by omega), hextra, if_neg (by omega)]
        simp only [hlength, hkey, Option.bind_some, Int.toNat_natCast,
          drop_extra hxs (Nat.le_of_lt hlt), Option.pure_def]
      · exact .payload rfl rfl (by rw [hhd]; rfl) (by rw [hhd]; exact hkeyeq) (by rw [hhd]) rfl
          (.inr rfl)

/-- **The branch `WAIT_PACKET` when the chunk does not complete the head**: its bytes are kept. -/
theorem waitPacket_none {h : WebSocketHandler} {received data : List UInt8}
    (hrel : Rel h (.header received)) (hread : readHead (received ++ data) = none) :
    ∃ h', h.waitPacket data = some (h', none) ∧ Rel h' (.header (received ++ data)) := by
  cases hrel with
  | header hstate hindex hholds hhead =>
      have hshort := length_lt_of_readHead_none hread
      rw [List.length_append] at hshort
      have hk : min data.length (MAX_WEBSOCKET_HEADER - h.bufferIndex) = data.length := by
        change min data.length (16 - h.bufferIndex) = _
        omega
      obtain ⟨buf, hcopy, hbuf⟩ := hholds.memcpy data
        (by change received.length + data.length ≤ 16; omega)
      rw [← hindex] at hcopy
      match hxs : received ++ data with
      -- the two bytes from which the size of the head is known have not arrived
      | [] | [_] =>
          have hlen := congrArg List.length hxs
          simp only [List.length_append, List.length_cons, List.length_nil] at hlen
          refine ⟨{ h with buffer := buf, bufferIndex := h.bufferIndex + data.length }, ?_,
            .header hstate (by simp only [List.length_cons, List.length_nil]; omega)
              (hxs ▸ hbuf) (hxs ▸ hread)⟩
          unfold waitPacket
          simp only [hk, List.take_length, hcopy, Option.bind_eq_bind, Option.bind_some]
          rw [if_pos (by omega)]
          rfl
      | b0 :: b1 :: ys =>
          have hlen := congrArg List.length hxs
          simp only [List.length_append, List.length_cons] at hlen
          have hys : ys.length < extendedBytes b1 + keyBytes b1 := by
            by_contra hge
            rw [hxs, readHead_some (by omega)] at hread
            cases hread
          rw [hxs] at hbuf
          refine ⟨{ h with
            buffer := buf
            bufferIndex := h.bufferIndex + data.length
            fin := b0 &&& 0x80 != 0
            webSocketOperation := b0 &&& 0x0f
            mask := b1 &&& 0x80 != 0 }, ?_,
            .header hstate (by simp; omega) hbuf (hxs ▸ hread)⟩
          unfold waitPacket
          simp only [hk, List.take_length, hcopy, Option.bind_eq_bind, Option.bind_some,
            hbuf.read (i := 0) (by simp), hbuf.read (i := 1) (by simp), List.getElem_cons_zero,
            List.getElem_cons_succ, headerSize_eq]
          rw [if_neg (by omega), if_pos (by omega)]
          rfl

/-! ### A payload -/

theorem carriesData_eq (hd : Head) : carriesData hd.opcode = hd.isData := by
  simp only [carriesData, Head.isData, TEXT_FRAME, BINARY_FRAME, CONTINUATION_FRAME]
  cases hd.opcode == 0 <;> cases hd.opcode == 1 <;> cases hd.opcode == 2 <;> rfl

/-- The loop over the payload unmasks the bytes of the frame that are in the chunk. -/
theorem unmask_eq {hd : Head} {mask : Bool} {key : Fin 4 → UInt8}
    (hkey : hd.key = if mask then some key else none) (data : List UInt8) :
    ∀ i, unmask mask key hd.length i data = hd.unmaskFrom i (data.take (hd.length - i)) := by
  induction data with
  | nil => intro i; simp [unmask, Head.unmaskFrom]
  | cons b data ih =>
      intro i
      rw [unmask]
      by_cases hi : i < hd.length
      · obtain ⟨m, hm⟩ : ∃ m, hd.length - i = m + 1 := ⟨hd.length - i - 1, by omega⟩
        have hbyte : (if mask then b ^^^ key (Fin.ofNat 4 (i &&& 3)) else b) =
            hd.unmaskByte i b := by
          rw [show i &&& 3 = i % 4 from Nat.and_two_pow_sub_one_eq_mod i 2]
          have hfin : Fin.ofNat 4 (i % 4) = ⟨i % 4, Nat.mod_lt i (by decide)⟩ :=
            Fin.ext (Nat.mod_mod i 4)
          cases mask
          · simp [Head.unmaskByte, hkey]
          · simp only [Head.unmaskByte, hkey, hfin, if_true]
        rw [if_pos hi, hm, List.take_succ_cons, Head.unmaskFrom, hbyte, ih,
          show hd.length - (i + 1) = m by omega]
      · rw [if_neg hi, show hd.length - i = 0 by omega]
        rfl

/-- **The branch `WAIT_DATA` in a frame that carries data** hands over the bytes of the payload
that are in the chunk, and ends the frame with its last byte. -/
theorem waitData_data {h : WebSocketHandler} {hd : Head} {i : ℕ}
    (hrel : Rel h (.payload hd i)) (hdata : hd.isData = true) {data : List UInt8}
    (hne : data ≠ []) (log : List Call) :
    ∃ h' st' n evs evs', waitData recorder h data log = .inl (h', data.drop n, log ++ evs) ∧
      Rel h' st' ∧ SameDelivery evs evs' ∧ (0 < n ∨ st' = .header []) ∧
      bytes (.payload hd i) data = (evs' ++ (bytes st' (data.drop n)).1,
        (bytes st' (data.drop n)).2) := by
  cases hrel with
  | payload hstate hindex hop hkey hlen hi hle =>
      have hpos := List.length_pos_of_ne_nil hne
      have hun := unmask_eq hkey data i
      have htake : (data.take (hd.length - i)).length = min (hd.length - i) data.length :=
        List.length_take
      have hcarry : carriesData h.webSocketOperation = true := by rw [hop, carriesData_eq, hdata]
      rcases Nat.lt_or_ge (i + data.length) hd.length with hlt | hge
      · -- the chunk ends inside the payload
        have hall : data.take (hd.length - i) = data := List.take_of_length_le (by omega)
        refine ⟨{ h with webSocketDataIndex := i + data.length }, .payload hd (i + data.length),
          data.length, [.onWebSocketData (hd.unmaskFrom i data)],
          singles (hd.unmaskFrom i data), ?_, ?_, ?_, .inl hpos, ?_⟩
        · simp only [waitData, hcarry, hlen, hi, hun, hall, recorder, if_true,
            Head.length_unmaskFrom]
          rw [if_neg (by omega)]
        · exact .payload hstate hindex hop hkey hlen rfl (.inl hlt)
        · refine sameDelivery_singles ?_
          rw [← List.length_pos_iff, Head.length_unmaskFrom]
          exact hpos
        · rw [bytes_payload_lt hdata hlt, List.drop_length]
          simp
      · rcases Nat.eq_zero_or_pos hd.length with hzero | hlpos
        · -- an empty payload takes no byte of the chunk
          obtain rfl : i = 0 := by omega
          refine ⟨{ h with state := .WAIT_PACKET }, .header [], 0,
            [.onWebSocketData [], .onFinishedPacket], [.onWebSocketData [], .onFinishedPacket],
            ?_, .header rfl hindex h.buffer.holds_nil rfl, fun _ => rfl, .inr rfl, ?_⟩
          · rw [hzero] at hun
            simp only [waitData, hcarry, hlen, hi, hzero, hun, recorder, if_true,
              Nat.sub_zero, List.take_zero, Head.unmaskFrom, List.length_nil, Nat.add_zero,
              List.drop_zero, List.append_assoc]
            rfl
          · exact bytes_payload_empty hdata hzero hne
        · -- the chunk contains the last byte of the payload
          have hilt : i < hd.length := by omega
          have hnlen : (data.take (hd.length - i)).length = hd.length - i := by omega
          have hne' : data.take (hd.length - i) ≠ [] := by
            rw [← List.length_pos_iff]
            omega
          refine ⟨{ h with webSocketDataIndex := hd.length, state := .WAIT_PACKET }, .header [],
            hd.length - i,
            [.onWebSocketData (hd.unmaskFrom i (data.take (hd.length - i))), .onFinishedPacket],
            singles (hd.unmaskFrom i (data.take (hd.length - i))) ++ [.onFinishedPacket], ?_,
            .header rfl hindex h.buffer.holds_nil rfl, ?_, .inl (by omega), ?_⟩
          · simp only [waitData, hcarry, hlen, hi, hun, recorder, if_true,
              Head.length_unmaskFrom, hnlen, List.append_assoc]
            rw [if_pos (by omega), show i + (hd.length - i) = hd.length by omega]
            rfl
          · refine sameDelivery_congr.append (sameDelivery_singles ?_) (fun _ => rfl)
            rw [← List.length_pos_iff, Head.length_unmaskFrom]
            omega
          · have hsplit := Chunk.ofStep_append_go
              (bytes_payload_eq hdata (i := i) hne' (by omega)) (data.drop (hd.length - i))
            rwa [List.take_append_drop, ← bytes] at hsplit

/-! ### A chunk -/

/-- What is left of the loop when the reader is in a state: in a payload one more turn may be
needed before a byte is taken. -/
def St.turns : St → ℕ
  | .header _ => 0
  | .payload _ _ => 1

/-- `Follows st data log out` : from the state `st`, with the calls `log` made before, the value
`out` returned for the chunk `data` is what reading `data` byte by byte gives. -/
def Follows (st : St) (data : List UInt8) (log : List Call)
    (out : Bool × WebSocketHandler × List Call) : Prop :=
  ∃ evs, out.2.2 = log ++ evs ∧ SameDelivery evs (bytes st data).1 ∧
    match (bytes st data).2 with
    | .inl st' => out.1 = true ∧ Rel out.2.1 st'
    | .inr () => out.1 = false

/-- A turn of the loop in the branch `WAIT_PACKET`. -/
theorem decodeTurn_packet {κ : Type} {cb : WebSocketInterface κ} {h : WebSocketHandler}
    {data : List UInt8} {k : κ} (hne : data ≠ []) (hstate : h.state = .WAIT_PACKET) :
    decodeTurn cb (h, data, k) =
      match h.waitPacket data with
      | none => ([], .inr none)
      | some (h, none) => ([], .inr (some (true, h, k)))
      | some (h, some data) => ([], .inl (h, data, k)) := by
  have hpos : data.length > 0 := List.length_pos_of_ne_nil hne
  cases h
  cases hstate
  exact if_pos hpos

/-- A turn of the loop in the branch `WAIT_DATA`. -/
theorem decodeTurn_data {κ : Type} {cb : WebSocketInterface κ} {h : WebSocketHandler}
    {data : List UInt8} {k : κ} (hne : data ≠ []) (hstate : h.state = .WAIT_DATA) :
    decodeTurn cb (h, data, k) =
      match waitData cb h data k with
      | .inl s => ([], .inl s)
      | .inr r => ([], .inr (some r)) := by
  have hpos : data.length > 0 := List.length_pos_of_ne_nil hne
  cases h
  cases hstate
  exact if_pos hpos

/-- **What a turn of the loop comes to**: it leaves with what reading the data byte by byte gives,
or it goes on in another state, with less to go. -/
inductive Turned (st : St) (data : List UInt8) (log : List Call) :
    List Empty × (Loop (List Call) ⊕ Option (Bool × WebSocketHandler × List Call)) → Prop
  | leave {out : Bool × WebSocketHandler × List Call} (hout : Follows st data log out) :
      Turned st data log ([], .inr (some out))
  | go {h' : WebSocketHandler} {st' : St} {data' : List UInt8} {evs evs' : List Call}
      (hrel : Rel h' st') (hsame : SameDelivery evs evs')
      (hbytes : bytes st data = (evs' ++ (bytes st' data').1, (bytes st' data').2))
      (hless : 2 * data'.length + st'.turns < 2 * data.length + st.turns) :
      Turned st data log ([], .inl (h', data', log ++ evs))

/-- What has been done in a turn comes before what is done in the turns after it. -/
theorem Follows.turn {st st' : St} {data data' : List UInt8} {log evs evs' : List Call}
    {out : Bool × WebSocketHandler × List Call} (h : Follows st' data' (log ++ evs) out)
    (hsame : SameDelivery evs evs')
    (hbytes : bytes st data = (evs' ++ (bytes st' data').1, (bytes st' data').2)) :
    Follows st data log out := by
  obtain ⟨fs, hlog, hfs, hst⟩ := h
  refine ⟨evs ++ fs, by rw [hlog, List.append_assoc], ?_, ?_⟩
  · rw [hbytes]
    exact sameDelivery_congr.append hsame hfs
  · rw [hbytes]
    exact hst

/-- A turn in a header. -/
theorem turned_header {h : WebSocketHandler} {received data : List UInt8}
    (hrel : Rel h (.header received)) (hne : data ≠ []) (log : List Call) :
    Turned (.header received) data log (decodeTurn recorder (h, data, log)) := by
  have hstate : h.state = .WAIT_PACKET := by cases hrel; assumption
  rw [decodeTurn_packet hne hstate]
  cases hread : readHead (received ++ data) with
  | none =>
      obtain ⟨h', hturn, hrel'⟩ := waitPacket_none hrel hread
      rw [hturn]
      refine .leave ⟨[], by simp, ?_, ?_⟩
      · rw [bytes_header_none received hread]
        exact fun _ => rfl
      · rw [bytes_header_none received hread]
        exact ⟨rfl, hrel'⟩
  | some r =>
      obtain ⟨hd, rest⟩ := r
      obtain ⟨h', hturn, hrel'⟩ := waitPacket_some hrel hread
      have hhead : readHead received = none := by cases hrel; assumption
      obtain ⟨-, hlt, hbytes⟩ := bytes_header received hhead hread
      have hgo : Turned (.header received) data log ([], .inl (h', rest, log ++ [])) :=
        .go hrel' (fun _ => rfl) hbytes (by simp only [St.turns]; omega)
      rw [hturn]
      rwa [List.append_nil] at hgo

/-- A turn in a payload. -/
theorem turned_payload {h : WebSocketHandler} {hd : Head} {i : ℕ} {data : List UInt8}
    (hrel : Rel h (.payload hd i)) (hne : data ≠ []) (log : List Call) :
    Turned (.payload hd i) data log (decodeTurn recorder (h, data, log)) := by
  have hstate : h.state = .WAIT_DATA := by cases hrel; assumption
  rw [decodeTurn_data hne hstate]
  cases hdata : hd.isData with
  | true =>
      obtain ⟨h', st', k, evs, evs', hturn, hrel', hsame, hk, hbytes⟩ :=
        waitData_data hrel hdata hne log
      have hpos := List.length_pos_of_ne_nil hne
      have hlen : (data.drop k).length = data.length - k := List.length_drop
      rw [hturn]
      refine .go hrel' hsame hbytes ?_
      rcases hk with hk | rfl
      · have : st'.turns ≤ 1 := by cases st' <;> simp [St.turns]
        simp only [St.turns] at *
        omega
      · simp only [St.turns] at *
        omega
  | false =>
      have hop : carriesData h.webSocketOperation = false := by
        cases hrel with
        | payload _ _ hop => rw [hop, carriesData_eq, hdata]
      have hturn : waitData recorder h data log = .inr (false, h, log) := by
        simp [waitData, hop]
      rw [hturn]
      refine .leave ⟨[], by simp, ?_, ?_⟩
      · rw [bytes_payload_refused hdata hne]
        exact fun _ => rfl
      · rw [bytes_payload_refused hdata hne]

/-- **Enough turns of the loop read the whole chunk.** -/
theorem run_decodeTurn : ∀ (n : ℕ) {h : WebSocketHandler} {st : St} (data : List UInt8)
    (log : List Call), Rel h st → 2 * data.length + st.turns < n →
      ∃ out, While.run (decodeTurn recorder) n (h, data, log) = some ([], some out) ∧
        Follows st data log out := by
  intro n
  induction n with
  | zero => intro h st data log _ hn; omega
  | succ n ih =>
      intro h st data log hrel hn
      by_cases hne : data = []
      · subst hne
        exact ⟨(true, h, log), While.run_leave rfl n, [], by simp, fun _ => rfl, rfl, hrel⟩
      have hturned : Turned st data log (decodeTurn recorder (h, data, log)) := by
        cases st with
        | header received => exact turned_header hrel hne log
        | payload hd i => exact turned_payload hrel hne log
      obtain ⟨turn, hturn⟩ : ∃ turn, decodeTurn recorder (h, data, log) = turn := ⟨_, rfl⟩
      rw [hturn] at hturned
      cases hturned with
      | leave hout => exact ⟨_, While.run_leave hturn n, hout⟩
      | go hrel' hsame hbytes hless =>
          have hn' := Nat.lt_of_lt_of_le hless (Nat.le_of_lt_succ hn)
          obtain ⟨out, hrun, hout⟩ := ih _ (log ++ _) hrel' hn'
          refine ⟨out, ?_, hout.turn hsame hbytes⟩
          rw [While.run_turn hturn, hrun]
          rfl

/-- **`decodeData` always returns**: it stays inside its buffer, the bound on the number of turns
is never reached, and what it did is what reading the chunk byte by byte gives. -/
theorem decodeData_returns {h : WebSocketHandler} {st : St} (hrel : Rel h st)
    (data : List UInt8) (log : List Call) :
    ∃ out, decodeData recorder h data log = some out ∧ Follows st data log out := by
  have hturns : st.turns ≤ 1 := by cases st <;> simp [St.turns]
  obtain ⟨out, hrun, hout⟩ := run_decodeTurn (2 * data.length + 2) data log hrel (by omega)
  exact ⟨out, by rw [decodeData, hrun]; rfl, hout⟩

/-! ### All the chunks of a connection -/

/-- The calls of `decodeData` on the chunks of a connection, up to the first one that returns
false. -/
def decodeChunks {κ : Type} (cb : WebSocketInterface κ) :
    WebSocketHandler → List (List UInt8) → κ → Option (Bool × WebSocketHandler × κ)
  | h, [], k => some (true, h, k)
  | h, c :: cs, k =>
    match decodeData cb h c k with
    | some (true, h, k) => decodeChunks cb h cs k
    | r => r

/-- The chunks of a connection are read as the byte-by-byte reader reads them. -/
theorem decodeChunks_follows (cs : List (List UInt8)) : ∀ {h : WebSocketHandler} {st : St}
    (log : List Call), Rel h st →
      ∃ out, decodeChunks recorder h cs log = some out ∧ Follows st cs.flatten log out := by
  induction cs with
  | nil =>
      intro h st log hrel
      exact ⟨(true, h, log), rfl, [], by simp, fun _ => rfl, rfl, hrel⟩
  | cons c cs ih =>
      intro h st log hrel
      obtain ⟨⟨ok, h', log'⟩, hdec, evs, rfl, hsame, hst⟩ := decodeData_returns hrel c log
      rcases hb : bytes st c with ⟨es, st' | u⟩
      · simp only [hb] at hst hsame
        obtain ⟨rfl, hrel'⟩ := hst
        obtain ⟨out, hout, fs, hlog, hfs, hst'⟩ := ih (log ++ evs) hrel'
        refine ⟨out, by simp only [decodeChunks, hdec, hout], evs ++ fs, by simpa using hlog,
          ?_, ?_⟩
        · rw [List.flatten_cons, bytes, Chunk.ofStep_append_go hb]
          exact sameDelivery_congr.append hsame hfs
        · rw [List.flatten_cons, bytes, Chunk.ofStep_append_go hb]
          exact hst'
      · simp only [hb] at hst hsame
        subst hst
        refine ⟨(false, h', log ++ evs), by simp only [decodeChunks, hdec], evs, rfl, ?_, ?_⟩
        · rw [List.flatten_cons, bytes, Chunk.ofStep_append_stop hb]
          exact hsame
        · rw [List.flatten_cons, bytes, Chunk.ofStep_append_stop hb]

/-- Chunks that were accepted are followed by the chunks after them. -/
theorem decodeChunks_append {κ : Type} {cb : WebSocketInterface κ} {cs : List (List UInt8)} :
    ∀ {h h' : WebSocketHandler} {k k' : κ}, decodeChunks cb h cs k = some (true, h', k') →
      ∀ ds, decodeChunks cb h (cs ++ ds) k = decodeChunks cb h' ds k' := by
  induction cs with
  | nil =>
      intro h h' k k' hdec ds
      cases hdec
      rfl
  | cons c cs ih =>
      intro h h' k k' hdec ds
      rw [List.cons_append, decodeChunks]
      rw [decodeChunks] at hdec
      match hc : decodeData cb h c k with
      | some (true, h₁, k₁) =>
          simp only [hc] at hdec ⊢
          exact ih hdec ds
      | some (false, h₁, k₁) => simp [hc] at hdec
      | none => simp [hc] at hdec

/-- What a fresh handler has delivered, and whether it has refused the stream, after any chunks. -/
theorem decodeChunks_delivers (op : WebSocketOperation) (key : Fin 4 → UInt8)
    (buffer : Buffer MAX_WEBSOCKET_HEADER) (cs : List (List UInt8)) :
    ∃ ok h log, decodeChunks recorder (fresh op key buffer) cs [] = some (ok, h, log) ∧
      delivered log = ((readStream cs.flatten).reported, (readStream cs.flatten).part) ∧
      (ok = false ↔ (readStream cs.flatten).tail = .refused) := by
  obtain ⟨⟨ok, h, log⟩, hdec, evs, hlog, hsame, hst⟩ :=
    decodeChunks_follows cs [] (rel_fresh op key buffer)
  obtain ⟨hev, href⟩ := readsAs cs.flatten
  obtain rfl : log = evs := by simpa using hlog
  refine ⟨ok, h, log, hdec, by rw [delivered, hsame, hev, List.nil_append], ?_⟩
  rw [← href]
  rcases hb : (bytes (.header []) cs.flatten).2 with st' | u
  · simp only [hb] at hst
    simp [hst.1]
  · simp only [hb] at hst
    simp [hst]

/-- **Decoding refines the whole-stream reader.**  However a stream is cut into chunks, a fresh
handler whose callbacks return true hands over the frames of the stream: each complete payload
ended by `onFinishedPacket`, and of an incomplete one the bytes received.  A call returns false
exactly when the chunks received so far contain a byte after the head of a frame that carries no
data. -/
theorem decode_refines_reader (op : WebSocketOperation) (key : Fin 4 → UInt8)
    (buffer : Buffer MAX_WEBSOCKET_HEADER) (cs : List (List UInt8)) :
    ∃ ok h log, decodeChunks recorder (fresh op key buffer) cs [] = some (ok, h, log) ∧
      delivered log = ((readStream cs.flatten).reported, (readStream cs.flatten).part) ∧
      (ok = false ↔ (readStream cs.flatten).tail = .refused) ∧
      (ok = true → ∀ data, ∃ ok' h' log', decodeData recorder h data log = some (ok', h', log') ∧
        (ok' = false ↔ (readStream (cs.flatten ++ data)).tail = .refused)) := by
  obtain ⟨ok, h, log, hdec, hdel, href⟩ := decodeChunks_delivers op key buffer cs
  refine ⟨ok, h, log, hdec, hdel, href, ?_⟩
  rintro rfl data
  obtain ⟨ok', h', log', hdec', -, href'⟩ :=
    decodeChunks_delivers op key buffer (cs ++ [data])
  rw [decodeChunks_append hdec] at hdec'
  refine ⟨ok', h', log', ?_, by simpa using href'⟩
  rw [decodeChunks] at hdec'
  match hd : decodeData recorder h data log with
  | some (true, h₁, log₁) => simpa [hd, decodeChunks] using hdec'
  | some (false, h₁, log₁) => simpa [hd] using hdec'
  | none => simp [hd] at hdec'

end WebSocket
