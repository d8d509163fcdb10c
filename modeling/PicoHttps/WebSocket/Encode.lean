/-
**What the WebSocket encoder writes is read back.**

`WebSocketHandler::encodeData` writes the head of a frame by hand, in one of the three forms of
the length, and the payload after it.  Here the bytes it hands to the connection are read with the
reader of `PicoHttps/WebSocket/Frame.lean`, and so by the decoder of another handler.

Main definitions:

* `WebSocket.encodeAll`, `WebSocket.encodedBytes` — a sequence of payloads, encoded, and the bytes
  handed over.

Main results:

* `WebSocket.readHead_encodeHeader` — **the head that is written is the head that is read**;
* `WebSocket.encodeHeader_shortest` — no head with the same length is shorter;
* `WebSocket.readStream_framesOf` — the frames of an encoded sequence are its payloads;
* `WebSocket.encode_decode` — **the round trip**, for every sequence and every way of cutting it.
-/

import PicoHttps.WebSocket.Decode
import Mathlib.Data.List.Induction

set_option relaxedAutoImplicit false
set_option autoImplicit false

namespace WebSocket

open WebSocketHandler

/-! ### The head -/

theorem beNat_four_zeros (len : ℕ) (h : len < 2 ^ 32) :
    Bytes.beNat [0, 0, 0, 0, Bytes.byte len 24, Bytes.byte len 16, Bytes.byte len 8,
      Bytes.byte len 0] = len := by
  rw [Bytes.beNat_eight]
  simp only [Bytes.toNat_byte, UInt8.toNat_zero]
  omega

/-- A head without a masking key. -/
theorem readHead_unmasked (b0 : UInt8) {b1 : UInt8} (ext : List UInt8) (hk : b1 &&& 0x80 = 0)
    (he : ext.length = extendedBytes b1) (rest : List UInt8) :
    readHead (b0 :: b1 :: (ext ++ rest)) = some (⟨b0 &&& 0x0f, none,
      if extendedBytes b1 = 0 then (b1 &&& 0x7f).toNat else Bytes.beNat ext⟩, rest) := by
  have hkb : keyBytes b1 = 0 := if_pos hk
  rw [readHead_some (by rw [hkb, ← he, List.length_append]; omega), hkb, ← he, Nat.add_zero,
    List.drop_left, headOf, if_pos hk, ← he, List.take_left]

/-- A length below 126 is its own first byte. -/
theorem low_ofNat {len : ℕ} (h : len < 126) : UInt8.ofNat len &&& 0x7f = UInt8.ofNat len := by
  rw [← UInt8.toNat_inj, UInt8.toNat_and, UInt8.toNat_ofNat']
  change (len % 2 ^ 8) &&& (2 ^ 7 - 1) = _
  rw [Nat.and_two_pow_sub_one_eq_mod]
  omega

theorem extendedBytes_ofNat {len : ℕ} (h : len < 126) : extendedBytes (UInt8.ofNat len) = 0 := by
  have hval : (UInt8.ofNat len).toNat = len := by rw [UInt8.toNat_ofNat']; omega
  have hne : ∀ k : UInt8, 126 ≤ k.toNat → UInt8.ofNat len ≠ k := by
    rintro k hk rfl
    omega
  rw [extendedBytes, low_ofNat h, if_neg (hne 126 (by decide)), if_neg (hne 127 (by decide))]

/-- **The head that is written is the head that is read.** -/
theorem readHead_encodeHeader {len : ℕ} (h : len < 2 ^ 32) (rest : List UInt8) :
    readHead (encodeHeader len ++ rest) = some (⟨BINARY_FRAME, none, len⟩, rest) := by
  unfold encodeHeader
  by_cases h1 : len < 126
  · have hext := extendedBytes_ofNat h1
    have hkey : UInt8.ofNat len &&& 0x80 = 0 := by
      rw [← low_ofNat h1, UInt8.and_assoc]
      exact UInt8.and_zero
    have hval : (UInt8.ofNat len).toNat = len := by rw [UInt8.toNat_ofNat']; omega
    have := readHead_unmasked (0x80 ||| BINARY_FRAME) [] hkey hext.symm rest
    rw [hext, if_pos rfl, low_ofNat h1, hval] at this
    rw [if_pos h1, UInt8.zero_or]
    exact this
  · by_cases h2 : len ≤ 0xffff
    · rw [if_neg h1, if_pos h2]
      have := readHead_unmasked (0x80 ||| BINARY_FRAME) [Bytes.byte len 8, Bytes.byte len 0]
        (show (0 ||| 126 : UInt8) &&& 0x80 = 0 from rfl) rfl rest
      rw [Bytes.beNat_split len (by omega)] at this
      exact this
    · rw [if_neg h1, if_neg h2]
      have := readHead_unmasked (0x80 ||| BINARY_FRAME)
        [0, 0, 0, 0, Bytes.byte len 24, Bytes.byte len 16, Bytes.byte len 8, Bytes.byte len 0]
        (show (0 ||| 127 : UInt8) &&& 0x80 = 0 from rfl) rfl rest
      rw [beNat_four_zeros len h] at this
      exact this

/-- The value of `n` bytes is below `256 ^ n`. -/
theorem beNat_lt (bs : List UInt8) : Bytes.beNat bs < 256 ^ bs.length := by
  induction bs using List.reverseRecOn with
  | nil => simp
  | append_singleton bs b ih =>
      have hb := Bytes.toNat_lt b
      rw [Bytes.beNat, List.foldl_append, ← Bytes.beNat, List.length_append, List.length_singleton,
        Nat.pow_succ]
      simp only [List.foldl_cons, List.foldl_nil]
      omega

/-- **No head with the same length is shorter** than the one that is written. -/
theorem encodeHeader_shortest {xs rest : List UInt8} {hd : Head}
    (h : readHead xs = some (hd, rest)) :
    (encodeHeader hd.length).length + rest.length ≤ xs.length := by
  obtain ⟨b0, b1, ys, rfl, hle, rfl, rfl⟩ := exists_of_readHead h
  have hwrite : ∀ len : ℕ, (len < 126 → (encodeHeader len).length = 2) ∧
      (len ≤ 0xffff → (encodeHeader len).length ≤ 4) ∧ (encodeHeader len).length ≤ 10 := by
    intro len
    unfold encodeHeader
    refine ⟨fun h1 => by rw [if_pos h1]; rfl, fun h2 => ?_, ?_⟩
    · rw [if_pos h2]
      split <;> simp
    · split <;> [simp; split <;> simp]
  obtain ⟨hsmall, hmedium, hlarge⟩ := hwrite (headOf b0 b1 ys).length
  -- the head that is read may announce a length in more bytes than it takes
  have hhead : (encodeHeader (headOf b0 b1 ys).length).length ≤ 2 + extendedBytes b1 := by
    by_cases h6 : b1 &&& 0x7f = 126
    · have hext : extendedBytes b1 = 2 := if_pos h6
      have hlen : (headOf b0 b1 ys).length = Bytes.beNat (ys.take 2) := by
        simp only [headOf, hext]
        rfl
      have hval := beNat_lt (ys.take 2)
      have htwo : (ys.take 2).length = 2 := by rw [List.length_take]; omega
      rw [htwo] at hval
      have := hmedium (by omega)
      omega
    · by_cases h7 : b1 &&& 0x7f = 127
      · have hext : extendedBytes b1 = 8 := by rw [extendedBytes, if_neg h6, if_pos h7]
        omega
      · have hext : extendedBytes b1 = 0 := by rw [extendedBytes, if_neg h6, if_neg h7]
        have hlen : (headOf b0 b1 ys).length = (b1 &&& 0x7f).toNat := by
          simp only [headOf, hext]
          rfl
        have hlow : (b1 &&& 0x7f).toNat < 126 := UInt8.lt_iff_toNat_lt.1 (low_lt h6 h7)
        have := hsmall (by omega)
        omega
  simp only [List.length_cons, List.length_drop]
  omega

/-! ### A sequence of payloads -/

/-- Encoding payloads one after the other, up to the first call that returns false. -/
def encodeAll {κ : Type} (cb : WebSocketInterface κ) : List (List UInt8) → κ → Bool × κ
  | [], k => (true, k)
  | p :: ps, k =>
    match encodeData cb p k with
    | (false, k) => (false, k)
    | (true, k) => encodeAll cb ps k

/-- The bytes handed to `onWebsocketEncodedData`. -/
def encodedBytes (calls : List Call) : List UInt8 :=
  calls.flatMap fun
    | .onWebsocketEncodedData data => data
    | _ => []

/-- The bytes that a sequence of payloads is sent as. -/
def framesOf (ps : List (List UInt8)) : List UInt8 := ps.flatMap fun p => encodeHeader p.length ++ p

theorem encodeAll_recorder (ps : List (List UInt8)) : ∀ log, ∃ log',
    encodeAll recorder ps log = (true, log') ∧
      encodedBytes log' = encodedBytes log ++ framesOf ps := by
  induction ps with
  | nil => intro log; exact ⟨log, rfl, by simp [framesOf]⟩
  | cons p ps ih =>
      intro log
      obtain ⟨log', henc, hbytes⟩ := ih
        (log ++ [.onWebsocketEncodedData (encodeHeader p.length)] ++ [.onWebsocketEncodedData p])
      refine ⟨log', henc, ?_⟩
      rw [hbytes]
      simp [encodedBytes, framesOf]

/-- **The frames of an encoded sequence are its payloads.** -/
theorem readStream_framesOf {ps : List (List UInt8)} (hps : ∀ p ∈ ps, p.length < 2 ^ 32) :
    readStream (framesOf ps) = ⟨ps, none, .boundary⟩ := by
  induction ps with
  | nil => exact readStream_none rfl
  | cons p ps ih =>
      have hhead := readHead_encodeHeader (hps p List.mem_cons_self) (p ++ framesOf ps)
      have hdata : (⟨BINARY_FRAME, none, p.length⟩ : Head).isData = true := rfl
      have hsplit : framesOf (p :: ps) = encodeHeader p.length ++ (p ++ framesOf ps) := by
        simp [framesOf]
      rw [hsplit, readStream_some hhead, if_pos hdata, if_neg (by simp), List.drop_left,
        List.take_left, ih fun q hq => hps q (List.mem_cons_of_mem p hq)]
      have hplain : ∀ (bs : List UInt8) (i : ℕ),
          (⟨BINARY_FRAME, none, p.length⟩ : Head).unmaskFrom i bs = bs := by
        intro bs
        induction bs with
        | nil => intro i; rfl
        | cons b bs ih => intro i; rw [Head.unmaskFrom, ih]; rfl
      rw [hplain]

/-- **The round trip.**  The bytes that `encodeData` hands over for a sequence of payloads, cut in
any way, are accepted by a fresh handler and give the payloads back, the last of them only if it
is not empty; and each head is the shortest one that announces the length of its payload. -/
theorem encode_decode (op : WebSocketOperation) (key : Fin 4 → UInt8)
    (buffer : Buffer MAX_WEBSOCKET_HEADER) (ps : List (List UInt8))
    (hps : ∀ p ∈ ps, p.length < 2 ^ 32) (cs : List (List UInt8))
    (hcs : cs.flatten = encodedBytes (encodeAll recorder ps []).2) :
    (∃ h log, decodeChunks recorder (fresh op key buffer) cs [] = some (true, h, log) ∧
      delivered log = (if ps.getLast? = some [] then ps.dropLast else ps, none)) ∧
    ∀ p ∈ ps, ∃ header hd, encodeData recorder p [] =
        (true, [.onWebsocketEncodedData header, .onWebsocketEncodedData p]) ∧
      readHead header = some (hd, []) ∧ hd.length = p.length ∧
      ∀ xs hd' rest, readHead xs = some (hd', rest) → hd'.length = p.length →
        header.length + rest.length ≤ xs.length := by
  obtain ⟨log', henc, hbytes⟩ := encodeAll_recorder ps []
  have hread : readStream cs.flatten = ⟨ps, none, .boundary⟩ := by
    rw [hcs, henc, hbytes]
    exact readStream_framesOf hps
  constructor
  · obtain ⟨ok, h, log, hdec, hdel, href⟩ := decodeChunks_delivers op key buffer cs
    rw [hread] at hdel href
    have hok : ok = true := by simpa using href
    exact ⟨h, log, hok ▸ hdec, by simpa [Reading.reported] using hdel⟩
  · intro p hp
    refine ⟨encodeHeader p.length, ⟨BINARY_FRAME, none, p.length⟩, rfl, ?_, rfl, ?_⟩
    · simpa using readHead_encodeHeader (hps p hp) []
    · rintro xs hd' rest hx hlen
      rw [← hlen]
      exact encodeHeader_shortest hx

/-- Two payloads, the second one empty, in chunks that cut the first head. -/
theorem encode_decode_example :
    ∃ h log, decodeChunks recorder (fresh 0 ![0, 0, 0, 0] (.filled _ 0))
        [[0x82], [1, 7, 0x82, 0]] [] = some (true, h, log) ∧
      delivered log = ([[7]], none) :=
  (encode_decode 0 ![0, 0, 0, 0] (.filled _ 0) [[7], []] (by simp) [[0x82], [1, 7, 0x82, 0]]
    (by decide)).1

end WebSocket
