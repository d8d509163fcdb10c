/-
**The WebSocket decoder stays inside its bounds.**

Whatever the callbacks answer, a handler that has not returned false is where a reader of the stream
is (`WebSocket.Rel`).  From this follow the bounds of its indices between two calls; inside a call
every turn of the loop keeps it, so that no access leaves the header buffer and the distance by
which the data pointer moves is a part of the chunk.  A turn that takes no byte of the chunk ends an
empty payload, so the number of turns is bounded as well.

Main definitions:

* `WebSocket.WebSocketHandler.impliedSize` — the size of the head that has been received in part;
* `WebSocket.WebSocketHandler.Bounded` — **the bounds of the indices** between two calls;
* `WebSocket.InBounds` — a call that returns, and stays inside its bounds.

Main results:

* `WebSocket.waitPacket_bounds` — what a turn takes of the chunk in the branch `WAIT_PACKET`;
* `WebSocket.decodeTurn_rel` — a turn keeps the relation and decreases a measure;
* `WebSocket.decodeData_inBounds` — every call returns, inside its bounds;
* `WebSocket.decoding_bounded` — **the bounds hold in every run**.
-/

import PicoHttps.WebSocket.Decode

set_option relaxedAutoImplicit false
set_option autoImplicit false

namespace WebSocket

open WebSocketHandler

/-- The size of the head that the bytes received so far imply: two bytes, as long as the second
one, which tells the size, has not arrived. -/
def WebSocketHandler.impliedSize (h : WebSocketHandler) : ℕ :=
  if h.bufferIndex < 2 then 2
  else
    let b1 := (h.buffer.read 1).getD 0
    2 + (extendedBytes b1 + keyBytes b1)

/-- **The bounds of the indices**: of a head some bytes are missing, and of a payload no more have
been handed over than it has. -/
structure WebSocketHandler.Bounded (h : WebSocketHandler) : Prop where
  packet : h.state = .WAIT_PACKET → h.bufferIndex < h.impliedSize
  impliedSize_le : h.impliedSize ≤ 14
  data : h.state = .WAIT_DATA → h.bufferIndex = 0 ∧ h.webSocketDataIndex ≤ h.webSocketDataLen

section bounded

variable {h : WebSocketHandler} {st : St}

theorem impliedSize_le (h : WebSocketHandler) : h.impliedSize ≤ 14 := by
  have he := extendedBytes_le ((h.buffer.read 1).getD 0)
  have hk := keyBytes_le ((h.buffer.read 1).getD 0)
  unfold impliedSize
  split
  · omega
  · dsimp only
    omega

/-- **A handler that is where a reader is keeps its bounds.** -/
theorem Rel.bounded (hrel : Rel h st) : h.Bounded := by
  cases hrel with
  | @header received hstate hindex hholds hhead =>
      refine ⟨fun _ => ?_, impliedSize_le h, fun hdata => ?_⟩
      · match received with
        | [] | [_] =>
            have hlt : h.bufferIndex < 2 := by
              rw [hindex]
              simp
            rw [impliedSize, if_pos hlt]
            exact hlt
        | b0 :: b1 :: rest =>
            rw [List.length_cons, List.length_cons] at hindex
            have hb1 : h.buffer.read 1 = some b1 := hholds.read (i := 1) (by simp)
            have hlt : rest.length < extendedBytes b1 + keyBytes b1 := by
              by_contra hge
              rw [readHead_some (by omega)] at hhead
              cases hhead
            rw [impliedSize, if_neg (by omega), hb1, Option.getD_some]
            dsimp only
            omega
      · rw [hstate] at hdata
        cases hdata
  | payload hstate hindex hop hkey hlen hi hle =>
      refine ⟨fun hpacket => ?_, impliedSize_le h, fun _ => ⟨hindex, ?_⟩⟩
      · rw [hstate] at hpacket
        cases hpacket
      · rw [hi, hlen]
        omega

end bounded

/-! ### The branches -/

/-- A chunk that completes a head contains the rest of it. -/
theorem readHead_takes {received data rest : List UInt8} {hd : Head}
    (hhead : readHead received = none) (hread : readHead (received ++ data) = some (hd, rest)) :
    ∃ extraBytes, 1 ≤ extraBytes ∧ extraBytes ≤ data.length ∧ rest = data.drop extraBytes := by
  obtain ⟨b0, b1, ys, hxs, hys, -, rfl⟩ := exists_of_readHead hread
  have hlt := length_lt_head hhead hxs
  have hlen := congrArg List.length hxs
  rw [List.length_append, List.length_cons, List.length_cons] at hlen
  exact ⟨2 + (extendedBytes b1 + keyBytes b1) - received.length, by omega, by omega,
    (drop_extra hxs (Nat.le_of_lt hlt)).symm⟩

section turn

variable {κ : Type} {cb : WebSocketInterface κ}

/-- **The branch `WAIT_PACKET` stays inside the header buffer**, and takes at least one byte of the
chunk, and no more than it has, when it goes on. -/
theorem waitPacket_bounds {h : WebSocketHandler} {received : List UInt8}
    (hrel : Rel h (.header received)) (data : List UInt8) :
    ∃ h' next, h.waitPacket data = some (h', next) ∧ (∃ st, Rel h' st) ∧
      ∀ rest, next = some rest → h'.state = .WAIT_DATA ∧ ∃ extraBytes, 1 ≤ extraBytes ∧
        extraBytes ≤ data.length ∧ rest = data.drop extraBytes := by
  have hhead : readHead received = none := by cases hrel; assumption
  cases hread : readHead (received ++ data) with
  | none =>
      obtain ⟨h', hturn, hrel'⟩ := waitPacket_none hrel hread
      exact ⟨h', none, hturn, ⟨_, hrel'⟩, fun rest hnext => by cases hnext⟩
  | some r =>
      obtain ⟨hd, rest⟩ := r
      obtain ⟨h', hturn, hrel'⟩ := waitPacket_some hrel hread
      have hstate : h'.state = .WAIT_DATA := by cases hrel'; assumption
      refine ⟨h', some rest, hturn, ⟨_, hrel'⟩, ?_⟩
      rintro rest' ⟨⟩
      exact ⟨hstate, readHead_takes hhead hread⟩

/-- **The branch `WAIT_DATA`**, whatever the callbacks answer, takes a byte of the chunk or ends an
empty payload when it goes on. -/
theorem waitData_bounds {h h' : WebSocketHandler} {hd : Head} {i : ℕ} {data data' : List UInt8}
    {k k' : κ} (hrel : Rel h (.payload hd i)) (hne : data ≠ [])
    (hturn : waitData cb h data k = .inl (h', data', k')) :
    (∃ st, Rel h' st) ∧ (data'.length < data.length ∨
      data'.length = data.length ∧ h'.state = .WAIT_PACKET) := by
  cases hrel with
  | payload hstate hindex hop hkey hlen hi hle =>
      have hpos := List.length_pos_of_ne_nil hne
      have hun := unmask_eq hkey data i
      have htaken : (unmask h.mask h.maskingKey h.webSocketDataLen h.webSocketDataIndex
          data).length = min (hd.length - i) data.length := by
        rw [hlen, hi, hun, Head.length_unmaskFrom, List.length_take]
      unfold waitData at hturn
      split at hturn
      · dsimp only at hturn
        generalize unmask h.mask h.maskingKey h.webSocketDataLen h.webSocketDataIndex data =
          unmasked at hturn htaken
        rcases hdata : cb.onWebSocketData unmasked k with ⟨ok, k₁⟩
        rw [hdata] at hturn
        cases ok with
        | false => cases hturn
        | true =>
            dsimp only at hturn
            split at hturn
            · -- the chunk contains the last byte of the payload, or the payload is empty
              rcases hfinished : cb.onFinishedPacket k₁ with ⟨ok', k₂⟩
              rw [hfinished] at hturn
              cases ok' with
              | false => cases hturn
              | true =>
                  cases hturn
                  refine ⟨⟨.header [], .header rfl hindex h.buffer.holds_nil rfl⟩, ?_⟩
                  rw [List.length_drop]
                  rcases Nat.eq_zero_or_pos unmasked.length with hzero | htake
                  · exact .inr ⟨by omega, rfl⟩
                  · exact .inl (by omega)
            · -- the chunk ends inside the payload
              rename_i hmore
              cases hturn
              have hlt : i + unmasked.length < hd.length := by omega
              refine ⟨⟨.payload hd (i + unmasked.length),
                .payload hstate hindex hop hkey hlen (by rw [hi]) (.inl hlt)⟩, .inl ?_⟩
              rw [List.length_drop]
              omega
      · cases hturn

/-- The branch `WAIT_DATA` does not return true. -/
theorem waitData_ne_true {h h' : WebSocketHandler} {data : List UInt8} {k k' : κ} :
    waitData cb h data k ≠ .inr (true, h', k') := by
  intro hturn
  unfold waitData at hturn
  split at hturn
  · dsimp only at hturn
    split at hturn
    · cases hturn
    · split at hturn
      · split at hturn
        · cases hturn
        · cases hturn
      · cases hturn
  · cases hturn

/-! ### The loop -/

/-- The handler is where some reader is. -/
def Placed (h : WebSocketHandler) : Prop := ∃ st, Rel h st

/-- Two for each byte of the chunk that is left, and one in a payload, which may be empty. -/
def pace (s : Loop κ) : ℕ :=
  2 * s.2.1.length + match s.1.state with
    | .WAIT_PACKET => 0
    | .WAIT_DATA => 1

/-- **A turn of the loop keeps the handler where a reader is, and decreases the measure.** -/
theorem decodeTurn_rel {s s' : Loop κ} {es : List Empty} (hs : Placed s.1)
    (hturn : decodeTurn cb s = (es, .inl s')) : Placed s'.1 ∧ pace s' < pace s := by
  obtain ⟨h, data, k⟩ := s
  obtain ⟨st, hrel⟩ := hs
  rcases eq_or_ne data [] with rfl | hne
  · cases hturn
  · cases st with
    | header received =>
        have hstate : h.state = .WAIT_PACKET := by cases hrel; assumption
        obtain ⟨h', next, hpacket, hplaced, hrest⟩ := waitPacket_bounds hrel data
        rw [decodeTurn_packet hne hstate, hpacket] at hturn
        cases next with
        | none => cases hturn
        | some rest =>
            cases hturn
            obtain ⟨hstate', extraBytes, hone, hle, rfl⟩ := hrest rest rfl
            refine ⟨hplaced, ?_⟩
            simp only [pace, hstate, hstate', List.length_drop]
            omega
    | payload hd i =>
        have hstate : h.state = .WAIT_DATA := by cases hrel; assumption
        rw [decodeTurn_data hne hstate] at hturn
        rcases hdata : waitData cb h data k with ⟨h', data', k'⟩ | r
        · rw [hdata] at hturn
          cases hturn
          obtain ⟨hplaced, hless⟩ := waitData_bounds hrel hne hdata
          refine ⟨hplaced, ?_⟩
          rcases hless with hlt | ⟨heq, hstate'⟩
          · have hle : pace (h', data', k') ≤ 2 * data'.length + 1 := by
              rw [pace]
              dsimp only
              split <;> omega
            simp only [pace, hstate] at hle ⊢
            omega
          · simp only [pace, hstate, hstate', heq]
            omega
        · rw [hdata] at hturn
          cases hturn

/-- **The loop leaves inside its bounds**, and a handler that has returned true is where a reader
is. -/
theorem decodeTurn_leaves {s : Loop κ} {es : List Empty}
    {r : Option (Bool × WebSocketHandler × κ)} (hs : Placed s.1)
    (hturn : decodeTurn cb s = (es, .inr r)) :
    ∃ ok h' k', r = some (ok, h', k') ∧ (ok = true → Placed h') := by
  obtain ⟨h, data, k⟩ := s
  obtain ⟨st, hrel⟩ := hs
  rcases eq_or_ne data [] with rfl | hne
  · cases hturn
    exact ⟨true, h, k, rfl, fun _ => ⟨st, hrel⟩⟩
  · cases st with
    | header received =>
        have hstate : h.state = .WAIT_PACKET := by cases hrel; assumption
        obtain ⟨h', next, hpacket, hplaced, -⟩ := waitPacket_bounds hrel data
        rw [decodeTurn_packet hne hstate, hpacket] at hturn
        cases next with
        | none =>
            cases hturn
            exact ⟨true, h', k, rfl, fun _ => hplaced⟩
        | some rest => cases hturn
    | payload hd i =>
        have hstate : h.state = .WAIT_DATA := by cases hrel; assumption
        rw [decodeTurn_data hne hstate] at hturn
        rcases hdata : waitData cb h data k with t | ⟨ok, h', k'⟩
        · rw [hdata] at hturn
          cases hturn
        · rw [hdata] at hturn
          cases hturn
          refine ⟨ok, h', k', rfl, ?_⟩
          rintro rfl
          exact absurd hdata waitData_ne_true

/-! ### A call -/

/-- **The call returns, and stays inside its bounds**: the loop leaves, and no access has been made
outside the header buffer; and whenever the loop is in the branch `WAIT_PACKET`, this does not leave
the buffer, and `extraBytes`, which are taken off the chunk where it goes on, are between one and
the length of what is left of the chunk. -/
structure InBounds (cb : WebSocketInterface κ) (h : WebSocketHandler) (data : List UInt8) (k : κ) :
    Prop where
  returns : ∃ r, decodeData cb h data k = some r
  leaves : ∃ r, While.Exec (decodeTurn cb) (h, data, k) [] (some r)
  packet : ∀ es h₁ data₁ k₁, While.Steps (decodeTurn cb) (h, data, k) es (h₁, data₁, k₁) →
    data₁ ≠ [] → h₁.state = .WAIT_PACKET → ∃ h₂ next, h₁.waitPacket data₁ = some (h₂, next) ∧
      ∀ rest, next = some rest → ∃ extraBytes, 1 ≤ extraBytes ∧ extraBytes ≤ data₁.length ∧
        rest = data₁.drop extraBytes

/-- **Every call returns, inside its bounds.** -/
theorem decodeData_inBounds {h : WebSocketHandler} (hs : Placed h) (data : List UInt8) (k : κ) :
    InBounds cb h data k := by
  have hclosed : ∀ (s s' : Loop κ) (es : List Empty), Placed s.1 →
      decodeTurn cb s = (es, .inl s') → Placed s'.1 :=
    fun s s' es hs hturn => (decodeTurn_rel hs hturn).1
  have hpace : pace (h, data, k) < 2 * data.length + 2 := by
    rw [pace]
    dsimp only
    split <;> omega
  obtain ⟨⟨es, r⟩, hrun⟩ := While.run_of_measure hclosed pace
    (fun s s' es hs hturn => (decodeTurn_rel hs hturn).2) (2 * data.length + 2) (h, data, k) hs
    hpace
  have hexec := While.exec_of_run _ _ _ _ hrun
  obtain ⟨ok, h', k', rfl, -⟩ := hexec.closed hclosed
    (fun s es r hs hturn => decodeTurn_leaves hs hturn) hs
  have hnil : es = [] := List.eq_nil_iff_forall_not_mem.2 fun e => e.elim
  refine ⟨⟨(ok, h', k'), by rw [decodeData, hrun]; rfl⟩, ⟨_, hnil ▸ hexec⟩, ?_⟩
  intro es' h₁ data₁ k₁ hsteps hne hstate
  have hplaced : Placed h₁ := hsteps.closed (P := fun s => Placed s.1) hclosed hs
  obtain ⟨st, hrel⟩ := hplaced
  cases st with
  | header received =>
      obtain ⟨h₂, next, hpacket, -, hrest⟩ := waitPacket_bounds hrel data₁
      exact ⟨h₂, next, hpacket, fun rest hnext => (hrest rest hnext).2⟩
  | payload hd i =>
      have hdata : h₁.state = .WAIT_DATA := by cases hrel; assumption
      rw [hstate] at hdata
      cases hdata

/-- A handler that has returned true is where a reader is. -/
theorem decodeData_placed {h h' : WebSocketHandler} {data : List UInt8} {k k' : κ}
    (hs : Placed h) (hdecode : decodeData cb h data k = some (true, h', k')) : Placed h' := by
  obtain ⟨⟨es, r⟩, hrun, hr⟩ := Option.bind_eq_some_iff.1 hdecode
  obtain ⟨ok, h₁, k₁, heq, hplaced⟩ := (While.exec_of_run _ _ _ _ hrun).closed
    (P := fun s : Loop κ => Placed s.1) (fun s s' es hs hturn => (decodeTurn_rel hs hturn).1)
    (fun s es r hs hturn => decodeTurn_leaves hs hturn) hs
  obtain rfl : r = some (true, h', k') := hr
  cases heq
  exact hplaced rfl

end turn

/-! ### Runs -/

/-- A run keeps the handler where a reader is. -/
theorem decodeChunks_placed {κ : Type} {cb : WebSocketInterface κ} {cs : List (List UInt8)} :
    ∀ {h h' : WebSocketHandler} {k k' : κ}, Placed h →
      decodeChunks cb h cs k = some (true, h', k') → Placed h' := by
  induction cs with
  | nil =>
      intro h h' k k' hs hrun
      cases hrun
      exact hs
  | cons c cs ih =>
      intro h h' k k' hs hrun
      obtain ⟨⟨ok, h₁, k₁⟩, hdecode⟩ := (decodeData_inBounds hs c k).returns
      rw [decodeChunks, hdecode] at hrun
      cases ok with
      | false => cases hrun
      | true => exact ih (decodeData_placed hs hdecode) hrun

/-- **The bounds hold in every run.**  Whatever the callbacks answer, in every run of calls on a
fresh handler up to the first one that returns false: between two calls the handler has its bounds,
and the next call, with whatever it is given, returns and stays inside its bounds. -/
theorem decoding_bounded {κ : Type} (cb : WebSocketInterface κ) (op : WebSocketOperation)
    (key : Fin 4 → UInt8) (buffer : Buffer MAX_WEBSOCKET_HEADER) (cs : List (List UInt8))
    (k k' : κ) (h : WebSocketHandler)
    (hrun : decodeChunks cb (fresh op key buffer) cs k = some (true, h, k')) :
    h.Bounded ∧ ∀ data, InBounds cb h data k' := by
  have hplaced : Placed h := decodeChunks_placed ⟨_, rel_fresh op key buffer⟩ hrun
  obtain ⟨st, hrel⟩ := hplaced
  exact ⟨hrel.bounded, fun data => decodeData_inBounds ⟨st, hrel⟩ data k'⟩

/-- A masked text frame of two bytes, of which the head and one byte have arrived, in two chunks. -/
theorem decoding_bounded_example : ∃ (h : WebSocketHandler) (log : List Call),
    decodeChunks recorder (fresh 0 (fun _ => 0) (.filled _ 0)) [[0x81], [0x82, 1, 2, 3, 4, 5]] [] =
      some (true, h, log) ∧ h.Bounded ∧ ∀ data, InBounds recorder h data log := by
  have hrun : ((decodeChunks recorder (fresh 0 (fun _ => 0) (.filled _ 0))
      [[0x81], [0x82, 1, 2, 3, 4, 5]] []).map (·.1)) = some true := by
    decide +kernel
  obtain ⟨⟨ok, h, log⟩, hchunks, hok⟩ := Option.map_eq_some_iff.1 hrun
  obtain rfl : ok = true := hok
  exact ⟨h, log, hchunks, decoding_bounded recorder 0 (fun _ => 0) (.filled _ 0) _ [] log h hchunks⟩

end WebSocket
