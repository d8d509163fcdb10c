/-
**What a CONNECT says.**

A CONNECT that is handed to the downstream is read back here by the rules of MQTT 3.1.1: the
remaining length is the number of bytes that follow it, the connect flags say which strings are
there, and nothing stands behind the last of them.

The handler counts a string where it is not empty, flags it where it is not null, and writes a
will where topic and message are both not null.  The three agree on strings that are null or not
empty, with a will of topic and message and a password that has a user; on no others.

Main definitions:

* `Mqtt.Connect`, `Mqtt.readConnect` — what a CONNECT says, and how it is read;
* `Mqtt.World.Encodes` — what is handed over says what has been given;
* `Mqtt.World.Refused`, `Mqtt.World.WellGiven` — the arguments for which it does.

Main results:

* `Mqtt.World.sendConnect_read` — **well given arguments are read back**;
* `Mqtt.World.wellGiven_of_read` — arguments that are read back are well given;
* `Mqtt.World.encodes_iff` — a CONNECT says what it was given exactly for these arguments.
-/

import PicoHttps.Mqtt.Framing

set_option relaxedAutoImplicit false
set_option autoImplicit false

namespace Mqtt

/-! ### Reading a CONNECT -/

/-- What a CONNECT says. -/
structure Connect where
  cleanSession : Bool
  keepalive : ℕ
  clientId : List UInt8
  willTopic : Option (List UInt8)
  willMessage : Option (List UInt8)
  user : Option (List UInt8)
  pass : Option (List UInt8)
  deriving DecidableEq

/-- A string with its length before it, and what follows it. -/
def readString : List UInt8 → Option (List UInt8 × List UInt8)
  | high :: low :: rest =>
    if Bytes.beNat [high, low] ≤ rest.length then
      some (rest.take (Bytes.beNat [high, low]), rest.drop (Bytes.beNat [high, low]))
    else none
  | _ => none

/-- A string that is there when a flag says so. -/
def readWhere (flag : Bool) (bytes : List UInt8) : Option (Option (List UInt8) × List UInt8) :=
  if flag then (readString bytes).map fun r => (some r.1, r.2) else some (none, bytes)

/-- The reserved flag is clear, there is no QoS 3, what describes a will has a will, and a password
has a user. -/
def FlagsOk (flags : UInt8) : Prop :=
  flags &&& 0x01 = 0 ∧ flags &&& 0x18 ≠ 0x18 ∧ (flags &&& 0x04 = 0 → flags &&& 0x38 = 0) ∧
    (flags &&& 0x80 = 0 → flags &&& 0x40 = 0)

instance (flags : UInt8) : Decidable (FlagsOk flags) :=
  inferInstanceAs (Decidable (_ ∧ _ ∧ _ ∧ _))

/-- The strings of a CONNECT, behind its flags and its keepalive. -/
def readPayload (flags : UInt8) (keepalive : ℕ) (bytes : List UInt8) : Option Connect := do
  let (clientId, bytes) ← readString bytes
  let (willTopic, bytes) ← readWhere (flags &&& 0x04 != 0) bytes
  let (willMessage, bytes) ← readWhere (flags &&& 0x04 != 0) bytes
  let (user, bytes) ← readWhere (flags &&& 0x80 != 0) bytes
  let (pass, bytes) ← readWhere (flags &&& 0x40 != 0) bytes
  if bytes = [] then
    return { cleanSession := flags &&& 0x02 != 0, keepalive, clientId, willTopic, willMessage,
             user, pass }
  else none

/-- The name and the level of the protocol, the flags and the keepalive, and the strings. -/
def readBody (body : List UInt8) : Option Connect :=
  if body.take 7 = [0x00, 0x04, 'M'.toUInt8, 'Q'.toUInt8, 'T'.toUInt8, 'T'.toUInt8, 4] then
    match body.drop 7 with
    | flags :: high :: low :: bytes =>
      if FlagsOk flags then readPayload flags (Bytes.beNat [high, low]) bytes else none
    | _ => none
  else none

/-- A CONNECT packet, by the rules of MQTT 3.1.1. -/
def readConnect : List UInt8 → Option Connect
  | first :: rest => do
    let lengthField ← Varint.field 5 rest
    let body := rest.drop lengthField.length
    if first = MQTTCONNECT ∧ lengthField.length ≤ 4 ∧ body.length = Varint.value lengthField then
      readBody body
    else none
  | [] => none

section read

variable {flags : UInt8} {keepalive : ℕ} {bytes rest : List UInt8} {connect : Connect}

/-- **A string is read back.** -/
theorem readString_stringBytes {s : List UInt8} (hs : s.length < 2 ^ 16) (rest : List UInt8) :
    readString (stringBytes s ++ rest) = some (s, rest) := by
  have hlen : Bytes.beNat [Bytes.byte s.length 8, Bytes.byte s.length 0] = s.length :=
    Bytes.beNat_split s.length hs
  rw [stringBytes, List.cons_append, List.cons_append, readString, hlen, if_pos (by simp),
    List.take_left, List.drop_left]

theorem readWhere_true {s : List UInt8} (hs : s.length < 2 ^ 16) (rest : List UInt8) :
    readWhere true (stringBytes s ++ rest) = some (some s, rest) := by
  rw [readWhere, if_pos rfl, readString_stringBytes hs]
  rfl

theorem readWhere_false (bytes : List UInt8) : readWhere false bytes = some (none, bytes) := rfl

/-- The bytes of a string that is given. -/
def givenBytes (s : Option (List UInt8)) : List UInt8 := (s.map stringBytes).getD []

/-- A string that may be missing is read back. -/
theorem readWhere_given {s : Option (List UInt8)} (hs : ∀ t ∈ s, t.length < 2 ^ 16)
    (rest : List UInt8) : readWhere s.isSome (givenBytes s ++ rest) = some (s, rest) := by
  cases s with
  | none => rfl
  | some t => exact readWhere_true (hs t rfl) rest

/-- A string is there exactly where its flag says so. -/
theorem isSome_of_readWhere {flag : Bool} {s : Option (List UInt8)}
    (h : readWhere flag bytes = some (s, rest)) : s.isSome = flag := by
  cases flag with
  | false =>
      rw [readWhere_false] at h
      cases h
      rfl
  | true =>
      rw [readWhere, if_pos rfl] at h
      obtain ⟨r, -, hr⟩ := Option.map_eq_some_iff.1 h
      cases hr
      rfl

/-- The will, the user and the password are there exactly where their flags say so. -/
structure Connect.Flagged (connect : Connect) (flags : UInt8) : Prop where
  willTopic : connect.willTopic.isSome = (flags &&& 0x04 != 0)
  willMessage : connect.willMessage.isSome = (flags &&& 0x04 != 0)
  user : connect.user.isSome = (flags &&& 0x80 != 0)
  pass : connect.pass.isSome = (flags &&& 0x40 != 0)

theorem flagged_of_readPayload (h : readPayload flags keepalive bytes = some connect) :
    connect.Flagged flags := by
  rw [readPayload] at h
  obtain ⟨⟨clientId, bytes₁⟩, -, h⟩ := Option.bind_eq_some_iff.1 h
  obtain ⟨⟨willTopic, bytes₂⟩, hwillTopic, h⟩ := Option.bind_eq_some_iff.1 h
  obtain ⟨⟨willMessage, bytes₃⟩, hwillMessage, h⟩ := Option.bind_eq_some_iff.1 h
  obtain ⟨⟨user, bytes₄⟩, huser, h⟩ := Option.bind_eq_some_iff.1 h
  obtain ⟨⟨pass, bytes₅⟩, hpass, h⟩ := Option.bind_eq_some_iff.1 h
  dsimp only at h
  split at h
  · cases h
    exact ⟨isSome_of_readWhere hwillTopic, isSome_of_readWhere hwillMessage,
      isSome_of_readWhere huser, isSome_of_readWhere hpass⟩
  · cases h

/-- A CONNECT with a complete remaining length. -/
theorem readConnect_eq {f : List UInt8} (hf : Varint.Complete f) (hle : f.length ≤ 4)
    (body : List UInt8) : readConnect (MQTTCONNECT :: (f ++ body)) =
      if body.length = Varint.value f then readBody body else none := by
  have hfield : Varint.field 5 (f ++ body) = some f :=
    Varint.field_complete hf (by omega) body
  have hdrop : (f ++ body).drop f.length = body := List.drop_left
  rw [readConnect, hfield]
  simp only [Option.bind_eq_bind, Option.bind_some, hdrop, hle, true_and]

end read

/-! ### The flags -/

namespace World

section flags

variable {cleanSession : Bool} {keepaliveSeconds : UInt8}
  {willTopic user pass : Option (List UInt8)}

/-- **What the flags say.** -/
theorem connectFlags_spec (cleanSession : Bool) (willTopic user pass : Option (List UInt8)) :
    FlagsOk (connectFlags cleanSession willTopic user pass) ∧
    (connectFlags cleanSession willTopic user pass &&& 0x02 != 0) = cleanSession ∧
    (connectFlags cleanSession willTopic user pass &&& 0x04 != 0) = willTopic.isSome ∧
    (connectFlags cleanSession willTopic user pass &&& 0x80 != 0) = user.isSome ∧
    (connectFlags cleanSession willTopic user pass &&& 0x40 != 0) =
      (user.isSome && pass.isSome) := by
  unfold connectFlags
  generalize willTopic.isSome = hasWill
  generalize user.isSome = hasUser
  generalize pass.isSome = hasPass
  revert cleanSession hasWill hasUser hasPass
  decide

/-- The fixed fields are read back. -/
theorem readBody_connectFields (bytes : List UInt8) :
    readBody (connectFields cleanSession keepaliveSeconds willTopic user pass ++ bytes) =
      readPayload (connectFlags cleanSession willTopic user pass) keepaliveSeconds.toNat bytes := by
  have hflags := (connectFlags_spec cleanSession willTopic user pass).1
  have hlow : keepaliveSeconds &&& 0xFF = keepaliveSeconds := by
    rw [← UInt8.toNat_inj, UInt8.toNat_and, show (0xFF : UInt8).toNat = 2 ^ 8 - 1 from rfl,
      Nat.and_two_pow_sub_one_eq_mod]
    exact Nat.mod_eq_of_lt keepaliveSeconds.toNat_lt
  have hkeepalive : Bytes.beNat [Bytes.byte keepaliveSeconds.toNat 8, keepaliveSeconds &&& 0xFF] =
      keepaliveSeconds.toNat := by
    have hlt := keepaliveSeconds.toNat_lt
    rw [hlow, Bytes.beNat_two, Bytes.toNat_byte, Nat.div_eq_of_lt hlt]
    simp
  rw [readBody, if_pos (by rfl)]
  change (if FlagsOk (connectFlags cleanSession willTopic user pass) then
    readPayload (connectFlags cleanSession willTopic user pass)
      (Bytes.beNat [Bytes.byte keepaliveSeconds.toNat 8, keepaliveSeconds &&& 0xFF]) bytes
    else none) = _
  rw [if_pos hflags, hkeepalive]

end flags

/-! ### The arguments -/

section given

variable {cleanSession : Bool} {keepaliveSeconds : UInt8} {clientId : List UInt8}
  {id willTopic willMessage user pass : Option (List UInt8)}

/-- The bytes that are counted for a string: none where it is null or empty. -/
def counted : Option (List UInt8) → ℕ
  | none | some [] => 0
  | some s => s.length + 2

theorem counted_le (s : Option (List UInt8)) : counted s ≤ (givenBytes s).length := by
  rcases s with _ | _ | ⟨b, s⟩
  · exact Nat.le_refl _
  · exact Nat.zero_le _
  · exact Nat.le_refl _

/-- An empty string is written but not counted. -/
theorem counted_eq_iff (s : Option (List UInt8)) :
    counted s = (givenBytes s).length ↔ s ≠ some [] := by
  rcases s with _ | _ | ⟨b, s⟩ <;> simp [counted, givenBytes, length_stringBytes]

theorem counted_eq {s : Option (List UInt8)} (hs : ∀ t ∈ s, t.length < 2 ^ 16) :
    sizeOf (lengthOf s) = counted s := by
  rcases s with _ | _ | ⟨b, s⟩
  · rfl
  · rfl
  · rw [lengthOf, Option.getD_some, Nat.mod_eq_of_lt (hs _ rfl), sizeOf,
      if_pos (show 0 < (b :: s).length from Nat.succ_pos _)]
    rfl

/-- There is no client id, or the strings that are counted do not fit into 241 bytes. -/
def Refused (id willTopic willMessage user pass : Option (List UInt8)) : Prop :=
  id = none ∨
    241 < counted id + counted willTopic + (if willTopic.isSome then counted willMessage else 0) +
      counted user + (if user.isSome then counted pass else 0)

/-- No string is empty, a will has a topic and a message, and a password has a user. -/
structure WellGiven (id willTopic willMessage user pass : Option (List UInt8)) : Prop where
  not_empty : some [] ∉ [id, willTopic, willMessage, user, pass]
  will : willTopic.isSome = willMessage.isSome
  login : pass.isSome → user.isSome

/-- Every string has at most 65535 characters. -/
def InRange (id willTopic willMessage user pass : Option (List UInt8)) : Prop :=
  ∀ t, some t ∈ [id, willTopic, willMessage, user, pass] → t.length < 2 ^ 16

theorem InRange.given (h : InRange id willTopic willMessage user pass)
    {s : Option (List UInt8)} (hs : s ∈ [id, willTopic, willMessage, user, pass]) :
    ∀ t ∈ s, t.length < 2 ^ 16 := by
  intro t ht
  exact h t (ht ▸ hs)

theorem connectSize_eq (h : InRange id willTopic willMessage user pass) :
    connectSize id willTopic willMessage user pass = 10 + (counted id + counted willTopic +
      (if willTopic.isSome then counted willMessage else 0) + counted user +
      (if user.isSome then counted pass else 0)) := by
  have hid := counted_eq (h.given (s := id) (by simp))
  have hwillTopic := counted_eq (h.given (s := willTopic) (by simp))
  have hwillMessage := counted_eq (h.given (s := willMessage) (by simp))
  have huser := counted_eq (h.given (s := user) (by simp))
  have hpass := counted_eq (h.given (s := pass) (by simp))
  have hzero : sizeOf 0 = 0 := rfl
  rw [connectSize, apply_ite sizeOf, apply_ite sizeOf, hid, hwillTopic, hwillMessage, huser, hpass,
    hzero]
  omega

/-- The strings that are written, where the will is complete and the password has a user. -/
theorem flatMap_connectStrings (hwill : willTopic.isSome = willMessage.isSome)
    (hlogin : pass.isSome → user.isSome) :
    (connectStrings clientId willTopic willMessage user pass).flatMap stringBytes =
      stringBytes clientId ++ (givenBytes willTopic ++ (givenBytes willMessage ++
        (givenBytes user ++ givenBytes pass))) := by
  rcases willTopic with _ | topic <;> rcases willMessage with _ | message
  case none.some => cases hwill
  case some.none => cases hwill
  all_goals
    rcases user with _ | user <;> rcases pass with _ | pass
    case none.some => cases hlogin rfl
    all_goals simp [connectStrings, givenBytes]

theorem mem_strings (h : InRange (some clientId) willTopic willMessage user pass) :
    ∀ s ∈ connectStrings clientId willTopic willMessage user pass, s.length < 2 ^ 16 :=
  fun s hs => h s (given_of_mem_connectStrings hs)

/-- The strings are as long as the size says exactly where none is empty. -/
theorem connectSize_strings (h : InRange (some clientId) willTopic willMessage user pass)
    (hwill : willTopic.isSome = willMessage.isSome) (hlogin : pass.isSome → user.isSome) :
    connectSize (some clientId) willTopic willMessage user pass =
        10 + ((connectStrings clientId willTopic willMessage user pass).flatMap
          stringBytes).length ↔
      some [] ∉ [some clientId, willTopic, willMessage, user, pass] := by
  have hmessage : (if willTopic.isSome then counted willMessage else 0) = counted willMessage := by
    rw [hwill]
    cases willMessage <;> rfl
  have hpass : (if user.isSome then counted pass else 0) = counted pass := by
    rcases pass with _ | pass
    · exact ite_self 0
    · rw [if_pos (hlogin rfl)]
  have hid : (givenBytes (some clientId)).length = (stringBytes clientId).length := rfl
  have hle := fun s => counted_le s
  rw [connectSize_eq h, hmessage, hpass, flatMap_connectStrings hwill hlogin]
  simp only [List.length_append, List.mem_cons, List.not_mem_nil, or_false, not_or, ← hid,
    @eq_comm _ (some []), ← ne_eq, ← counted_eq_iff]
  have h₁ := hle (some clientId)
  have h₂ := hle willTopic
  have h₃ := hle willMessage
  have h₄ := hle user
  have h₅ := hle pass
  omega

/-- **Strings that are given are read back.** -/
theorem readPayload_given (h : InRange (some clientId) willTopic willMessage user pass)
    (hwill : willTopic.isSome = willMessage.isSome) (hlogin : pass.isSome → user.isSome) :
    readPayload (connectFlags cleanSession willTopic user pass) keepaliveSeconds.toNat
        ((connectStrings clientId willTopic willMessage user pass).flatMap stringBytes) =
      some ⟨cleanSession, keepaliveSeconds.toNat, clientId, willTopic, willMessage, user, pass⟩ := by
  obtain ⟨-, hclean, hhasWill, hhasUser, hhasPass⟩ :=
    connectFlags_spec cleanSession willTopic user pass
  have hboth : (user.isSome && pass.isSome) = pass.isSome := by
    cases pass with
    | none => exact Bool.and_false _
    | some pass => rw [hlogin rfl]; rfl
  have htopic := readWhere_given (h.given (s := willTopic) (by simp))
  have hmessage := readWhere_given (h.given (s := willMessage) (by simp))
  have huser := readWhere_given (h.given (s := user) (by simp))
  have hpass := readWhere_given (h.given (s := pass) (by simp)) []
  rw [List.append_nil] at hpass
  rw [← hwill] at hmessage
  rw [flatMap_connectStrings hwill hlogin, readPayload, hclean, hhasWill, hhasUser, hhasPass, hboth,
    readString_stringBytes (h clientId (by simp))]
  simp only [Option.bind_eq_bind, Option.bind_some, htopic, hmessage, huser, hpass, if_true]
  rfl

end given

/-! ### What is handed over -/

section encodes

variable {κ : Type} {d : Downstream κ} {w : World κ} {cleanSession : Bool}
  {keepaliveSeconds : UInt8} {id willTopic willMessage user pass : Option (List UInt8)}

/-- No write is outside the array, and a packet that is handed over is read as what has been
given. -/
def Encodes (d : Downstream κ) (w : World κ) (cleanSession : Bool) (keepaliveSeconds : UInt8)
    (id willTopic willMessage user pass : Option (List UInt8)) : Prop :=
  ∃ ok w', w.sendConnect d cleanSession keepaliveSeconds id willTopic willMessage user pass =
      some (ok, w') ∧
    (w'.handed = w.handed ∨ ∃ packet clientId, w'.handed = w.handed ++ [packet] ∧
      id = some clientId ∧ readConnect packet = some
        ⟨cleanSession, keepaliveSeconds.toNat, clientId, willTopic, willMessage, user, pass⟩)

/-- Nothing is handed over. -/
theorem sendConnect_refused (cleanSession : Bool) (keepaliveSeconds : UInt8)
    (hzero : w.handler.pendingSendDataLen = 0)
    (hrange : InRange id willTopic willMessage user pass)
    (h : Refused id willTopic willMessage user pass) :
    w.sendConnect d cleanSession keepaliveSeconds id willTopic willMessage user pass =
      some (false, w) := by
  have hbuffer : MQTT_BUFFER_SIZE = 256 := rfl
  have hheader : MQTT_MAX_HEADER_SIZE = 5 := rfl
  have hsize := connectSize_eq hrange
  rcases Nat.lt_or_ge MQTT_BUFFER_SIZE
    (connectSize id willTopic willMessage user pass + MQTT_MAX_HEADER_SIZE) with hlarge | hle
  · exact sendConnect_large hzero hlarge
  · rcases h with rfl | hlarge
    · obtain ⟨f, c, -, -, -, -, hsend⟩ := sendConnect_eq (d := d) (w := w)
        cleanSession keepaliveSeconds hzero hle
      exact hsend
    · omega

/-- **Well given arguments are read back.** -/
theorem sendConnect_read (hzero : w.handler.pendingSendDataLen = 0)
    (hrange : InRange id willTopic willMessage user pass)
    (hrefused : ¬ Refused id willTopic willMessage user pass)
    (h : WellGiven id willTopic willMessage user pass) :
    Encodes d w cleanSession keepaliveSeconds id willTopic willMessage user pass := by
  have hbuffer : MQTT_BUFFER_SIZE = 256 := rfl
  have hheader : MQTT_MAX_HEADER_SIZE = 5 := rfl
  obtain ⟨hnull, hroom⟩ := not_or.1 hrefused
  obtain ⟨clientId, rfl⟩ := Option.ne_none_iff_exists'.1 hnull
  have hsize := connectSize_eq hrange
  have hstrings := (connectSize_strings hrange h.will h.login).2 h.not_empty
  obtain ⟨f, c, hc, hcomplete, hle, hvalue, hsend⟩ := sendConnect_eq (d := d) (w := w)
    cleanSession keepaliveSeconds hzero
    (show connectSize (some clientId) willTopic willMessage user pass + MQTT_MAX_HEADER_SIZE ≤
      MQTT_BUFFER_SIZE by omega)
  have hfixed : (connectFields cleanSession keepaliveSeconds willTopic user pass).length = 10 := rfl
  obtain ⟨c', hwrite, hc'⟩ := writeStrings_spec hc (mem_strings hrange) (by
    simp only [List.length_append, List.length_cons, hfixed]
    omega)
  rw [Option.elim_some, hwrite, Option.bind_some] at hsend
  refine ⟨_, _, hsend, .inr ⟨c'.written, clientId, rfl, rfl, ?_⟩⟩
  rw [hc'.written_eq, List.append_assoc, List.cons_append, readConnect_eq hcomplete hle,
    if_pos (by rw [List.length_append, hfixed]; omega), readBody_connectFields,
    readPayload_given hrange h.will h.login]

/-- **Arguments that are read back are well given.** -/
theorem wellGiven_of_read (hzero : w.handler.pendingSendDataLen = 0)
    (hrange : InRange id willTopic willMessage user pass)
    (hrefused : ¬ Refused id willTopic willMessage user pass)
    (h : Encodes d w cleanSession keepaliveSeconds id willTopic willMessage user pass) :
    WellGiven id willTopic willMessage user pass := by
  have hbuffer : MQTT_BUFFER_SIZE = 256 := rfl
  have hheader : MQTT_MAX_HEADER_SIZE = 5 := rfl
  obtain ⟨hnull, hroom⟩ := not_or.1 hrefused
  obtain ⟨clientId, rfl⟩ := Option.ne_none_iff_exists'.1 hnull
  have hsize := connectSize_eq hrange
  obtain ⟨f, c, hc, hcomplete, hle, hvalue, hsend⟩ := sendConnect_eq (d := d) (w := w)
    cleanSession keepaliveSeconds hzero
    (show connectSize (some clientId) willTopic willMessage user pass + MQTT_MAX_HEADER_SIZE ≤
      MQTT_BUFFER_SIZE by omega)
  obtain ⟨ok, w', hresult, hhanded⟩ := h
  rw [hsend] at hresult
  obtain ⟨c', hwrite, hw'⟩ := Option.bind_eq_some_iff.1 hresult
  have hc' := writeStrings_filled hc (mem_strings hrange) hwrite
  have hnew : w'.handed = w.handed ++ [c'.written] := by
    cases hw'
    rfl
  rcases hhanded with hsame | ⟨packet, clientId', hpacket, hid, hread⟩
  · rw [hnew] at hsame
    exact absurd hsame (by simp)
  obtain rfl := Option.some.inj hid
  rw [hnew] at hpacket
  obtain rfl : c'.written = packet := by simpa using hpacket
  rw [hc'.written_eq, List.append_assoc, List.cons_append, readConnect_eq hcomplete hle] at hread
  split at hread
  case isFalse => cases hread
  rename_i hlength
  rw [readBody_connectFields] at hread
  -- presence is what the flags say, on both sides of the reader
  have hflagged := flagged_of_readPayload hread
  obtain ⟨-, -, hhasWill, hhasUser, hhasPass⟩ :=
    connectFlags_spec cleanSession willTopic user pass
  have hwill : willTopic.isSome = willMessage.isSome :=
    hflagged.willTopic.trans hflagged.willMessage.symm
  have hlogin : pass.isSome → user.isSome := by
    intro hpass
    have hboth := hflagged.pass.trans hhasPass
    rw [show pass.isSome = true from hpass, Bool.and_true] at hboth
    exact hboth.symm
  refine ⟨(connectSize_strings hrange hwill hlogin).1 ?_, hwill, hlogin⟩
  rw [List.length_append, hvalue] at hlength
  exact hlength.symm

end encodes

end World

/-- **What a CONNECT encodes.**  In a state in which no body is pending, a CONNECT that is handed
over has been written inside its array and is read by the rules of MQTT 3.1.1 as exactly what was
given, if and only if nothing is handed over or what was given is well given: no string is empty,
a will has a topic and a message, and a password has a user. -/
theorem encodes_iff {κ : Type} (d : Downstream κ) (w : World κ) (cleanSession : Bool)
    (keepaliveSeconds : UInt8) (id willTopic willMessage user pass : Option (List UInt8))
    (hpending : w.handler.pendingSendDataLen = 0)
    (hrange : World.InRange id willTopic willMessage user pass) :
    World.Encodes d w cleanSession keepaliveSeconds id willTopic willMessage user pass ↔
      World.Refused id willTopic willMessage user pass ∨
        World.WellGiven id willTopic willMessage user pass := by
  by_cases hrefused : World.Refused id willTopic willMessage user pass
  · have hresult := World.sendConnect_refused (d := d) cleanSession keepaliveSeconds hpending hrange
      hrefused
    exact ⟨fun _ => .inl hrefused, fun _ => ⟨false, w, hresult, .inl rfl⟩⟩
  · constructor
    · intro h
      exact .inr (World.wellGiven_of_read hpending hrange hrefused h)
    · intro h
      exact World.sendConnect_read hpending hrange hrefused (h.resolve_left hrefused)

/-- A client id, a will and a user without a password. -/
theorem encodes_iff_example :
    World.Encodes quiet ⟨zeroed, (), []⟩ true 60 (some [1]) (some [2]) (some [3, 4]) (some [5])
      none := by
  have hrange : World.InRange (some [1]) (some [2]) (some [3, 4]) (some [5]) none := by
    intro t ht
    simp only [List.mem_cons, Option.some.injEq, List.not_mem_nil, reduceCtorEq, or_false] at ht
    rcases ht with rfl | rfl | rfl | rfl <;> decide
  refine (encodes_iff quiet ⟨zeroed, (), []⟩ true 60 (some [1]) (some [2]) (some [3, 4]) (some [5])
    none rfl hrange).2 (.inr ⟨?_, rfl, ?_⟩)
  · decide
  · decide

/-- A user without characters is flagged and written, but not counted: the remaining length is two
too small. -/
theorem empty_user_not_encoded :
    ¬ World.Encodes quiet ⟨zeroed, (), []⟩ true 60 (some [1]) none none (some []) none := by
  rintro ⟨ok, w', hresult, h⟩
  have hpacket : w'.handed = [[0x10, 13, 0, 4, 77, 81, 84, 84, 4, 0x82, 0, 60, 0, 1, 1, 0, 0]] := by
    cases hresult
    rfl
  rw [hpacket] at h
  rcases h with h | ⟨packet, clientId, h, -, hread⟩
  · cases h
  · obtain rfl : _ = packet := (List.cons.inj h).1
    have hnone : readConnect
        [0x10, 13, 0, 4, 77, 81, 84, 84, 4, 0x82, 0, 60, 0, 1, 1, 0, 0] = none := by decide
    rw [hnone] at hread
    cases hread

end Mqtt
