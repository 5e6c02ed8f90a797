import CaveHome.Lib.Decoder
import Mathlib.Tactic.Ring

/-!
# Data representations of the wire

The primitive types of MQTT 5.0 and the errors of its codec: integers in network order, the variable
byte integer, text and binary data with a two-byte length.  Each pair of functions is a `Codec`.
-/

namespace CaveHome.Mqtt

/-- The errors of the codec. -/
inductive Error
  | underflow (needed : Nat)
  | varIntTooLong
  | badUtf8
  | unknownProperty (id : UInt8)
  | duplicateProperty (id : UInt8)
  | zeroSubscriptionId
  | malformed (reason : String)
  | badReasonCode (packet : String) (code : UInt8)
  | badProtocolLevel (level : UInt8)
  | badQoS (qos : UInt8)
  | badProtocolName (name : String)
  deriving DecidableEq

/-- Quality of service levels. -/
inductive QoS
  | atMostOnce
  | atLeastOnce
  | exactlyOnce
  deriving DecidableEq

namespace QoS

def toU8 : QoS → UInt8
  | atMostOnce => 0
  | atLeastOnce => 1
  | exactlyOnce => 2

def fromU8 (b : UInt8) : Option QoS :=
  match b with
  | 0 => some atMostOnce
  | 1 => some atLeastOnce
  | 2 => some exactlyOnce
  | _ => none

end QoS

/-! ## Encoders and decoders -/

abbrev Encoded := Except Error Bytes

abbrev Decode := Decoder Error

def getU8 : Decode UInt8
  | [] => .error (.underflow 1)
  | b :: rest => .ok (b, rest)

def getU16 : Decode UInt16
  | a :: b :: rest => .ok (UInt16.ofNat (a.toNat * 256 + b.toNat), rest)
  | buf => .error (.underflow (2 - buf.length))

def getU32 : Decode UInt32
  | a :: b :: c :: d :: rest =>
    .ok (UInt32.ofNat (((a.toNat * 256 + b.toNat) * 256 + c.toNat) * 256 + d.toNat), rest)
  | buf => .error (.underflow (4 - buf.length))

/-- Read at most `left` bytes of a variable byte integer, the least significant first.  The value
has at most 28 bits, so it does not overflow. -/
def varIntLoop : Nat → Bytes → Nat → Nat → Nat → Option (Nat × Nat)
  | 0, _, _, _, _ => none
  | _ + 1, [], _, _, _ => none
  | left + 1, byte :: input, value, multiplier, i =>
    let value := value + byte.toNat % 128 * multiplier
    if byte.toNat < 128 then some (value, i + 1)
    else varIntLoop left input value (multiplier * 128) (i + 1)

/-- The value of a variable byte integer and how many bytes it takes. -/
def decodeVarInt (input : Bytes) : Except Error (UInt32 × Nat) :=
  match varIntLoop 4 input 0 1 0 with
  | some (value, used) => .ok (UInt32.ofNat value, used)
  | none =>
    if input.length < 4 then .error (.underflow (4 - input.length)) else .error .varIntTooLong

def getVarInt : Decode UInt32 := fun buf =>
  match decodeVarInt buf with
  | .error e => .error e
  | .ok (value, consumed) => .ok (value, buf.drop consumed)

/-- Take `len` bytes. -/
def getRaw (len : Nat) : Decode Bytes := fun buf =>
  if buf.length < len then .error (.underflow (len - buf.length))
  else .ok (buf.take len, buf.drop len)

/-- Text with a two-byte length. -/
def getString : Decode String := do
  let len ← getU16
  let raw ← getRaw len.toNat
  Decoder.fromOption .badUtf8 (Bytes.toString? raw)

/-- Bytes with a two-byte length. -/
def getBinary : Decode Bytes := do
  let len ← getU16
  getRaw len.toNat

def putU8 (v : UInt8) : Bytes := [v]

def putU16 (v : UInt16) : Bytes := [UInt8.ofNat (v.toNat / 256), UInt8.ofNat (v.toNat % 256)]

def putU32 (v : UInt32) : Bytes :=
  [UInt8.ofNat (v.toNat / 2 ^ 24), UInt8.ofNat (v.toNat / 2 ^ 16 % 256),
    UInt8.ofNat (v.toNat / 2 ^ 8 % 256), UInt8.ofNat (v.toNat % 256)]

/-- Write at most `left` more bytes of a variable byte integer; all but the last have the
continuation bit. -/
def encodeVarIntLoop : Nat → Nat → Encoded
  | 0, _ => .error .varIntTooLong
  | left + 1, x =>
    if x / 128 = 0 then .ok [UInt8.ofNat (x % 128)]
    else do
      let bs ← encodeVarIntLoop left (x / 128)
      return UInt8.ofNat (x % 128 + 128) :: bs

def encodeVarInt (value : UInt32) : Encoded := encodeVarIntLoop 4 value.toNat

def putVarInt (v : UInt32) : Encoded := encodeVarInt v

/-- A length as a variable byte integer. -/
def putLength (len : Nat) : Encoded :=
  if len < 2 ^ 32 then putVarInt (UInt32.ofNat len) else .error .varIntTooLong

def putBinaryOr (tooLong : String) (b : Bytes) : Encoded :=
  if b.length < 2 ^ 16 then .ok (putU16 (UInt16.ofNat b.length) ++ b)
  else .error (.malformed tooLong)

def putString (s : String) : Encoded :=
  putBinaryOr "string exceeds 65535 bytes" (Bytes.ofString s)

def putBinary (b : Bytes) : Encoded := putBinaryOr "binary exceeds 65535 bytes" b

/-! ## Integers -/

theorem codec_u8 : Codec (fun v => .ok (putU8 v)) getU8 fun _ => True where
  decode_encode _ he rest := by
    obtain rfl := Except.ok.inj he
    rfl
  encode_decode {buf a rest} hd := by
    cases buf with
    | nil => cases hd
    | cons b buf =>
      obtain ⟨rfl, rfl⟩ := Prod.mk.inj (Except.ok.inj hd)
      exact ⟨trivial, _, rfl, by simp [putU8, Nat.add_comm]⟩

theorem consumes_u8 : Decoder.Consumes getU8 := by
  intro buf a rest hd
  cases buf with
  | nil => cases hd
  | cons b buf =>
    obtain ⟨rfl, rfl⟩ := Prod.mk.inj (Except.ok.inj hd)
    simp

theorem codec_u16 : Codec (fun v => .ok (putU16 v)) getU16 fun _ => True where
  decode_encode {v b} _ he rest := by
    obtain rfl := Except.ok.inj he
    have hv := v.toNat_lt
    have : UInt16.ofNat (v.toNat / 256 % 256 * 256 + v.toNat % 256) = v := by
      rw [show v.toNat / 256 % 256 * 256 + v.toNat % 256 = v.toNat by omega, UInt16.ofNat_toNat]
    simp [putU16, getU16, this]
  encode_decode {buf a rest} hd := by
    obtain _ | ⟨x, _ | ⟨y, buf⟩⟩ := buf
    · cases hd
    · cases hd
    · obtain ⟨rfl, rfl⟩ := Prod.mk.inj (Except.ok.inj hd)
      exact ⟨trivial, _, rfl, by simp [putU16]; omega⟩

theorem codec_u32 : Codec (fun v => .ok (putU32 v)) getU32 fun _ => True where
  decode_encode {v b} _ he rest := by
    obtain rfl := Except.ok.inj he
    have hv := v.toNat_lt
    have : UInt32.ofNat (((v.toNat / 2 ^ 24 % 256 * 256 + v.toNat / 2 ^ 16 % 256) * 256 +
        v.toNat / 2 ^ 8 % 256) * 256 + v.toNat % 256) = v := by
      rw [show ((v.toNat / 2 ^ 24 % 256 * 256 + v.toNat / 2 ^ 16 % 256) * 256 +
        v.toNat / 2 ^ 8 % 256) * 256 + v.toNat % 256 = v.toNat by omega, UInt32.ofNat_toNat]
    simp only [putU32, getU32, List.cons_append, List.nil_append, UInt8.toNat_ofNat',
      Nat.reducePow, Nat.mod_mod]
    simpa using this
  encode_decode {buf a rest} hd := by
    match buf with
    | [] => cases hd
    | [_] => cases hd
    | [_, _] => cases hd
    | [_, _, _] => cases hd
    | w :: x :: y :: z :: buf =>
      obtain ⟨rfl, rfl⟩ := Prod.mk.inj (Except.ok.inj hd)
      exact ⟨trivial, _, rfl, by simp [putU32]; omega⟩

/-! ## The variable byte integer -/

theorem varIntLoop_encode {left x : Nat} {b : Bytes} (h : encodeVarIntLoop left x = .ok b)
    (rest : Bytes) (value multiplier i : Nat) :
    varIntLoop left (b ++ rest) value multiplier i =
      some (value + x * multiplier, i + b.length) := by
  induction left generalizing x b value multiplier i with
  | zero => cases h
  | succ left ih =>
    rw [encodeVarIntLoop] at h
    split_ifs at h with hx
    · obtain rfl := Except.ok.inj h
      have hlt : x < 128 := by omega
      simp [varIntLoop, Nat.mod_eq_of_lt (show x < 256 by omega), Nat.mod_eq_of_lt hlt, hlt]
    · obtain ⟨bs, hbs, h⟩ := Except.bind_eq_ok_iff.1 h
      obtain rfl := Except.pure_eq_ok_iff.1 h
      have hbyte : (UInt8.ofNat (x % 128 + 128)).toNat = x % 128 + 128 := by
        rw [UInt8.toNat_ofNat']
        omega
      have hvalue : value + x % 128 * multiplier + x / 128 * (multiplier * 128) =
          value + x * multiplier := by
        conv_rhs => rw [← Nat.div_add_mod x 128]
        ring
      simp only [varIntLoop, List.cons_append, hbyte, List.length_cons]
      rw [if_neg (by omega), ih hbs, Nat.add_mod_right, Nat.mod_mod, hvalue]
      congr 2
      omega

theorem varIntLoop_eq_some {left : Nat} {input : Bytes} {value multiplier i v n : Nat}
    (h : varIntLoop left input value multiplier i = some (v, n)) :
    ∃ x k, v = value + x * multiplier ∧ n = i + k ∧ 0 < k ∧ k ≤ left ∧ k ≤ input.length ∧
      x < 128 ^ k := by
  induction left generalizing input value multiplier i with
  | zero => cases h
  | succ left ih =>
    cases input with
    | nil => cases h
    | cons byte input =>
      have hmod : byte.toNat % 128 < 128 := Nat.mod_lt _ (by decide)
      simp only [varIntLoop] at h
      split_ifs at h with hb
      · obtain ⟨rfl, rfl⟩ := Prod.mk.inj (Option.some.inj h)
        exact ⟨byte.toNat % 128, 1, rfl, rfl, Nat.one_pos, by omega, by simp, by simpa using hmod⟩
      · obtain ⟨x, k, rfl, rfl, hk, hkl, hki, hx⟩ := ih h
        refine ⟨byte.toNat % 128 + 128 * x, k + 1, ?_, by omega, by omega, by omega, by simpa, ?_⟩
        · ring
        · rw [pow_succ]
          omega

theorem encodeVarIntLoop_of_lt {left k x : Nat} (hk : 0 < k) (hle : k ≤ left) (hx : x < 128 ^ k) :
    ∃ b, encodeVarIntLoop left x = .ok b ∧ b.length ≤ k := by
  induction k generalizing left x with
  | zero => exact absurd hk (Nat.lt_irrefl 0)
  | succ k ih =>
    obtain ⟨left, rfl⟩ : ∃ m, left = m + 1 := ⟨left - 1, by omega⟩
    rw [encodeVarIntLoop]
    split_ifs with h
    · exact ⟨_, rfl, by simp⟩
    · rw [pow_succ] at hx
      have hk : 0 < k := by
        by_contra hk
        obtain rfl : k = 0 := by omega
        omega
      have hdiv : x / 128 < 128 ^ k := by omega
      have hleft : k ≤ left := by omega
      obtain ⟨b, hb, hlen⟩ := ih hk hleft hdiv
      rw [hb]
      exact ⟨_, rfl, by simpa using hlen⟩

theorem decodeVarInt_encode {v : UInt32} {b : Bytes} (h : encodeVarInt v = .ok b) (rest : Bytes) :
    decodeVarInt (b ++ rest) = .ok (v, b.length) := by
  simp [decodeVarInt, varIntLoop_encode h rest 0 1 0]

theorem decodeVarInt_eq_ok {input : Bytes} {v : UInt32} {n : Nat}
    (h : decodeVarInt input = .ok (v, n)) :
    0 < n ∧ n ≤ 4 ∧ n ≤ input.length ∧ v.toNat < 128 ^ n := by
  unfold decodeVarInt at h
  split at h
  · rename_i value used hloop
    obtain ⟨rfl, rfl⟩ := Prod.mk.inj (Except.ok.inj h)
    obtain ⟨x, k, rfl, rfl, hk, hk4, hki, hx⟩ := varIntLoop_eq_some hloop
    refine ⟨by omega, by omega, by omega, ?_⟩
    have hbound : 128 ^ k ≤ 128 ^ 4 := Nat.pow_le_pow_right (by decide) hk4
    rw [UInt32.toNat_ofNat', Nat.mod_eq_of_lt (by omega)]
    simpa using hx
  · split_ifs at h

theorem codec_varInt : Codec putVarInt getVarInt fun _ => True where
  decode_encode _ he rest := by
    simp [getVarInt, decodeVarInt_encode he rest]
  encode_decode {buf v rest} hd := by
    unfold getVarInt at hd
    split at hd
    · cases hd
    · rename_i value n hn
      obtain ⟨rfl, rfl⟩ := Prod.mk.inj (Except.ok.inj hd)
      obtain ⟨hpos, h4, hlen, hlt⟩ := decodeVarInt_eq_ok hn
      obtain ⟨b, hb, hble⟩ := encodeVarIntLoop_of_lt hpos h4 hlt
      refine ⟨trivial, b, hb, ?_⟩
      rw [List.length_drop]
      omega

theorem consumes_varInt : Decoder.Consumes getVarInt := by
  intro buf v rest hd
  unfold getVarInt at hd
  split at hd
  · cases hd
  · rename_i value n hn
    obtain ⟨rfl, rfl⟩ := Prod.mk.inj (Except.ok.inj hd)
    obtain ⟨hpos, -, hlen, -⟩ := decodeVarInt_eq_ok hn
    rw [List.length_drop]
    omega

theorem getVarInt_of_lt {b : UInt8} (h : b.toNat < 128) (rest : Bytes) :
    getVarInt (b :: rest) = .ok (UInt32.ofNat b.toNat, rest) := by
  simp [getVarInt, decodeVarInt, varIntLoop, h, Nat.mod_eq_of_lt h]

theorem decodeVarInt_putLength {len : Nat} {b : Bytes} (h : putLength len = .ok b)
    (rest : Bytes) : ∃ v : UInt32, decodeVarInt (b ++ rest) = .ok (v, b.length) ∧ v.toNat = len := by
  unfold putLength at h
  split_ifs at h with hlen
  refine ⟨_, decodeVarInt_encode h rest, ?_⟩
  rw [UInt32.toNat_ofNat', Nat.mod_eq_of_lt hlen]

theorem getVarInt_putLength {len : Nat} {b : Bytes} (h : putLength len = .ok b) (rest : Bytes) :
    ∃ v : UInt32, getVarInt (b ++ rest) = .ok (v, rest) ∧ v.toNat = len := by
  obtain ⟨v, hv, hlen⟩ := decodeVarInt_putLength h rest
  exact ⟨v, by simp [getVarInt, hv], hlen⟩

theorem putLength_of_lt {len k : Nat} (hk : 0 < k) (h4 : k ≤ 4) (h : len < 128 ^ k) :
    ∃ b, putLength len = .ok b ∧ b.length ≤ k := by
  have hpow : 128 ^ k ≤ 128 ^ 4 := Nat.pow_le_pow_right (by decide) h4
  have hsmall : len < 2 ^ 32 := by omega
  have hnat : (UInt32.ofNat len).toNat = len := by
    rw [UInt32.toNat_ofNat', Nat.mod_eq_of_lt hsmall]
  rw [putLength, if_pos hsmall, putVarInt, encodeVarInt, hnat]
  exact encodeVarIntLoop_of_lt hk h4 h

theorem putLength_of_getVarInt {buf rest : Bytes} {v : UInt32} (h : getVarInt buf = .ok (v, rest))
    {len : Nat} (hlen : len ≤ v.toNat) :
    ∃ b, putLength len = .ok b ∧ b.length + rest.length ≤ buf.length := by
  unfold getVarInt at h
  split at h
  · cases h
  · rename_i value n hn
    obtain ⟨rfl, rfl⟩ := Prod.mk.inj (Except.ok.inj h)
    obtain ⟨hpos, h4, hn', hlt⟩ := decodeVarInt_eq_ok hn
    obtain ⟨b, hb, hble⟩ := putLength_of_lt hpos h4 (hlen.trans_lt hlt)
    refine ⟨b, hb, ?_⟩
    rw [List.length_drop]
    omega

/-! ## Text and binary data -/

theorem getRaw_append (raw rest : Bytes) :
    getRaw raw.length (raw ++ rest) = .ok (raw, rest) := by
  simp [getRaw]

theorem getRaw_eq_ok {len : Nat} {buf raw rest : Bytes} (h : getRaw len buf = .ok (raw, rest)) :
    raw.length = len ∧ buf = raw ++ rest := by
  unfold getRaw at h
  split_ifs at h with hlen
  obtain ⟨rfl, rfl⟩ := Prod.mk.inj (Except.ok.inj h)
  exact ⟨by rw [List.length_take]; omega, (List.take_append_drop len buf).symm⟩

theorem getBinary_putBinaryOr {tooLong : String} {raw b : Bytes}
    (h : putBinaryOr tooLong raw = .ok b) (rest : Bytes) :
    getBinary (b ++ rest) = .ok (raw, rest) := by
  unfold putBinaryOr at h
  split_ifs at h with hlen
  obtain rfl := Except.ok.inj h
  have hnat : (UInt16.ofNat raw.length).toNat = raw.length := by
    rw [UInt16.toNat_ofNat', Nat.mod_eq_of_lt hlen]
  rw [List.append_assoc, getBinary,
    Decoder.bind_of_ok (codec_u16.decode_encode trivial rfl (raw ++ rest)), hnat]
  exact getRaw_append raw rest

theorem putBinaryOr_getBinary (tooLong : String) {buf raw rest : Bytes}
    (h : getBinary buf = .ok (raw, rest)) :
    ∃ b, putBinaryOr tooLong raw = .ok b ∧ b.length + rest.length ≤ buf.length := by
  obtain ⟨len, mid, hlen, hraw⟩ := Decoder.bind_eq_ok_iff.1 h
  obtain ⟨hl, rfl⟩ := getRaw_eq_ok hraw
  obtain ⟨-, b, hb, hle⟩ := codec_u16.encode_decode hlen
  obtain rfl := Except.ok.inj hb
  have hlt : raw.length < 2 ^ 16 := hl ▸ len.toNat_lt
  refine ⟨_, if_pos hlt, ?_⟩
  simp only [List.length_append, putU16, List.length_cons, List.length_nil] at hle ⊢
  omega

theorem codec_binary : Codec putBinary getBinary fun _ => True where
  decode_encode _ he rest := getBinary_putBinaryOr he rest
  encode_decode hd := ⟨trivial, putBinaryOr_getBinary _ hd⟩

theorem getString_eq : getString = getBinary >>= fun raw =>
    Decoder.fromOption .badUtf8 (Bytes.toString? raw) := by
  unfold getString getBinary
  rw [bind_assoc]

theorem codec_string : Codec putString getString fun _ => True where
  decode_encode {s b} _ he rest := by
    rw [getString_eq, Decoder.bind_of_ok (getBinary_putBinaryOr he rest),
      Bytes.toString?_ofString]
    rfl
  encode_decode {buf s rest} hd := by
    rw [getString_eq] at hd
    obtain ⟨raw, mid, hraw, ho⟩ := Decoder.bind_eq_ok_iff.1 hd
    obtain ⟨hs, rfl⟩ := Decoder.fromOption_eq_ok_iff.1 ho
    rw [Bytes.toString?_eq_some_iff] at hs
    subst hs
    exact ⟨trivial, putBinaryOr_getBinary _ hraw⟩

theorem consumes_binary : Decoder.Consumes getBinary := by
  intro buf raw rest hd
  obtain ⟨b, hb, hle⟩ := putBinaryOr_getBinary "" hd
  unfold putBinaryOr at hb
  split_ifs at hb
  obtain rfl := Except.ok.inj hb
  simp only [List.length_append, putU16, List.length_cons, List.length_nil] at hle
  omega

theorem consumes_string : Decoder.Consumes getString := by
  intro buf s rest hd
  rw [getString_eq] at hd
  obtain ⟨raw, mid, hraw, hs⟩ := Decoder.bind_eq_ok_iff.1 hd
  obtain ⟨-, rfl⟩ := Decoder.fromOption_eq_ok_iff.1 hs
  exact consumes_binary hraw

end CaveHome.Mqtt
