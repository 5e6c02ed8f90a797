import CaveHome.Mqtt.Wire

/-!
# Properties

A property block is a length, then properties one after the other, each an identifier and a value
whose type the identifier fixes.  Most identifiers appear at most once in a block.
-/

namespace CaveHome.Mqtt

/-- A property of a control packet. -/
inductive Property
  | payloadFormatIndicator (v : UInt8)
  | messageExpiryInterval (v : UInt32)
  | contentType (s : String)
  | responseTopic (s : String)
  | correlationData (b : Bytes)
  | subscriptionIdentifier (v : UInt32)
  | sessionExpiryInterval (v : UInt32)
  | assignedClientIdentifier (s : String)
  | serverKeepAlive (v : UInt16)
  | authenticationMethod (s : String)
  | authenticationData (b : Bytes)
  | requestProblemInformation (v : UInt8)
  | willDelayInterval (v : UInt32)
  | requestResponseInformation (v : UInt8)
  | responseInformation (s : String)
  | serverReference (s : String)
  | reasonString (s : String)
  | receiveMaximum (v : UInt16)
  | topicAliasMaximum (v : UInt16)
  | topicAlias (v : UInt16)
  | maximumQoS (v : UInt8)
  | retainAvailable (v : UInt8)
  | userProperty (k v : String)
  | maximumPacketSize (v : UInt32)
  | wildcardSubscriptionAvailable (v : UInt8)
  | subscriptionIdentifierAvailable (v : UInt8)
  | sharedSubscriptionAvailable (v : UInt8)
  deriving DecidableEq

namespace Property

/-- The identifier on the wire. -/
def identifier : Property → UInt8
  | payloadFormatIndicator _ => 0x01
  | messageExpiryInterval _ => 0x02
  | contentType _ => 0x03
  | responseTopic _ => 0x08
  | correlationData _ => 0x09
  | subscriptionIdentifier _ => 0x0B
  | sessionExpiryInterval _ => 0x11
  | assignedClientIdentifier _ => 0x12
  | serverKeepAlive _ => 0x13
  | authenticationMethod _ => 0x15
  | authenticationData _ => 0x16
  | requestProblemInformation _ => 0x17
  | willDelayInterval _ => 0x18
  | requestResponseInformation _ => 0x19
  | responseInformation _ => 0x1A
  | serverReference _ => 0x1C
  | reasonString _ => 0x1F
  | receiveMaximum _ => 0x21
  | topicAliasMaximum _ => 0x22
  | topicAlias _ => 0x23
  | maximumQoS _ => 0x24
  | retainAvailable _ => 0x25
  | userProperty _ _ => 0x26
  | maximumPacketSize _ => 0x27
  | wildcardSubscriptionAvailable _ => 0x28
  | subscriptionIdentifierAvailable _ => 0x29
  | sharedSubscriptionAvailable _ => 0x2A

/-- Only the user property and the subscription identifier may repeat. -/
def repeatable (id : UInt8) : Bool := id = 0x26 || id = 0x0B

def encodeValue : Property → Encoded
  | payloadFormatIndicator v | requestProblemInformation v | requestResponseInformation v
  | maximumQoS v | retainAvailable v | wildcardSubscriptionAvailable v
  | subscriptionIdentifierAvailable v | sharedSubscriptionAvailable v => .ok (putU8 v)
  | serverKeepAlive v | receiveMaximum v | topicAliasMaximum v | topicAlias v => .ok (putU16 v)
  | messageExpiryInterval v | sessionExpiryInterval v | willDelayInterval v
  | maximumPacketSize v => .ok (putU32 v)
  | subscriptionIdentifier v => putVarInt v
  | contentType s | responseTopic s | assignedClientIdentifier s | authenticationMethod s
  | responseInformation s | serverReference s | reasonString s => putString s
  | correlationData b | authenticationData b => putBinary b
  | userProperty k v => do
    let kb ← putString k
    let vb ← putString v
    return kb ++ vb

def decodeValue (id : UInt8) : Decode Property :=
  match id with
  | 0x01 => payloadFormatIndicator <$> getU8
  | 0x02 => messageExpiryInterval <$> getU32
  | 0x03 => contentType <$> getString
  | 0x08 => responseTopic <$> getString
  | 0x09 => correlationData <$> getBinary
  | 0x0B => do
    let v ← getVarInt
    Decoder.require (v ≠ 0) .zeroSubscriptionId
    return subscriptionIdentifier v
  | 0x11 => sessionExpiryInterval <$> getU32
  | 0x12 => assignedClientIdentifier <$> getString
  | 0x13 => serverKeepAlive <$> getU16
  | 0x15 => authenticationMethod <$> getString
  | 0x16 => authenticationData <$> getBinary
  | 0x17 => requestProblemInformation <$> getU8
  | 0x18 => willDelayInterval <$> getU32
  | 0x19 => requestResponseInformation <$> getU8
  | 0x1A => responseInformation <$> getString
  | 0x1C => serverReference <$> getString
  | 0x1F => reasonString <$> getString
  | 0x21 => receiveMaximum <$> getU16
  | 0x22 => topicAliasMaximum <$> getU16
  | 0x23 => topicAlias <$> getU16
  | 0x24 => maximumQoS <$> getU8
  | 0x25 => retainAvailable <$> getU8
  | 0x26 => do
    let k ← getString
    let v ← getString
    return userProperty k v
  | 0x27 => maximumPacketSize <$> getU32
  | 0x28 => wildcardSubscriptionAvailable <$> getU8
  | 0x29 => subscriptionIdentifierAvailable <$> getU8
  | 0x2A => sharedSubscriptionAvailable <$> getU8
  | other => throw (.unknownProperty other)

/-- Identifier and value. -/
def encode (p : Property) : Encoded := do
  let value ← p.encodeValue
  return putU8 p.identifier ++ value

/-- One property of a block.  The identifiers seen so far are kept for those that may not repeat;
the source's table of flags has room for the assigned identifiers only. -/
def decodeNext (seen : List UInt8) : Decode (Property × List UInt8) := do
  let n ← getVarInt
  Decoder.require (n.toNat < 256) (.unknownProperty 0xff)
  let id := n.toUInt8
  let tracked := !repeatable id && decide (id < 0x2B)
  Decoder.require ((tracked && seen.contains id) = false) (.duplicateProperty id)
  let p ← decodeValue id
  return (p, if tracked then id :: seen else seen)

end Property

/-- Encode a property block. -/
def encodeProperties (props : List Property) : Encoded := do
  let body ← encodeAll Property.encode props
  let len ← putLength body.length
  return len ++ body

/-- Decode a property block. -/
def decodeProperties : Decode (List Property) := do
  let len ← getVarInt
  let block ← getRaw len.toNat
  match Decoder.untilEmpty Property.decodeNext [] block with
  | .error e => throw e
  | .ok (props, _) => return props

/-! ## Values -/

namespace Property

open Decoder

/-- The subscription identifier is not zero. -/
def NonzeroId (p : Property) : Prop := p ≠ subscriptionIdentifier 0

theorem decodeValue_encodeValue {p : Property} (hp : p.NonzeroId) {b : Bytes}
    (he : p.encodeValue = .ok b) (rest : Bytes) :
    decodeValue p.identifier (b ++ rest) = .ok (p, rest) := by
  cases p with
  | payloadFormatIndicator v | requestProblemInformation v | requestResponseInformation v
  | maximumQoS v | retainAvailable v | wildcardSubscriptionAvailable v
  | subscriptionIdentifierAvailable v | sharedSubscriptionAvailable v =>
    exact map_of_ok (codec_u8.decode_encode trivial he rest)
  | serverKeepAlive v | receiveMaximum v | topicAliasMaximum v | topicAlias v =>
    exact map_of_ok (codec_u16.decode_encode trivial he rest)
  | messageExpiryInterval v | sessionExpiryInterval v | willDelayInterval v
  | maximumPacketSize v =>
    exact map_of_ok (codec_u32.decode_encode trivial he rest)
  | contentType s | responseTopic s | assignedClientIdentifier s | authenticationMethod s
  | responseInformation s | serverReference s | reasonString s =>
    exact map_of_ok (codec_string.decode_encode trivial he rest)
  | correlationData v | authenticationData v =>
    exact map_of_ok (codec_binary.decode_encode trivial he rest)
  | subscriptionIdentifier v =>
    have hv : v ≠ 0 := fun h => hp (h ▸ rfl)
    refine (bind_of_ok (codec_varInt.decode_encode trivial he rest)).trans ?_
    rw [require_bind_of hv]
    rfl
  | userProperty k v =>
    obtain ⟨kb, hk, he⟩ := Except.bind_eq_ok_iff.1 he
    obtain ⟨vb, hv, he⟩ := Except.bind_eq_ok_iff.1 he
    obtain rfl := Except.pure_eq_ok_iff.1 he
    rw [List.append_assoc]
    refine (bind_of_ok (codec_string.decode_encode trivial hk (vb ++ rest))).trans ?_
    exact bind_of_ok (codec_string.decode_encode trivial hv rest)

/-- What a decoded value says about its encoding. -/
def Reencodes (id : UInt8) (buf : Bytes) (p : Property) (rest : Bytes) : Prop :=
  p.identifier = id ∧ p.NonzeroId ∧
    ∃ b, p.encodeValue = .ok b ∧ b.length + rest.length ≤ buf.length

theorem reencodes_of_map {α : Type} {enc : α → Encoded} {dec : Decode α} {P : α → Prop}
    (hc : Codec enc dec P) {mk : α → Property} {buf rest : Bytes} {p : Property}
    (h : (mk <$> dec) buf = .ok (p, rest)) {id : UInt8} (hid : ∀ a, (mk a).identifier = id)
    (hval : ∀ a, (mk a).encodeValue = enc a) (hnz : ∀ a, (mk a).NonzeroId) :
    Reencodes id buf p rest := by
  obtain ⟨a, ha, rfl⟩ := map_eq_ok_iff.1 h
  obtain ⟨-, b, hb, hle⟩ := hc.encode_decode ha
  exact ⟨hid a, hnz a, b, (hval a).trans hb, hle⟩

theorem encodeValue_decodeValue {id : UInt8} {buf rest : Bytes} {p : Property}
    (h : decodeValue id buf = .ok (p, rest)) : Reencodes id buf p rest := by
  unfold decodeValue at h
  split at h
  case h_6 =>
    obtain ⟨v, mid, hv, h⟩ := bind_eq_ok_iff.1 h
    obtain ⟨h0, h⟩ := require_bind_eq_ok_iff.1 h
    obtain ⟨rfl, rfl⟩ := Prod.mk.inj (Except.ok.inj h)
    obtain ⟨-, b, hb, hle⟩ := codec_varInt.encode_decode hv
    exact ⟨rfl, fun hz => h0 (subscriptionIdentifier.inj hz), b, hb, hle⟩
  case h_23 =>
    obtain ⟨k, mid, hk, h⟩ := bind_eq_ok_iff.1 h
    obtain ⟨v, mid', hv, h⟩ := bind_eq_ok_iff.1 h
    obtain ⟨rfl, rfl⟩ := Prod.mk.inj (Except.ok.inj h)
    obtain ⟨-, kb, hkb, hkle⟩ := codec_string.encode_decode hk
    obtain ⟨-, vb, hvb, hvle⟩ := codec_string.encode_decode hv
    refine ⟨rfl, nofun, kb ++ vb, ?_, ?_⟩
    · simp [encodeValue, hkb, hvb, bind, Except.bind, pure, Except.pure]
    · rw [List.length_append]
      omega
  case h_28 => cases h
  case h_1 | h_12 | h_14 | h_21 | h_22 | h_25 | h_26 | h_27 =>
    exact reencodes_of_map codec_u8 h (fun _ => rfl) (fun _ => rfl) (fun _ => nofun)
  case h_9 | h_18 | h_19 | h_20 =>
    exact reencodes_of_map codec_u16 h (fun _ => rfl) (fun _ => rfl) (fun _ => nofun)
  case h_2 | h_7 | h_13 | h_24 =>
    exact reencodes_of_map codec_u32 h (fun _ => rfl) (fun _ => rfl) (fun _ => nofun)
  case h_5 | h_11 =>
    exact reencodes_of_map codec_binary h (fun _ => rfl) (fun _ => rfl) (fun _ => nofun)
  all_goals
    exact reencodes_of_map codec_string h (fun _ => rfl) (fun _ => rfl) (fun _ => nofun)

/-! ## Blocks -/

theorem identifier_lt (p : Property) : p.identifier < 0x2B := by
  cases p <;> exact of_decide_eq_true rfl

/-- What the loop requires of the next property. -/
def Admissible (seen : List UInt8) (p : Property) : Prop :=
  p.NonzeroId ∧ (repeatable p.identifier = false → p.identifier ∉ seen)

/-- The identifiers seen after a property. -/
def note (seen : List UInt8) (p : Property) : List UInt8 :=
  if repeatable p.identifier then seen else p.identifier :: seen

theorem decodeNext_of_getVarInt {buf mid : Bytes} {n : UInt32} (hn : getVarInt buf = .ok (n, mid))
    (seen : List UInt8) {p : Property} (hid : n.toNat = p.identifier.toNat)
    (hp : Admissible seen p) :
    decodeNext seen buf = ((fun q => (q, note seen p)) <$> decodeValue p.identifier) mid := by
  have hlt := p.identifier.toNat_lt
  have hu8 : n.toUInt8 = p.identifier := by
    apply UInt8.toNat_inj.1
    rw [UInt32.toNat_toUInt8, hid]
    omega
  have hdup : ((!repeatable n.toUInt8 && decide (n.toUInt8 < 0x2B)) &&
      seen.contains n.toUInt8) = false := by
    rw [hu8]
    cases hr : repeatable p.identifier with
    | true => simp
    | false => simpa [p.identifier_lt] using hp.2 hr
  have hsmall : n.toNat < 256 := by omega
  rw [decodeNext, bind_of_ok hn, require_bind_of hsmall, require_bind_of hdup, hu8]
  cases hr : repeatable p.identifier <;> simp [note, hr, p.identifier_lt]

theorem decodeNext_eq_ok {seen : List UInt8} {buf rest : Bytes} {p : Property}
    {seen' : List UInt8} (h : decodeNext seen buf = .ok ((p, seen'), rest)) :
    ∃ n mid, getVarInt buf = .ok (n, mid) ∧ decodeValue p.identifier mid = .ok (p, rest) ∧
      Admissible seen p ∧ seen' = note seen p := by
  obtain ⟨n, mid, hn, h⟩ := bind_eq_ok_iff.1 h
  obtain ⟨-, h⟩ := require_bind_eq_ok_iff.1 h
  obtain ⟨hdup, h⟩ := require_bind_eq_ok_iff.1 h
  obtain ⟨q, mid', hq, h⟩ := bind_eq_ok_iff.1 h
  obtain ⟨hpair, rfl⟩ := Prod.mk.inj (Except.ok.inj h)
  obtain ⟨rfl, rfl⟩ := Prod.mk.inj hpair
  obtain ⟨hid, hz, -⟩ := encodeValue_decodeValue hq
  rw [← hid] at hdup hq ⊢
  refine ⟨n, _, hn, hq, ⟨hz, fun hr hmem => ?_⟩, ?_⟩
  · simp [hr, q.identifier_lt, hmem] at hdup
  · cases hr : repeatable q.identifier <;> simp [note, hr, q.identifier_lt]

theorem step_decodeNext : Codec.Step encode decodeNext Admissible note where
  decode_encode {seen p b} hp he rest := by
    obtain ⟨value, hvalue, he⟩ := Except.bind_eq_ok_iff.1 he
    obtain rfl := Except.pure_eq_ok_iff.1 he
    have hlt : p.identifier.toNat < 43 := UInt8.lt_iff_toNat_lt.1 p.identifier_lt
    have hn := getVarInt_of_lt (show p.identifier.toNat < 128 by omega) (value ++ rest)
    have hnat : (UInt32.ofNat p.identifier.toNat).toNat = p.identifier.toNat := by
      rw [UInt32.toNat_ofNat']
      omega
    rw [List.append_assoc]
    refine (decodeNext_of_getVarInt hn seen hnat hp).trans ?_
    exact map_of_ok (decodeValue_encodeValue hp.1 hvalue rest)
  encode_decode {seen buf p seen' rest} hd := by
    obtain ⟨n, mid, hn, hval, hp, rfl⟩ := decodeNext_eq_ok hd
    obtain ⟨-, -, b, hb, hle⟩ := encodeValue_decodeValue hval
    have hlt := consumes_varInt hn
    refine ⟨hp, rfl, putU8 p.identifier ++ b, ?_, ?_⟩
    · simp [encode, hb, bind, Except.bind, pure, Except.pure]
    · simp only [List.length_append, putU8, List.length_cons, List.length_nil]
      omega
  consumes := by
    rintro seen buf ⟨p, seen'⟩ rest hd
    obtain ⟨n, mid, hn, hval, -, -⟩ := decodeNext_eq_ok hd
    obtain ⟨-, -, b, -, hle⟩ := encodeValue_decodeValue hval
    have hlt := consumes_varInt hn
    omega

end Property

/-- No property of the block repeats unless it may, and no subscription identifier is zero. -/
structure ValidProperties (props : List Property) : Prop where
  nonzero : ∀ p ∈ props, p.NonzeroId
  unrepeated : props.Pairwise fun p q =>
    p.identifier = q.identifier → Property.repeatable p.identifier = true

theorem along_admissible_iff {props : List Property} {seen : List UInt8} :
    Codec.Along Property.Admissible Property.note seen props ↔
      ValidProperties props ∧
        ∀ p ∈ props, Property.repeatable p.identifier = false → p.identifier ∉ seen := by
  induction props generalizing seen with
  | nil => exact ⟨fun _ => ⟨⟨nofun, .nil⟩, nofun⟩, fun _ => trivial⟩
  | cons p props ih =>
    rw [Codec.Along, ih]
    have hnote : (∀ q ∈ props, Property.repeatable q.identifier = false →
        q.identifier ∉ Property.note seen p) ↔
        (∀ q ∈ props, Property.repeatable q.identifier = false → q.identifier ∉ seen) ∧
          ∀ q ∈ props, p.identifier = q.identifier → Property.repeatable p.identifier = true := by
      unfold Property.note
      cases hr : Property.repeatable p.identifier with
      | true => simp
      | false =>
        simp only [Bool.false_eq_true, if_false, List.mem_cons, not_or, imp_false]
        constructor
        · intro h
          refine ⟨fun q hq hqr => (h q hq hqr).2, fun q hq hpq => ?_⟩
          exact (h q hq (hpq ▸ hr)).1 hpq.symm
        · rintro ⟨h₁, h₂⟩ q hq hqr
          exact ⟨fun hqp => h₂ q hq hqp.symm, h₁ q hq hqr⟩
    rw [hnote]
    constructor
    · rintro ⟨⟨hz, hs⟩, hv, hseen, hrep⟩
      exact ⟨⟨List.forall_mem_cons.2 ⟨hz, hv.nonzero⟩, List.pairwise_cons.2 ⟨hrep, hv.unrepeated⟩⟩,
        List.forall_mem_cons.2 ⟨hs, hseen⟩⟩
    · rintro ⟨⟨hz, hrep⟩, hseen⟩
      obtain ⟨hz, hzs⟩ := List.forall_mem_cons.1 hz
      obtain ⟨hrep, hreps⟩ := List.pairwise_cons.1 hrep
      obtain ⟨hs, hss⟩ := List.forall_mem_cons.1 hseen
      exact ⟨⟨hz, hs⟩, ⟨hzs, hreps⟩, hss, hrep⟩

theorem codec_properties : Codec encodeProperties decodeProperties ValidProperties where
  decode_encode {props b} hp he rest := by
    obtain ⟨body, hbody, he⟩ := Except.bind_eq_ok_iff.1 he
    obtain ⟨len, hlen, he⟩ := Except.bind_eq_ok_iff.1 he
    obtain rfl := Except.pure_eq_ok_iff.1 he
    obtain ⟨v, hv, hnat⟩ := getVarInt_putLength hlen (body ++ rest)
    have hrun := Property.step_decodeNext.untilEmpty_encodeAll
      (along_admissible_iff.2 ⟨hp, fun _ _ _ => List.not_mem_nil⟩) hbody
    rw [List.append_assoc, decodeProperties, Decoder.bind_of_ok hv, hnat,
      Decoder.bind_of_ok (getRaw_append body rest), hrun]
    rfl
  encode_decode {buf props rest} hd := by
    obtain ⟨v, mid, hv, hd₁⟩ := Decoder.bind_eq_ok_iff.1 hd
    obtain ⟨block, mid', hraw, hd₂⟩ := Decoder.bind_eq_ok_iff.1 hd₁
    obtain ⟨hlen, rfl⟩ := getRaw_eq_ok hraw
    cases hrun : Decoder.untilEmpty Property.decodeNext [] block with
    | error e =>
      rw [hrun] at hd₂
      cases hd₂
    | ok x =>
      rw [hrun] at hd₂
      obtain ⟨rfl, rfl⟩ := Prod.mk.inj (Except.ok.inj hd₂)
      obtain ⟨-, halong, body, hbody, hble⟩ := Property.step_decodeNext.encodeAll_untilEmpty hrun
      obtain ⟨len, hlen', hle⟩ := putLength_of_getVarInt hv (hlen ▸ hble)
      refine ⟨(along_admissible_iff.1 halong).1, len ++ body, ?_, ?_⟩
      · simp [encodeProperties, hbody, hlen', bind, Except.bind, pure, Except.pure]
      · simp only [List.length_append] at hle ⊢
        omega

end CaveHome.Mqtt
