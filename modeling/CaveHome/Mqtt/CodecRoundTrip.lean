import CaveHome.Mqtt.Codec

/-!
# Round trips of the packet codec

For every packet that obeys the rules of the decoder, decoding undoes encoding, whatever bytes
follow.  Every packet that is decoded obeys them, and can be encoded again: its canonical body is no
longer than the body it was decoded from, unless it is an acknowledgement of four bytes.
-/

namespace CaveHome.Mqtt

open Decoder

/-! ## Flag bytes -/

theorem connectFlags_bits (username password : Bool) (will : Option (QoS × Bool))
    (cleanStart : Bool) :
    connectFlags username password will cleanStart &&& 0x01 = 0 ∧
    decide (connectFlags username password will cleanStart &&& 0x80 ≠ 0) = username ∧
    decide (connectFlags username password will cleanStart &&& 0x40 ≠ 0) = password ∧
    decide (connectFlags username password will cleanStart &&& 0x02 ≠ 0) = cleanStart := by
  rcases will with _ | ⟨qos, retain⟩
  · cases username <;> cases password <;> cases cleanStart <;> decide
  · cases username <;> cases password <;> cases cleanStart <;> cases qos <;> cases retain <;> decide

theorem connectFlags_some (username password : Bool) (qos : QoS) (retain cleanStart : Bool) :
    connectFlags username password (some (qos, retain)) cleanStart &&& 0x04 ≠ 0 ∧
    (connectFlags username password (some (qos, retain)) cleanStart >>> 3) &&& 0x03 = qos.toU8 ∧
    decide (connectFlags username password (some (qos, retain)) cleanStart &&& 0x20 ≠ 0) =
      retain := by
  cases username <;> cases password <;> cases cleanStart <;> cases qos <;> cases retain <;> decide

theorem connectFlags_none (username password cleanStart : Bool) :
    connectFlags username password none cleanStart &&& 0x04 = 0 ∧
    (connectFlags username password none cleanStart >>> 3) &&& 0x03 = 0 ∧
    connectFlags username password none cleanStart &&& 0x20 = 0 := by
  cases username <;> cases password <;> cases cleanStart <;> decide

theorem publishFlags_bits (dup : Bool) (qos : QoS) (retain : Bool) :
    decide (publishFlags dup qos retain &&& 0x08 ≠ 0) = dup ∧
    (publishFlags dup qos retain >>> 1) &&& 0x03 = qos.toU8 ∧
    decide (publishFlags dup qos retain &&& 0x01 ≠ 0) = retain := by
  cases dup <;> cases qos <;> cases retain <;> decide

theorem subscriptionOptions_bits (qos : QoS) (noLocal retainAsPublished : Bool)
    (retainHandling : RetainHandling) :
    subscriptionOptions qos noLocal retainAsPublished retainHandling &&& 0xC0 = 0 ∧
    subscriptionOptions qos noLocal retainAsPublished retainHandling &&& 0x03 = qos.toU8 ∧
    RetainHandling.fromU8
      ((subscriptionOptions qos noLocal retainAsPublished retainHandling >>> 4) &&& 0x03) =
        some retainHandling ∧
    decide (subscriptionOptions qos noLocal retainAsPublished retainHandling &&& 0x04 ≠ 0) =
      noLocal ∧
    decide (subscriptionOptions qos noLocal retainAsPublished retainHandling &&& 0x08 ≠ 0) =
      retainAsPublished := by
  cases qos <;> cases noLocal <;> cases retainAsPublished <;> cases retainHandling <;> decide

/-! ## Parts of bodies -/

section Optional

variable {α : Type} {enc : α → Encoded} {dec : Decode α} {P : α → Prop}

theorem decodeIf_encodeOption (h : Codec enc dec P) {o : Option α} {b : Bytes}
    (hp : ∀ a ∈ o, P a) (he : encodeOption enc o = .ok b) (rest : Bytes) :
    decodeIf o.isSome dec (b ++ rest) = .ok (o, rest) := by
  cases o with
  | none =>
    obtain rfl := Except.ok.inj he
    rfl
  | some a => exact map_of_ok (h.decode_encode (hp a rfl) he rest)

theorem encodeOption_decodeIf (h : Codec enc dec P) {present : Bool} {buf rest : Bytes}
    {o : Option α} (hd : decodeIf present dec buf = .ok (o, rest)) :
    o.isSome = present ∧ (∀ a ∈ o, P a) ∧
      ∃ b, encodeOption enc o = .ok b ∧ b.length + rest.length ≤ buf.length := by
  cases present with
  | false =>
    obtain ⟨rfl, rfl⟩ := Prod.mk.inj (Except.ok.inj hd)
    exact ⟨rfl, nofun, [], rfl, by simp⟩
  | true =>
    obtain ⟨a, ha, rfl⟩ := map_eq_ok_iff.1 hd
    obtain ⟨hp, b, hb, hle⟩ := h.encode_decode ha
    refine ⟨rfl, ?_, b, hb, hle⟩
    rintro a' ⟨⟩
    exact hp

end Optional

theorem codec_reason (packet : String) :
    Codec (fun rc => .ok (putU8 rc.toU8)) (decodeReason packet) fun _ => True where
  decode_encode {rc b} _ he rest := by
    rw [decodeReason, bind_of_ok (codec_u8.decode_encode trivial he rest), ReasonCode.fromU8_toU8]
    rfl
  encode_decode {buf rc rest} hd := by
    obtain ⟨code, mid, hcode, ho⟩ := bind_eq_ok_iff.1 hd
    obtain ⟨-, rfl⟩ := fromOption_eq_ok_iff.1 ho
    obtain ⟨-, b, hb, hle⟩ := codec_u8.encode_decode hcode
    obtain rfl := Except.ok.inj hb
    exact ⟨trivial, _, rfl, hle⟩

theorem consumes_reason (packet : String) : Consumes (decodeReason packet) := by
  intro buf rc rest hd
  obtain ⟨code, mid, hcode, ho⟩ := bind_eq_ok_iff.1 hd
  obtain ⟨-, rfl⟩ := fromOption_eq_ok_iff.1 ho
  exact consumes_u8 hcode

theorem codec_subscription : Codec encodeSubscription decodeSubscription fun _ => True where
  decode_encode {s b} _ he rest := by
    obtain ⟨topic, htopic, he⟩ := Except.bind_eq_ok_iff.1 he
    obtain rfl := Except.pure_eq_ok_iff.1 he
    obtain ⟨hres, hqos, hret, hlocal, hrap⟩ :=
      subscriptionOptions_bits s.qos s.noLocal s.retainAsPublished s.retainHandling
    rw [List.append_assoc, decodeSubscription,
      bind_of_ok (codec_string.decode_encode trivial htopic _),
      bind_of_ok (codec_u8.decode_encode trivial rfl rest), require_bind_of hres, hqos,
      QoS.fromU8_toU8, hret, hlocal, hrap]
    rfl
  encode_decode {buf s rest} hd := by
    obtain ⟨topic, mid, htopic, hd⟩ := bind_eq_ok_iff.1 hd
    obtain ⟨opt, mid', hopt, hd⟩ := bind_eq_ok_iff.1 hd
    obtain ⟨-, hd⟩ := require_bind_eq_ok_iff.1 hd
    obtain ⟨qos, m₁, hqos, hd⟩ := bind_eq_ok_iff.1 hd
    obtain ⟨ret, m₂, hret, hd⟩ := bind_eq_ok_iff.1 hd
    obtain ⟨-, rfl⟩ := fromOption_eq_ok_iff.1 hqos
    obtain ⟨-, rfl⟩ := fromOption_eq_ok_iff.1 hret
    obtain ⟨rfl, rfl⟩ := Prod.mk.inj (Except.ok.inj hd)
    obtain ⟨-, b, hb, hle⟩ := codec_string.encode_decode htopic
    have hlt := consumes_u8 hopt
    refine ⟨trivial, _, by rw [encodeSubscription, hb]; rfl, ?_⟩
    simp only [List.length_append, putU8, List.length_cons, List.length_nil]
    omega

theorem consumes_subscription : Consumes decodeSubscription := by
  intro buf s rest hd
  obtain ⟨-, b, hb, hle⟩ := codec_subscription.encode_decode hd
  obtain ⟨topic, htopic, he⟩ := Except.bind_eq_ok_iff.1 hb
  obtain rfl := Except.pure_eq_ok_iff.1 he
  simp only [List.length_append, putU8, List.length_cons, List.length_nil] at hle
  omega

/-! ## Bodies that take the fields in order -/

theorem decodeWill_encodeWill {flags : UInt8} {will : Option Will} {b : Bytes}
    (hp : ∀ w ∈ will, ValidProperties w.properties)
    (hbits : ∃ username password cleanStart, flags =
      connectFlags username password (will.map fun w => (w.qos, w.retain)) cleanStart)
    (he : encodeOption encodeWill will = .ok b) (rest : Bytes) :
    decodeWill flags (b ++ rest) = .ok (will, rest) := by
  obtain ⟨username, password, cleanStart, rfl⟩ := hbits
  cases will with
  | none =>
    obtain rfl := Except.ok.inj he
    obtain ⟨h₁, h₂, h₃⟩ := connectFlags_none username password cleanStart
    simp only [Option.map_none]
    rw [decodeWill, if_neg (not_not.2 h₁), if_neg (by simp [h₂, h₃])]
    rfl
  | some w =>
    obtain ⟨h₁, h₂, h₃⟩ := connectFlags_some username password w.qos w.retain cleanStart
    obtain ⟨props, hprops, he⟩ := Except.bind_eq_ok_iff.1 he
    obtain ⟨topic, htopic, he⟩ := Except.bind_eq_ok_iff.1 he
    obtain ⟨payload, hpayload, he⟩ := Except.bind_eq_ok_iff.1 he
    obtain rfl := Except.pure_eq_ok_iff.1 he
    simp only [Option.map_some, List.append_assoc]
    rw [decodeWill, if_pos h₁, bind_of_ok (codec_properties.decode_encode (hp w rfl) hprops _),
      bind_of_ok (codec_string.decode_encode trivial htopic _),
      bind_of_ok (codec_binary.decode_encode trivial hpayload _), h₂, QoS.fromU8_toU8, h₃]
    rfl

theorem encodeWill_decodeWill {flags : UInt8} {will : Option Will} {buf rest : Bytes}
    (hd : decodeWill flags buf = .ok (will, rest)) :
    (∀ w ∈ will, ValidProperties w.properties) ∧
      ∃ b, encodeOption encodeWill will = .ok b ∧ b.length + rest.length ≤ buf.length := by
  unfold decodeWill at hd
  split_ifs at hd
  · obtain ⟨props, m₁, hprops, hd⟩ := bind_eq_ok_iff.1 hd
    obtain ⟨topic, m₂, htopic, hd⟩ := bind_eq_ok_iff.1 hd
    obtain ⟨payload, m₃, hpayload, hd⟩ := bind_eq_ok_iff.1 hd
    obtain ⟨qos, m₄, hqos, hd⟩ := bind_eq_ok_iff.1 hd
    obtain ⟨-, rfl⟩ := fromOption_eq_ok_iff.1 hqos
    obtain ⟨rfl, rfl⟩ := Prod.mk.inj (Except.ok.inj hd)
    obtain ⟨hvalid, pb, hpb, hple⟩ := codec_properties.encode_decode hprops
    obtain ⟨-, tb, htb, htle⟩ := codec_string.encode_decode htopic
    obtain ⟨-, lb, hlb, hlle⟩ := codec_binary.encode_decode hpayload
    refine ⟨?_, _, by rw [encodeOption, encodeWill, hpb, htb, hlb]; rfl, ?_⟩
    · rintro w ⟨⟩
      exact hvalid
    · simp only [List.length_append]
      omega
  · cases hd
  · obtain ⟨rfl, rfl⟩ := Prod.mk.inj (Except.ok.inj hd)
    exact ⟨nofun, [], rfl, by simp⟩

/-- The rules of CONNECT. -/
structure ConnectV5.Valid (c : ConnectV5) : Prop where
  properties : ValidProperties c.properties
  will : ∀ w ∈ c.will, ValidProperties w.properties

theorem codec_connect : Codec encodeConnect decodeConnect ConnectV5.Valid where
  decode_encode {c b} hp he rest := by
    obtain ⟨name, hname, he⟩ := Except.bind_eq_ok_iff.1 he
    obtain ⟨props, hprops, he⟩ := Except.bind_eq_ok_iff.1 he
    obtain ⟨clientId, hclientId, he⟩ := Except.bind_eq_ok_iff.1 he
    obtain ⟨will, hwill, he⟩ := Except.bind_eq_ok_iff.1 he
    obtain ⟨username, husername, he⟩ := Except.bind_eq_ok_iff.1 he
    obtain ⟨password, hpassword, he⟩ := Except.bind_eq_ok_iff.1 he
    obtain rfl := Except.pure_eq_ok_iff.1 he
    obtain ⟨h₁, h₂, h₃, h₄⟩ := connectFlags_bits c.username.isSome c.password.isSome
      (c.will.map fun w => (w.qos, w.retain)) c.cleanStart
    simp only [List.append_assoc]
    rw [decodeConnect, bind_of_ok (codec_string.decode_encode trivial hname _),
      require_bind_of rfl, bind_of_ok (codec_u8.decode_encode trivial rfl _),
      require_bind_of rfl, bind_of_ok (codec_u8.decode_encode trivial rfl _),
      require_bind_of h₁, bind_of_ok (codec_u16.decode_encode trivial rfl _),
      bind_of_ok (codec_properties.decode_encode hp.properties hprops _),
      bind_of_ok (codec_string.decode_encode trivial hclientId _),
      bind_of_ok (decodeWill_encodeWill hp.will ⟨_, _, _, rfl⟩ hwill _), h₂,
      bind_of_ok (decodeIf_encodeOption codec_string (fun _ _ => trivial) husername _), h₃,
      bind_of_ok (decodeIf_encodeOption codec_binary (fun _ _ => trivial) hpassword _), h₄]
    rfl
  encode_decode {buf c rest} hd := by
    obtain ⟨name, m₁, hname, hd⟩ := bind_eq_ok_iff.1 hd
    obtain ⟨hn, hd⟩ := require_bind_eq_ok_iff.1 hd
    obtain ⟨level, m₂, hlevel, hd⟩ := bind_eq_ok_iff.1 hd
    obtain ⟨-, hd⟩ := require_bind_eq_ok_iff.1 hd
    obtain ⟨flags, m₃, hflags, hd⟩ := bind_eq_ok_iff.1 hd
    obtain ⟨-, hd⟩ := require_bind_eq_ok_iff.1 hd
    obtain ⟨keepAlive, m₄, hkeep, hd⟩ := bind_eq_ok_iff.1 hd
    obtain ⟨props, m₅, hprops, hd⟩ := bind_eq_ok_iff.1 hd
    obtain ⟨clientId, m₆, hclient, hd⟩ := bind_eq_ok_iff.1 hd
    obtain ⟨will, m₇, hwill, hd⟩ := bind_eq_ok_iff.1 hd
    obtain ⟨username, m₈, huser, hd⟩ := bind_eq_ok_iff.1 hd
    obtain ⟨password, m₉, hpass, hd⟩ := bind_eq_ok_iff.1 hd
    obtain ⟨rfl, rfl⟩ := Prod.mk.inj (Except.ok.inj hd)
    rw [hn] at hname
    obtain ⟨-, nb, hnb, hnle⟩ := codec_string.encode_decode hname
    obtain ⟨-, kb, hkb, hkle⟩ := codec_u16.encode_decode hkeep
    obtain ⟨hvalid, pb, hpb, hple⟩ := codec_properties.encode_decode hprops
    obtain ⟨-, cb, hcb, hcle⟩ := codec_string.encode_decode hclient
    obtain ⟨hwvalid, wb, hwb, hwle⟩ := encodeWill_decodeWill hwill
    obtain ⟨-, -, ub, hub, hule⟩ := encodeOption_decodeIf codec_string huser
    obtain ⟨-, -, sb, hsb, hsle⟩ := encodeOption_decodeIf codec_binary hpass
    obtain rfl := Except.ok.inj hkb
    have hl := consumes_u8 hlevel
    have hf := consumes_u8 hflags
    refine ⟨⟨hvalid, hwvalid⟩, _, by
      rw [encodeConnect, hnb, hpb, hcb, hwb, hub, hsb]; rfl, ?_⟩
    simp only [List.length_append, putU8, List.length_cons, List.length_nil]
    omega

theorem codec_connack : Codec encodeConnack decodeConnack fun c => ValidProperties c.properties where
  decode_encode {c b} hp he rest := by
    obtain ⟨props, hprops, he⟩ := Except.bind_eq_ok_iff.1 he
    obtain rfl := Except.pure_eq_ok_iff.1 he
    have hbit : decide (flag c.sessionPresent 1 &&& 0x01 ≠ 0) = c.sessionPresent := by
      cases c.sessionPresent <;> decide
    simp only [List.append_assoc]
    rw [decodeConnack, bind_of_ok (codec_u8.decode_encode trivial rfl _),
      bind_of_ok ((codec_reason "CONNACK").decode_encode trivial rfl _),
      bind_of_ok (codec_properties.decode_encode hp hprops _), hbit]
    rfl
  encode_decode {buf c rest} hd := by
    obtain ⟨ackFlags, m₁, hflags, hd⟩ := bind_eq_ok_iff.1 hd
    obtain ⟨code, m₂, hcode, hd⟩ := bind_eq_ok_iff.1 hd
    obtain ⟨props, m₃, hprops, hd⟩ := bind_eq_ok_iff.1 hd
    obtain ⟨rfl, rfl⟩ := Prod.mk.inj (Except.ok.inj hd)
    obtain ⟨hvalid, pb, hpb, hple⟩ := codec_properties.encode_decode hprops
    have hf := consumes_u8 hflags
    have hc := consumes_reason "CONNACK" hcode
    refine ⟨hvalid, _, by rw [encodeConnack, hpb]; rfl, ?_⟩
    simp only [List.length_append, putU8, List.length_cons, List.length_nil]
    omega

/-! ## Bodies that end with the input -/

/-- Agreement on a whole body: decoding an encoded body gives the value and uses the body up, and a
decoded value can be encoded in the length of the body it came from, or in four bytes. -/
structure BodyCodec {α : Type} (enc : α → Encoded) (dec : Decode α) (P : α → Prop) : Prop where
  decode_encode : ∀ {a b}, P a → enc a = .ok b → dec b = .ok (a, [])
  encode_decode : ∀ {buf a rest}, dec buf = .ok (a, rest) →
    P a ∧ ∃ b, enc a = .ok b ∧ b.length ≤ max buf.length 4

theorem BodyCodec.of_codec {α : Type} {enc : α → Encoded} {dec : Decode α} {P : α → Prop}
    (h : Codec enc dec P) : BodyCodec enc dec P where
  decode_encode hp he := by
    simpa using h.decode_encode hp he []
  encode_decode hd := by
    obtain ⟨hp, b, hb, hle⟩ := h.encode_decode hd
    exact ⟨hp, b, hb, by omega⟩

/-- The rules of PUBLISH. -/
structure PublishV5.Valid (p : PublishV5) : Prop where
  properties : ValidProperties p.properties
  packetId : p.packetId.isSome = true ↔ p.qos ≠ .atMostOnce
  dup : p.qos = .atMostOnce → p.dup = false

theorem decodeIf_encodePacketId {p : PublishV5}
    (hp : p.packetId.isSome = true ↔ p.qos ≠ .atMostOnce) {b : Bytes}
    (he : encodePacketId p = .ok b) (rest : Bytes) :
    decodeIf (p.qos ≠ .atMostOnce) getU16 (b ++ rest) = .ok (p.packetId, rest) := by
  have hsome : decide (p.qos ≠ .atMostOnce) = p.packetId.isSome := by
    rw [Bool.eq_iff_iff, decide_eq_true_iff, hp]
  have henc : encodeOption (fun v => .ok (putU16 v)) p.packetId = .ok b := by
    unfold encodePacketId at he
    split_ifs at he with hq
    · obtain ⟨pid, hpid⟩ := Option.isSome_iff_exists.1 (hp.2 hq)
      rw [hpid] at he ⊢
      exact he
    · have hnone : p.packetId = none := by
        rw [← Option.not_isSome_iff_eq_none, hp]
        exact hq
      rw [hnone]
      exact he
  rw [hsome]
  exact decodeIf_encodeOption codec_u16 (fun _ _ => trivial) henc rest

theorem decodePublish_encodePublish {p : PublishV5} (hp : p.Valid) {b : Bytes}
    (he : encodePublish p = .ok b) :
    decodePublish (publishFlags p.dup p.qos p.retain) b = .ok (p, []) := by
  obtain ⟨topic, htopic, he⟩ := Except.bind_eq_ok_iff.1 he
  obtain ⟨pid, hpid, he⟩ := Except.bind_eq_ok_iff.1 he
  obtain ⟨props, hprops, he⟩ := Except.bind_eq_ok_iff.1 he
  obtain rfl := Except.pure_eq_ok_iff.1 he
  obtain ⟨h₁, h₂, h₃⟩ := publishFlags_bits p.dup p.qos p.retain
  have hdup : ¬ (p.dup = true ∧ p.qos = .atMostOnce) := fun ⟨hd, hq⟩ => by
    rw [hp.dup hq] at hd
    cases hd
  simp only [List.append_assoc]
  rw [decodePublish, h₁, h₂, h₃, QoS.fromU8_toU8]
  refine (bind_of_ok (fromOption_eq_ok_iff.2 ⟨rfl, rfl⟩)).trans ?_
  rw [require_bind_of hdup, bind_of_ok (codec_string.decode_encode trivial htopic _),
    bind_of_ok (decodeIf_encodePacketId hp.packetId hpid _),
    bind_of_ok (codec_properties.decode_encode hp.properties hprops _)]
  rfl

theorem encodePublish_decodePublish {flags : UInt8} {p : PublishV5} {buf rest : Bytes}
    (hd : decodePublish flags buf = .ok (p, rest)) :
    p.Valid ∧ ∃ b, encodePublish p = .ok b ∧ b.length ≤ max buf.length 4 := by
  obtain ⟨qos, m₀, hqos, hd⟩ := bind_eq_ok_iff.1 hd
  obtain ⟨-, hm₀⟩ := fromOption_eq_ok_iff.1 hqos
  obtain ⟨hdup, hd⟩ := require_bind_eq_ok_iff.1 hd
  obtain ⟨topic, m₁, htopic, hd⟩ := bind_eq_ok_iff.1 hd
  obtain ⟨pid, m₂, hpid, hd⟩ := bind_eq_ok_iff.1 hd
  obtain ⟨props, m₃, hprops, hd⟩ := bind_eq_ok_iff.1 hd
  obtain ⟨payload, m₄, hpayload, hd⟩ := bind_eq_ok_iff.1 hd
  obtain ⟨rfl, rfl⟩ := Prod.mk.inj (Except.ok.inj hpayload)
  obtain ⟨rfl, rfl⟩ := Prod.mk.inj (Except.ok.inj hd)
  obtain ⟨-, tb, htb, htle⟩ := codec_string.encode_decode htopic
  obtain ⟨hsome, -, ib, hib, hile⟩ := encodeOption_decodeIf codec_u16 hpid
  obtain ⟨hvalid, pb, hpb, hple⟩ := codec_properties.encode_decode hprops
  have hiff : pid.isSome = true ↔ qos ≠ .atMostOnce := by
    rw [hsome, decide_eq_true_iff]
  have hpacket : ∀ q : PublishV5, q.qos = qos → q.packetId = pid → encodePacketId q = .ok ib := by
    intro q hq hi
    unfold encodePacketId
    rw [hq, hi]
    cases pid with
    | none =>
      rw [if_neg fun h => by simpa using hiff.2 h]
      exact hib
    | some v =>
      rw [if_pos (hiff.1 rfl)]
      exact hib
  refine ⟨⟨hvalid, hiff, fun hq => ?_⟩, _, by
    rw [encodePublish, htb, hpacket _ rfl rfl, hpb]; rfl, ?_⟩
  · by_contra hdup'
    exact hdup ⟨by simpa using hdup', hq⟩
  · subst hm₀
    simp only [List.length_append]
    omega

/-! ### Reason and properties -/

theorem validProperties_nil : ValidProperties [] := ⟨nofun, .nil⟩

theorem encodeProperties_nil : encodeProperties [] = .ok [0] := by decide

theorem decodeReasonProps_of_ne (packet : String) {buf : Bytes} (h : buf ≠ []) :
    decodeReasonProps packet buf = (decodeReason packet >>= fun reasonCode => do
      if ← atEnd then return { reasonCode, properties := [] }
      let properties ← decodeProperties
      return { reasonCode, properties }) buf := by
  have hend : (atEnd : Decode Bool) buf = .ok (false, buf) := by
    simp [atEnd, h]
  rw [decodeReasonProps, bind_of_ok hend]
  rfl

theorem decodeReasonProps_encode (packet : String) {r : ReasonV5}
    (hp : ValidProperties r.properties) {b : Bytes} (he : encodeReasonProps r = .ok b) :
    decodeReasonProps packet b = .ok (r, []) := by
  unfold encodeReasonProps at he
  split_ifs at he with hs
  · obtain ⟨rc, props⟩ := r
    obtain ⟨rfl, rfl⟩ := hs
    obtain rfl := Except.ok.inj he
    rfl
  · obtain ⟨pb, hpb, he⟩ := Except.bind_eq_ok_iff.1 he
    obtain rfl := Except.pure_eq_ok_iff.1 he
    have hprops := codec_properties.decode_encode hp hpb []
    rw [List.append_nil] at hprops
    have hne : pb ≠ [] := by
      rintro rfl
      cases hprops
    have hend : (atEnd : Decode Bool) pb = .ok (false, pb) := by
      simp [atEnd, hne]
    rw [decodeReasonProps_of_ne packet (by simp [putU8]),
      bind_of_ok ((codec_reason packet).decode_encode trivial rfl pb), bind_of_ok hend]
    exact (bind_of_ok hprops).trans rfl

theorem encodeReasonProps_of_encodeProperties {r : ReasonV5} {pb : Bytes}
    (h : encodeProperties r.properties = .ok pb) :
    ∃ b, encodeReasonProps r = .ok b ∧ b.length ≤ 1 + pb.length := by
  unfold encodeReasonProps
  split_ifs with hs
  · exact ⟨[], rfl, Nat.zero_le _⟩
  · refine ⟨putU8 r.reasonCode.toU8 ++ pb, by rw [h]; rfl, ?_⟩
    simp only [List.length_append, putU8, List.length_cons, List.length_nil]
    omega

theorem encodeReasonProps_decode {packet : String} {buf rest : Bytes} {r : ReasonV5}
    (hd : decodeReasonProps packet buf = .ok (r, rest)) :
    ValidProperties r.properties ∧
      ∃ b, encodeReasonProps r = .ok b ∧ b.length ≤ max buf.length 2 := by
  by_cases hnil : buf = []
  · subst hnil
    obtain ⟨rfl, rfl⟩ := Prod.mk.inj (Except.ok.inj hd)
    exact ⟨validProperties_nil, [], rfl, Nat.zero_le _⟩
  · rw [decodeReasonProps_of_ne packet hnil] at hd
    obtain ⟨rc, mid, hrc, hd⟩ := bind_eq_ok_iff.1 hd
    have hlt := consumes_reason packet hrc
    by_cases hmid : mid = []
    · subst hmid
      obtain ⟨rfl, rfl⟩ := Prod.mk.inj (Except.ok.inj hd)
      obtain ⟨b, hb, hle⟩ := encodeReasonProps_of_encodeProperties
        (r := ⟨rc, []⟩) encodeProperties_nil
      exact ⟨validProperties_nil, b, hb, by simp only [List.length_cons, List.length_nil] at hle; omega⟩
    · have hend : (atEnd : Decode Bool) mid = .ok (false, mid) := by
        simp [atEnd, hmid]
      rw [bind_of_ok hend] at hd
      obtain ⟨props, m₂, hprops, hd⟩ := bind_eq_ok_iff.1 hd
      obtain ⟨rfl, rfl⟩ := Prod.mk.inj (Except.ok.inj hd)
      obtain ⟨hvalid, pb, hpb, hple⟩ := codec_properties.encode_decode hprops
      obtain ⟨b, hb, hle⟩ := encodeReasonProps_of_encodeProperties (r := ⟨rc, props⟩) hpb
      exact ⟨hvalid, b, hb, by omega⟩

theorem body_reasonProps (packet : String) :
    BodyCodec encodeReasonProps (decodeReasonProps packet)
      fun r => ValidProperties r.properties where
  decode_encode hp he := decodeReasonProps_encode packet hp he
  encode_decode hd := by
    obtain ⟨hvalid, b, hb, hle⟩ := encodeReasonProps_decode hd
    exact ⟨hvalid, b, hb, by omega⟩

theorem encodeAck_eq (a : AckV5) :
    encodeAck a = (do
      let b ← encodeReasonProps ⟨a.reasonCode, a.properties⟩
      return putU16 a.packetId ++ b) := by
  unfold encodeAck encodeReasonProps
  dsimp only
  split_ifs with h
  · exact congrArg Except.ok (List.append_nil _).symm
  · cases encodeProperties a.properties <;> simp [bind, Except.bind, pure, Except.pure]

theorem body_ack (packet : String) :
    BodyCodec encodeAck (decodeAck packet) fun a => ValidProperties a.properties where
  decode_encode {a b} hp he := by
    rw [encodeAck_eq] at he
    obtain ⟨rb, hrb, he⟩ := Except.bind_eq_ok_iff.1 he
    obtain rfl := Except.pure_eq_ok_iff.1 he
    rw [decodeAck, bind_of_ok (codec_u16.decode_encode trivial rfl rb),
      bind_of_ok (decodeReasonProps_encode packet hp hrb)]
    rfl
  encode_decode {buf a rest} hd := by
    obtain ⟨pid, mid, hpid, hd⟩ := bind_eq_ok_iff.1 hd
    obtain ⟨r, mid', hr, hd⟩ := bind_eq_ok_iff.1 hd
    obtain ⟨rfl, rfl⟩ := Prod.mk.inj (Except.ok.inj hd)
    obtain ⟨-, ib, hib, hile⟩ := codec_u16.encode_decode hpid
    obtain rfl := Except.ok.inj hib
    obtain ⟨hvalid, rb, hrb, hrle⟩ := encodeReasonProps_decode hr
    refine ⟨hvalid, putU16 pid ++ rb, by rw [encodeAck_eq, hrb]; rfl, ?_⟩
    simp only [List.length_append, putU16, List.length_cons, List.length_nil] at hile ⊢
    omega

/-! ### Lists -/

section Lists

variable {α β : Type} {enc : α → Encoded} {dec : Decode α}

/-- A packet id, properties and a list of items. -/
def encodeIdPropsMany (enc : α → Encoded) (packetId : UInt16) (properties : List Property)
    (items : List α) : Encoded := do
  let props ← encodeProperties properties
  let body ← encodeAll enc items
  return putU16 packetId ++ props ++ body

theorem decode_encodeIdPropsMany (h : Codec enc dec fun _ => True) (hc : Consumes dec)
    {packetId : UInt16} {properties : List Property} (hp : ValidProperties properties)
    {items : List α} {b : Bytes} (he : encodeIdPropsMany enc packetId properties items = .ok b)
    (k : UInt16 → List Property → List α → Decode β) :
    (getU16 >>= fun i => decodeProperties >>= fun ps => many dec >>= fun as => k i ps as) b =
      k packetId properties items [] := by
  obtain ⟨props, hprops, he⟩ := Except.bind_eq_ok_iff.1 he
  obtain ⟨body, hbody, he⟩ := Except.bind_eq_ok_iff.1 he
  obtain rfl := Except.pure_eq_ok_iff.1 he
  rw [List.append_assoc, bind_of_ok (codec_u16.decode_encode trivial rfl _),
    bind_of_ok (codec_properties.decode_encode hp hprops body),
    bind_of_ok (h.many_encodeAll hc (fun _ _ => trivial) hbody)]

theorem encodeIdPropsMany_decode (h : Codec enc dec fun _ => True) (hc : Consumes dec)
    {k : UInt16 → List Property → List α → Decode β} {buf : Bytes} {r : β × Bytes}
    (hd : (getU16 >>= fun i => decodeProperties >>= fun ps => many dec >>= fun as => k i ps as)
      buf = .ok r) :
    ∃ packetId properties items, ValidProperties properties ∧
      k packetId properties items [] = .ok r ∧
        ∃ b, encodeIdPropsMany enc packetId properties items = .ok b ∧ b.length ≤ buf.length := by
  obtain ⟨packetId, m₁, hid, hd⟩ := bind_eq_ok_iff.1 hd
  obtain ⟨properties, m₂, hprops, hd⟩ := bind_eq_ok_iff.1 hd
  obtain ⟨items, m₃, hitems, hd⟩ := bind_eq_ok_iff.1 hd
  obtain ⟨-, ib, hib, hile⟩ := codec_u16.encode_decode hid
  obtain rfl := Except.ok.inj hib
  obtain ⟨hvalid, pb, hpb, hple⟩ := codec_properties.encode_decode hprops
  obtain ⟨hm₃, -, ab, hab, hale⟩ := h.encodeAll_many hc hitems
  refine ⟨packetId, properties, items, hvalid, hm₃ ▸ hd, _, by
    rw [encodeIdPropsMany, hpb, hab]; rfl, ?_⟩
  simp only [List.length_append]
  omega

end Lists

theorem body_subscribe : BodyCodec encodeSubscribe decodeSubscribe
    fun s => ValidProperties s.properties ∧ s.subscriptions ≠ [] where
  decode_encode {s b} hp he := by
    refine (decode_encodeIdPropsMany codec_subscription consumes_subscription hp.1 he _).trans ?_
    rw [require_bind_of hp.2]
    rfl
  encode_decode hd := by
    obtain ⟨packetId, properties, subs, hvalid, hk, b, hb, hle⟩ :=
      encodeIdPropsMany_decode codec_subscription consumes_subscription hd
    obtain ⟨hne, hk⟩ := require_bind_eq_ok_iff.1 hk
    obtain ⟨rfl, rfl⟩ := Prod.mk.inj (Except.ok.inj hk)
    exact ⟨⟨hvalid, hne⟩, b, hb, le_max_of_le_left hle⟩

theorem body_idPropsCodes (packet : String) :
    BodyCodec encodeIdPropsCodes (decodeIdPropsCodes packet)
      fun s => ValidProperties s.properties where
  decode_encode hp he :=
    decode_encodeIdPropsMany (codec_reason packet) (consumes_reason packet) hp he _
  encode_decode hd := by
    obtain ⟨packetId, properties, codes, hvalid, hk, b, hb, hle⟩ :=
      encodeIdPropsMany_decode (codec_reason packet) (consumes_reason packet) hd
    obtain ⟨rfl, rfl⟩ := Prod.mk.inj (Except.ok.inj hk)
    exact ⟨hvalid, b, hb, le_max_of_le_left hle⟩

theorem body_unsubscribe : BodyCodec encodeUnsubscribe decodeUnsubscribe
    fun u => ValidProperties u.properties ∧ u.topicFilters ≠ [] where
  decode_encode {u b} hp he := by
    refine (decode_encodeIdPropsMany codec_string consumes_string hp.1 he _).trans ?_
    rw [require_bind_of hp.2]
    rfl
  encode_decode hd := by
    obtain ⟨packetId, properties, filters, hvalid, hk, b, hb, hle⟩ :=
      encodeIdPropsMany_decode codec_string consumes_string hd
    obtain ⟨hne, hk⟩ := require_bind_eq_ok_iff.1 hk
    obtain ⟨rfl, rfl⟩ := Prod.mk.inj (Except.ok.inj hk)
    exact ⟨⟨hvalid, hne⟩, b, hb, le_max_of_le_left hle⟩

/-! ## Packets -/

/-- The rules of the decoder. -/
def PacketV5.Valid : PacketV5 → Prop
  | .connect c => c.Valid
  | .connAck c => ValidProperties c.properties
  | .publish p => p.Valid
  | .pubAck a | .pubRec a | .pubRel a | .pubComp a => ValidProperties a.properties
  | .subscribe s => ValidProperties s.properties ∧ s.subscriptions ≠ []
  | .subAck s | .unsubAck s => ValidProperties s.properties
  | .unsubscribe u => ValidProperties u.properties ∧ u.topicFilters ≠ []
  | .pingReq | .pingResp => True
  | .disconnect r | .auth r => ValidProperties r.properties

theorem tagged_eq_ok {ty flags ty' flags' : UInt8} {e : Encoded} {body : Bytes}
    (h : (do return (ty, flags, ← e)) = Except.ok (ty', flags', body)) :
    ty = ty' ∧ flags = flags' ∧ e = .ok body := by
  obtain ⟨b, hb, h⟩ := Except.bind_eq_ok_iff.1 h
  obtain ⟨rfl, hrest⟩ := Prod.mk.inj (Except.pure_eq_ok_iff.1 h)
  obtain ⟨rfl, rfl⟩ := Prod.mk.inj hrest
  exact ⟨rfl, rfl, hb⟩

theorem header_nibbles {p : PacketV5} {ty flags : UInt8} {body : Bytes}
    (h : encodeBody p = .ok (ty, flags, body)) :
    ((ty <<< 4) ||| (flags &&& 0x0f)) >>> 4 = ty ∧
      ((ty <<< 4) ||| (flags &&& 0x0f)) &&& 0x0f = flags := by
  cases p with
  | pingReq | pingResp =>
    obtain ⟨rfl, hrest⟩ := Prod.mk.inj (Except.ok.inj h)
    obtain ⟨rfl, -⟩ := Prod.mk.inj hrest
    decide
  | publish p =>
    obtain ⟨rfl, rfl, -⟩ := tagged_eq_ok h
    cases p.dup <;> cases p.qos <;> cases p.retain <;> decide
  | _ =>
    obtain ⟨rfl, rfl, -⟩ := tagged_eq_ok h
    decide

theorem decodeBody_encodeBody {p : PacketV5} (hp : p.Valid) {ty flags : UInt8} {body : Bytes}
    (h : encodeBody p = .ok (ty, flags, body)) : decodeBody ty flags body = .ok (p, []) := by
  cases p with
  | pingReq | pingResp =>
    obtain ⟨rfl, hrest⟩ := Prod.mk.inj (Except.ok.inj h)
    obtain ⟨rfl, rfl⟩ := Prod.mk.inj hrest
    rfl
  | connect c =>
    obtain ⟨rfl, rfl, he⟩ := tagged_eq_ok h
    exact map_of_ok ((BodyCodec.of_codec codec_connect).decode_encode hp he)
  | connAck c =>
    obtain ⟨rfl, rfl, he⟩ := tagged_eq_ok h
    exact map_of_ok ((BodyCodec.of_codec codec_connack).decode_encode hp he)
  | publish p =>
    obtain ⟨rfl, rfl, he⟩ := tagged_eq_ok h
    exact map_of_ok (decodePublish_encodePublish hp he)
  | pubAck a | pubRec a | pubComp a =>
    obtain ⟨rfl, rfl, he⟩ := tagged_eq_ok h
    exact map_of_ok ((body_ack _).decode_encode hp he)
  | pubRel a =>
    obtain ⟨rfl, rfl, he⟩ := tagged_eq_ok h
    exact map_of_ok ((body_ack _).decode_encode hp he)
  | subscribe s =>
    obtain ⟨rfl, rfl, he⟩ := tagged_eq_ok h
    exact map_of_ok (body_subscribe.decode_encode hp he)
  | unsubscribe u =>
    obtain ⟨rfl, rfl, he⟩ := tagged_eq_ok h
    exact map_of_ok (body_unsubscribe.decode_encode hp he)
  | subAck s | unsubAck s =>
    obtain ⟨rfl, rfl, he⟩ := tagged_eq_ok h
    exact map_of_ok ((body_idPropsCodes _).decode_encode hp he)
  | disconnect r | auth r =>
    obtain ⟨rfl, rfl, he⟩ := tagged_eq_ok h
    exact map_of_ok ((body_reasonProps _).decode_encode hp he)

/-- What a decoded body says about encoding the packet again. -/
def Reencodable (buf : Bytes) (p : PacketV5) : Prop :=
  p.Valid ∧ ∃ ty flags body, encodeBody p = .ok (ty, flags, body) ∧
    body.length ≤ max buf.length 4

theorem reencodable_of_map {α : Type} {enc : α → Encoded} {dec : Decode α} {P : α → Prop}
    (hc : ∀ {buf a rest}, dec buf = .ok (a, rest) →
      P a ∧ ∃ b, enc a = .ok b ∧ b.length ≤ max buf.length 4)
    {mk : α → PacketV5} {buf rest : Bytes} {p : PacketV5}
    (h : (mk <$> dec) buf = .ok (p, rest)) (hvalid : ∀ a, P a → (mk a).Valid)
    (henc : ∀ a, ∃ ty flags, encodeBody (mk a) = do return (ty, flags, ← enc a)) :
    Reencodable buf p := by
  obtain ⟨a, ha, rfl⟩ := map_eq_ok_iff.1 h
  obtain ⟨hp, b, hb, hle⟩ := hc ha
  obtain ⟨ty, flags, hbody⟩ := henc a
  exact ⟨hvalid a hp, ty, flags, b, by rw [hbody, hb]; rfl, hle⟩

theorem encodeBody_decodeBody {ty flags : UInt8} {p : PacketV5} {buf rest : Bytes}
    (h : decodeBody ty flags buf = .ok (p, rest)) : Reencodable buf p := by
  unfold decodeBody at h
  split at h
  case h_1 =>
    exact reencodable_of_map (BodyCodec.of_codec codec_connect).encode_decode h (fun _ => id)
      fun _ => ⟨_, _, rfl⟩
  case h_2 =>
    exact reencodable_of_map (BodyCodec.of_codec codec_connack).encode_decode h (fun _ => id)
      fun _ => ⟨_, _, rfl⟩
  case h_3 =>
    exact reencodable_of_map encodePublish_decodePublish h (fun _ => id) fun _ => ⟨_, _, rfl⟩
  case h_4 | h_5 | h_7 =>
    exact reencodable_of_map (body_ack _).encode_decode h (fun _ => id) fun _ => ⟨_, _, rfl⟩
  case h_6 =>
    obtain ⟨-, h⟩ := require_bind_eq_ok_iff.1 h
    exact reencodable_of_map (body_ack _).encode_decode h (fun _ => id) fun _ => ⟨_, _, rfl⟩
  case h_8 =>
    obtain ⟨-, h⟩ := require_bind_eq_ok_iff.1 h
    exact reencodable_of_map body_subscribe.encode_decode h (fun _ => id) fun _ => ⟨_, _, rfl⟩
  case h_9 | h_11 =>
    exact reencodable_of_map (body_idPropsCodes _).encode_decode h (fun _ => id)
      fun _ => ⟨_, _, rfl⟩
  case h_10 =>
    obtain ⟨-, h⟩ := require_bind_eq_ok_iff.1 h
    exact reencodable_of_map body_unsubscribe.encode_decode h (fun _ => id) fun _ => ⟨_, _, rfl⟩
  case h_12 | h_13 =>
    obtain ⟨rfl, rfl⟩ := Prod.mk.inj (Except.ok.inj h)
    exact ⟨trivial, _, _, [], rfl, Nat.zero_le _⟩
  case h_14 | h_15 =>
    exact reencodable_of_map (body_reasonProps _).encode_decode h (fun _ => id)
      fun _ => ⟨_, _, rfl⟩
  case h_16 => cases h

/-! ## Frames -/

theorem decodeV5_of_complete {header : UInt8} {tail : Bytes} {v : UInt32} {n : Nat}
    (hv : decodeVarInt tail = .ok (v, n)) (hlen : n + v.toNat ≤ tail.length) :
    decodeV5 (header :: tail) =
      (decodeBody (header >>> 4) (header &&& 0x0f) ((tail.drop n).take v.toNat)).map fun r =>
        (r.1, 1 + n + v.toNat) := by
  have hnot : ¬ (header :: tail).length < 1 + n + v.toNat := by
    rw [List.length_cons]
    omega
  have hslice : ((header :: tail).take (1 + n + v.toNat)).drop (1 + n) =
      (tail.drop n).take v.toNat := by
    rw [List.drop_take, Nat.add_comm 1 n, List.drop_succ_cons, Nat.add_sub_cancel_left]
  simp only [decodeV5, hv, bind, Except.bind, pure, Except.pure, if_neg hnot, hslice]
  cases decodeBody (header >>> 4) (header &&& 0x0f) ((tail.drop n).take v.toNat) <;> rfl

theorem complete_of_decodeV5 {x : Bytes} {p : PacketV5} {used : Nat}
    (hd : decodeV5 x = .ok (p, used)) :
    ∃ header tail v n, x = header :: tail ∧ decodeVarInt tail = .ok (v, n) ∧
      n + v.toNat ≤ tail.length := by
  cases x with
  | nil => cases hd
  | cons header tail =>
    obtain ⟨⟨v, n⟩, hv, hd⟩ := Except.bind_eq_ok_iff.1 hd
    refine ⟨header, tail, v, n, rfl, hv, ?_⟩
    by_contra hlen
    have hlt : (header :: tail).length < 1 + n + v.toNat := by
      rw [List.length_cons]
      omega
    dsimp only at hd
    rw [if_pos hlt] at hd
    cases hd

theorem decodeV5_encodeV5 {p : PacketV5} (hp : p.Valid) {b : Bytes} (he : encodeV5 p = .ok b)
    (rest : Bytes) : decodeV5 (b ++ rest) = .ok (p, b.length) := by
  obtain ⟨⟨ty, flags, body⟩, hbody, he⟩ := Except.bind_eq_ok_iff.1 he
  obtain ⟨len, hlen, he⟩ := Except.bind_eq_ok_iff.1 he
  obtain rfl := Except.pure_eq_ok_iff.1 he
  obtain ⟨h₁, h₂⟩ := header_nibbles hbody
  obtain ⟨v, hv, hnat⟩ := decodeVarInt_putLength hlen (body ++ rest)
  simp only [putU8, List.append_assoc, List.cons_append, List.nil_append]
  rw [decodeV5_of_complete hv (by simp [hnat]), List.drop_left, hnat, List.take_left, h₁, h₂,
    decodeBody_encodeBody hp hbody]
  simp [Except.map, Nat.add_comm, Nat.add_assoc]

theorem encodeV5_decodeV5 {x : Bytes} {p : PacketV5} {used : Nat}
    (hd : decodeV5 x = .ok (p, used)) : p.Valid ∧ ∃ b, encodeV5 p = .ok b := by
  obtain ⟨header, tail, v, n, rfl, hv, hlen⟩ := complete_of_decodeV5 hd
  rw [decodeV5_of_complete hv hlen] at hd
  cases hbody : decodeBody (header >>> 4) (header &&& 0x0f) ((tail.drop n).take v.toNat) with
  | error e =>
    rw [hbody] at hd
    cases hd
  | ok r =>
    rw [hbody] at hd
    obtain ⟨rfl, -⟩ := Prod.mk.inj (Except.ok.inj hd)
    obtain ⟨hp, ty, flags, body, he, hle⟩ := encodeBody_decodeBody hbody
    obtain ⟨hpos, h4, -, hlt⟩ := decodeVarInt_eq_ok hv
    -- the body is no longer than one whose length was written in `n` bytes
    have hsmall : body.length < 128 ^ n := by
      have hone : 128 ^ 1 ≤ 128 ^ n := Nat.pow_le_pow_right (by decide) hpos
      rw [List.length_take] at hle
      omega
    obtain ⟨len, hlen, -⟩ := putLength_of_lt hpos h4 hsmall
    exact ⟨hp, _, by rw [encodeV5, he]; simp only [bind, Except.bind, hlen]; rfl⟩

/-- The codec round trips over the whole format.  A packet that obeys the decoder's rules and is
encoded as `b` is decoded from `b` whatever follows, and takes all of `b`; a packet that is decoded
from any input can be encoded, and is decoded from its encoding. -/
theorem codec_round_trip :
    (∀ (p : PacketV5) (b rest : Bytes), p.Valid → encodeV5 p = .ok b →
      decodeV5 (b ++ rest) = .ok (p, b.length)) ∧
    ∀ (x : Bytes) (p : PacketV5) (n : Nat), decodeV5 x = .ok (p, n) →
      ∃ b, encodeV5 p = .ok b ∧ decodeV5 b = .ok (p, b.length) := by
  refine ⟨fun p b rest hp he => decodeV5_encodeV5 hp he rest, fun x p n hd => ?_⟩
  obtain ⟨hp, b, he⟩ := encodeV5_decodeV5 hd
  have := decodeV5_encodeV5 hp he []
  rw [List.append_nil] at this
  exact ⟨b, he, this⟩

/-- A subscription with a property, followed by another frame. -/
theorem codec_round_trip_subscribe :
    decodeV5 ([0x82, 0x08, 0x00, 0x0B, 0x02, 0x0B, 0x05, 0x00, 0x00, 0x2C] ++ [0xC0, 0x00]) =
      .ok (.subscribe ⟨11, [.subscriptionIdentifier 5], [⟨"", .atMostOnce, true, true,
        .doNotSend⟩]⟩, 10) :=
  codec_round_trip.1 _ _ [0xC0, 0x00]
    ⟨⟨by simp [Property.NonzeroId], List.pairwise_singleton _ _⟩, by simp⟩ (by decide)

end CaveHome.Mqtt
