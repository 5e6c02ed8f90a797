import CaveHome.Mqtt.CodecRoundTrip
import CaveHome.Mqtt.V311

/-!
# Round trips of the 3.1.1 codec

A decoder takes no more bytes for a string than the two-byte length can tell, so no decoded packet
has a longer one.  A packet whose strings all fit is decoded from its encoding, whatever follows.
-/

namespace CaveHome.Mqtt.V311

open Decoder

/-! ## Primitive values -/

/-- The length of the string fits in two bytes. -/
def Fits (s : String) : Prop := (Bytes.ofString s).length ≤ 65535

instance (s : String) : Decidable (Fits s) :=
  inferInstanceAs (Decidable ((Bytes.ofString s).length ≤ 65535))

theorem getU16_putU16 (v : UInt16) (rest : Bytes) : getU16 (putU16 v ++ rest) = .ok (v, rest) := by
  have hv := v.toNat_lt
  have hback : UInt16.ofNat (v.toNat / 256 % 256 * 256 + v.toNat % 256) = v := by
    rw [show v.toNat / 256 % 256 * 256 + v.toNat % 256 = v.toNat by omega, UInt16.ofNat_toNat]
  simp [putU16, getU16, hback]

theorem getU16_eq_ok {buf rest : Bytes} {v : UInt16} (h : getU16 buf = .ok (v, rest)) :
    rest.length + 2 = buf.length := by
  match buf with
  | [] => cases h
  | [_] => cases h
  | _ :: _ :: _ =>
    obtain ⟨-, rfl⟩ := Prod.mk.inj (Except.ok.inj h)
    rfl

theorem getU8_eq_ok {buf rest : Bytes} {v : UInt8} (h : getU8 buf = .ok (v, rest)) :
    rest.length + 1 = buf.length := by
  cases buf with
  | nil => cases h
  | cons b buf =>
    obtain ⟨-, rfl⟩ := Prod.mk.inj (Except.ok.inj h)
    rfl

theorem need_of_le {n : Nat} {buf : Bytes} (h : n ≤ buf.length) : need n buf = .ok ((), buf) := by
  rw [need, if_neg (by omega)]

theorem need_bind_eq_ok_iff {α : Type} {n : Nat} {k : Unit → Decode α} {buf : Bytes}
    {r : α × Bytes} : (need n >>= k) buf = .ok r ↔ n ≤ buf.length ∧ k () buf = .ok r := by
  by_cases h : n ≤ buf.length
  · rw [bind_of_ok (need_of_le h)]
    exact ⟨fun hk => ⟨h, hk⟩, And.right⟩
  · constructor
    · intro hk
      obtain ⟨_, mid, hneed, -⟩ := bind_eq_ok_iff.1 hk
      rw [need, if_pos (by omega)] at hneed
      cases hneed
    · exact fun hk => absurd hk.1 h

theorem getRaw_append (raw rest : Bytes) : getRaw raw.length (raw ++ rest) = .ok (raw, rest) := by
  rw [getRaw, bind_of_ok (need_of_le (by simp)), List.take_left, List.drop_left]

theorem getRaw_eq_ok {len : Nat} {buf raw rest : Bytes} (h : getRaw len buf = .ok (raw, rest)) :
    raw.length = len ∧ buf = raw ++ rest := by
  obtain ⟨hlen, h⟩ := need_bind_eq_ok_iff.1 h
  obtain ⟨rfl, rfl⟩ := Prod.mk.inj (Except.ok.inj h)
  exact ⟨by rw [List.length_take]; omega, (List.take_append_drop len buf).symm⟩

theorem length_encodeStr (s : String) :
    (encodeStr s).length = (Bytes.ofString s).length + 2 := by
  simp [encodeStr, putU16]

theorem codec_str : Codec (fun s => .ok (encodeStr s)) decodeStr Fits where
  decode_encode {s b} hs he rest := by
    obtain rfl := Except.ok.inj he
    have hlen : (lengthField (Bytes.ofString s).length).toNat = (Bytes.ofString s).length := by
      have hs : (Bytes.ofString s).length ≤ 65535 := hs
      rw [lengthField, if_pos (by omega), UInt16.toNat_ofNat', Nat.mod_eq_of_lt (by omega)]
    rw [encodeStr, List.append_assoc, decodeStr, bind_of_ok (getU16_putU16 _ _), hlen,
      bind_of_ok (getRaw_append _ _), Bytes.toString?_ofString]
    rfl
  encode_decode {buf s rest} hd := by
    obtain ⟨len, mid, hlen, hd⟩ := bind_eq_ok_iff.1 hd
    obtain ⟨raw, mid', hraw, hd⟩ := bind_eq_ok_iff.1 hd
    obtain ⟨hs, rfl⟩ := fromOption_eq_ok_iff.1 hd
    rw [Bytes.toString?_eq_some_iff] at hs
    obtain ⟨hl, rfl⟩ := getRaw_eq_ok hraw
    have htwo := getU16_eq_ok hlen
    have hlt := len.toNat_lt
    rw [List.length_append] at htwo
    refine ⟨by rw [Fits, hs]; omega, _, rfl, ?_⟩
    rw [length_encodeStr, hs]
    omega

theorem consumes_str : Consumes decodeStr := by
  intro buf s rest hd
  obtain ⟨-, b, hb, hle⟩ := codec_str.encode_decode hd
  obtain rfl := Except.ok.inj hb
  rw [length_encodeStr] at hle
  omega

theorem decodeStr_encodeStr {s : String} (h : Fits s) (rest : Bytes) :
    decodeStr (encodeStr s ++ rest) = .ok (s, rest) := codec_str.decode_encode h rfl rest

theorem getU8_putU8 (v : UInt8) (rest : Bytes) : getU8 (putU8 v ++ rest) = .ok (v, rest) := rfl

theorem decodeVarInt_remainingLength {len : Nat} {b : Bytes}
    (h : encodeVarInt (remainingLength len) = .ok b) (rest : Bytes) :
    ∃ v : UInt32, decodeVarInt (b ++ rest) = .ok (v, b.length) ∧ v.toNat = len := by
  unfold encodeVarInt at h
  split at h
  next b' hloop =>
    obtain rfl := Except.ok.inj h
    have hsmall : len < 4294967296 := by
      by_contra hbig
      rw [remainingLength, if_neg hbig] at hloop
      cases hloop
    have hnat : (remainingLength len).toNat = len := by
      rw [remainingLength, if_pos hsmall, UInt32.toNat_ofNat', Nat.mod_eq_of_lt hsmall]
    refine ⟨remainingLength len, ?_, hnat⟩
    simp [decodeVarInt, varIntLoop_encode hloop rest 0 1 0]
  next => cases h

theorem encodeVarInt_remainingLength {len : Nat} (h : len < 128 ^ 4) :
    ∃ b, encodeVarInt (remainingLength len) = .ok b := by
  have hnat : (remainingLength len).toNat = len := by
    rw [remainingLength, if_pos (by omega), UInt32.toNat_ofNat', Nat.mod_eq_of_lt (by omega)]
  obtain ⟨b, hb, -⟩ : ∃ b, encodeVarIntLoop 4 len = .ok b ∧ b.length ≤ 4 :=
    encodeVarIntLoop_of_lt (by decide) (Nat.le_refl 4) h
  exact ⟨b, by rw [encodeVarInt, hnat, hb]⟩

/-! ## Lists -/

theorem encodeAll_ok {α : Type} (f : α → Bytes) (as : List α) :
    encodeAll (fun a => (.ok (f a) : Encoded)) as = .ok (as.flatMap f) := by
  induction as with
  | nil => rfl
  | cons a as ih =>
    rw [encodeAll, ih]
    rfl

theorem many_flatMap {α : Type} {f : α → Bytes} {dec : Decode α} {P : α → Prop}
    (hcodec : Codec (fun a => .ok (f a)) dec P) (hconsumes : Consumes dec) {as : List α}
    (h : ∀ a ∈ as, P a) : many dec (as.flatMap f) = .ok (as, []) :=
  hcodec.many_encodeAll hconsumes h (encodeAll_ok f as)

theorem codec_subscription :
    Codec (fun s => .ok (encodeSubscription s)) decodeSubscription fun s => Fits s.topicFilter where
  decode_encode {s b} hs he rest := by
    obtain rfl := Except.ok.inj he
    rw [encodeSubscription, List.append_assoc, decodeSubscription,
      bind_of_ok (decodeStr_encodeStr hs _), bind_of_ok (getU8_putU8 _ _), QoS.fromU8_toU8]
    rfl
  encode_decode {buf s rest} hd := by
    obtain ⟨topicFilter, mid, htopic, hd⟩ := bind_eq_ok_iff.1 hd
    obtain ⟨q, mid', hq, hd⟩ := bind_eq_ok_iff.1 hd
    obtain ⟨qos, m, hqos, hd⟩ := bind_eq_ok_iff.1 hd
    obtain ⟨-, rfl⟩ := fromOption_eq_ok_iff.1 hqos
    obtain ⟨rfl, rfl⟩ := Prod.mk.inj (Except.ok.inj hd)
    obtain ⟨hfits, b, hb, hle⟩ := codec_str.encode_decode htopic
    obtain rfl := Except.ok.inj hb
    have hone := getU8_eq_ok hq
    refine ⟨hfits, _, rfl, ?_⟩
    simp only [encodeSubscription, putU8, List.length_append, List.length_singleton]
    omega

theorem consumes_subscription : Consumes decodeSubscription := by
  intro buf s rest hd
  obtain ⟨-, b, hb, hle⟩ := codec_subscription.encode_decode hd
  obtain rfl := Except.ok.inj hb
  simp only [encodeSubscription, putU8, List.length_append, List.length_singleton] at hle
  omega

theorem codec_subackCode :
    Codec (fun code : SubAckReturnCode => .ok (putU8 code.toU8)) decodeSubackCode
      fun _ => True where
  decode_encode {code b} _ he rest := by
    obtain rfl := Except.ok.inj he
    rw [decodeSubackCode, bind_of_ok (getU8_putU8 _ _), SubAckReturnCode.fromU8_toU8]
    rfl
  encode_decode {buf code rest} hd := by
    obtain ⟨q, mid, hq, hd⟩ := bind_eq_ok_iff.1 hd
    obtain ⟨-, rfl⟩ := fromOption_eq_ok_iff.1 hd
    have hone := getU8_eq_ok hq
    refine ⟨trivial, _, rfl, ?_⟩
    simp only [putU8, List.length_singleton]
    omega

theorem consumes_subackCode : Consumes decodeSubackCode := by
  intro buf code rest hd
  obtain ⟨-, b, hb, hle⟩ := codec_subackCode.encode_decode hd
  obtain rfl := Except.ok.inj hb
  simp only [putU8, List.length_singleton] at hle
  omega

/-! ## Bodies -/

/-- The strings of a packet. -/
def Packet.strings : Packet → List String
  | .connect c => [c.clientId]
  | .publish p => [p.topic]
  | .subscribe s => s.subscriptions.map (·.topicFilter)
  | .unsubscribe u => u.topicFilters
  | _ => []

/-- The lists of filters are not empty, and a publish has an identifier unless it is sent at the
lowest quality of service. -/
def Packet.Regular : Packet → Prop
  | .publish p => p.packetId = none ↔ p.qos = .atMostOnce
  | .subscribe s => s.subscriptions ≠ []
  | .unsubscribe u => u.topicFilters ≠ []
  | _ => True

theorem decodeConnect_encodeConnect {c : Connect} (h : Fits c.clientId) :
    decodeConnect (encodeConnect c) = .ok (c, []) := by
  have hname : Fits "MQTT" := by decide
  have hflag : decide (flag c.cleanSession 0x02 &&& 0x02 ≠ 0) = c.cleanSession := by
    cases c.cleanSession <;> decide
  have hid := decodeStr_encodeStr h []
  rw [List.append_nil] at hid
  simp only [encodeConnect, List.append_assoc]
  rw [decodeConnect, bind_of_ok (decodeStr_encodeStr hname _), require_bind_of rfl,
    bind_of_ok (need_of_le (by simp [putU8, putU16])), bind_of_ok (getU8_putU8 _ _),
    require_bind_of rfl, bind_of_ok (getU8_putU8 _ _), bind_of_ok (getU16_putU16 _ _),
    bind_of_ok hid, hflag]
  rfl

theorem decodeConnack_encodeConnack (c : ConnAck) :
    decodeConnack (encodeConnack c) = .ok (c, []) := by
  have hflag : decide (flag c.sessionPresent 0x01 &&& 0x01 ≠ 0) = c.sessionPresent := by
    cases c.sessionPresent <;> decide
  rw [decodeConnack, bind_of_ok (need_of_le (by simp [encodeConnack, putU8])), encodeConnack,
    bind_of_ok (getU8_putU8 _ _), ← List.append_nil (putU8 c.returnCode.toU8),
    bind_of_ok (getU8_putU8 _ _), ConnAckReturnCode.fromU8_toU8, hflag]
  rfl

theorem decodePublish_encodePublish {p : Publish} {b : Bytes} (hfits : Fits p.topic)
    (hreg : p.packetId = none ↔ p.qos = .atMostOnce) (he : encodePublish p = .ok b) :
    decodePublish (publishFlags p.dup p.qos p.retain) b = .ok (p, []) := by
  obtain ⟨hdup, hqos, hretain⟩ := publishFlags_bits p.dup p.qos p.retain
  obtain ⟨packetId, hid, he⟩ := Except.bind_eq_ok_iff.1 he
  obtain rfl := Except.pure_eq_ok_iff.1 he
  have hread : decodePacketId p.qos (packetId ++ p.payload) = .ok (p.packetId, p.payload) := by
    unfold encodePacketId at hid
    unfold decodePacketId
    split at hid
    next hne =>
      rw [if_neg hne]
      split at hid
      next pid hpid =>
        obtain rfl := Except.ok.inj hid
        rw [hpid]
        exact map_of_ok (getU16_putU16 pid _)
      next => cases hid
    next hlow =>
      obtain rfl := Except.ok.inj hid
      rw [if_pos (not_not.mp hlow), hreg.mpr (not_not.mp hlow)]
      rfl
  rw [decodePublish, hqos, QoS.fromU8_toU8, hdup, hretain]
  rw [show fromOption (.badQoS p.qos.toU8) (some p.qos) = (pure p.qos : Decode QoS) from rfl,
    pure_bind, List.append_assoc, bind_of_ok (decodeStr_encodeStr hfits _), bind_of_ok hread]
  rfl

theorem decodeSubscribe_encodeSubscribe {s : Subscribe}
    (hfits : ∀ sub ∈ s.subscriptions, Fits sub.topicFilter) (hreg : s.subscriptions ≠ []) :
    decodeSubscribe 0x02 (encodeSubscribe s) = .ok (s, []) := by
  rw [decodeSubscribe, requireReserved, require_bind_of rfl, encodeSubscribe,
    bind_of_ok (getU16_putU16 _ _),
    bind_of_ok (many_flatMap codec_subscription consumes_subscription hfits), require_bind_of hreg]
  rfl

theorem decodeUnsubscribe_encodeUnsubscribe {u : Unsubscribe}
    (hfits : ∀ f ∈ u.topicFilters, Fits f) (hreg : u.topicFilters ≠ []) :
    decodeUnsubscribe 0x02 (encodeUnsubscribe u) = .ok (u, []) := by
  rw [decodeUnsubscribe, requireReserved, require_bind_of rfl, encodeUnsubscribe,
    bind_of_ok (getU16_putU16 _ _), bind_of_ok (many_flatMap codec_str consumes_str hfits),
    require_bind_of hreg]
  rfl

theorem decodeSuback_encodeSuback (a : SubAck) : decodeSuback (encodeSuback a) = .ok (a, []) := by
  rw [decodeSuback, encodeSuback, bind_of_ok (getU16_putU16 _ _),
    bind_of_ok (many_flatMap codec_subackCode consumes_subackCode fun _ _ => trivial)]
  rfl

theorem map_getU16_putU16 (mk : UInt16 → Packet) (v : UInt16) :
    (mk <$> getU16) (putU16 v) = .ok (mk v, []) := by
  have hread := getU16_putU16 v []
  rw [List.append_nil] at hread
  exact map_of_ok hread

theorem decodeBody_encodeBody {p : Packet} {flags : UInt8} {body : Bytes} (hreg : p.Regular)
    (hfits : ∀ s ∈ p.strings, Fits s) (he : encodeBody p = .ok (flags, body)) :
    decodeBody flags p.packetType body = .ok (p, []) := by
  cases p with
  | connect c =>
    obtain ⟨-, rfl⟩ := Prod.mk.inj (Except.ok.inj he)
    exact map_of_ok (decodeConnect_encodeConnect (hfits _ (by simp [Packet.strings])))
  | connAck c =>
    obtain ⟨-, rfl⟩ := Prod.mk.inj (Except.ok.inj he)
    exact map_of_ok (decodeConnack_encodeConnack c)
  | publish p =>
    obtain ⟨b, hb, he⟩ := Except.bind_eq_ok_iff.1 he
    obtain ⟨rfl, rfl⟩ := Prod.mk.inj (Except.pure_eq_ok_iff.1 he)
    exact map_of_ok
      (decodePublish_encodePublish (hfits _ (by simp [Packet.strings])) hreg hb)
  | subscribe s =>
    obtain ⟨rfl, rfl⟩ := Prod.mk.inj (Except.ok.inj he)
    refine map_of_ok (decodeSubscribe_encodeSubscribe (fun sub hsub => ?_) hreg)
    exact hfits _ (List.mem_map_of_mem hsub)
  | subAck a =>
    obtain ⟨-, rfl⟩ := Prod.mk.inj (Except.ok.inj he)
    exact map_of_ok (decodeSuback_encodeSuback a)
  | unsubscribe u =>
    obtain ⟨rfl, rfl⟩ := Prod.mk.inj (Except.ok.inj he)
    exact map_of_ok (decodeUnsubscribe_encodeUnsubscribe hfits hreg)
  | pubRel packetId =>
    obtain ⟨rfl, rfl⟩ := Prod.mk.inj (Except.ok.inj he)
    show (requireReserved 0x02 >>= fun _ => Packet.pubRel <$> getU16) (putU16 packetId) = _
    rw [requireReserved, require_bind_of rfl]
    exact map_getU16_putU16 _ packetId
  | unsubAck packetId | pubAck packetId | pubRec packetId | pubComp packetId =>
    obtain ⟨-, rfl⟩ := Prod.mk.inj (Except.ok.inj he)
    exact map_getU16_putU16 _ packetId
  | pingReq | pingResp | disconnect =>
    obtain ⟨-, rfl⟩ := Prod.mk.inj (Except.ok.inj he)
    rfl

theorem fits_of_decodeBody {flags : UInt8} {ty : PacketType} {p : Packet} {buf rest : Bytes}
    (h : decodeBody flags ty buf = .ok (p, rest)) : ∀ s ∈ p.strings, Fits s := by
  cases ty with
  | connect =>
    obtain ⟨c, hc, rfl⟩ := map_eq_ok_iff.1 h
    obtain ⟨name, m₁, -, hc⟩ := bind_eq_ok_iff.1 hc
    obtain ⟨-, hc⟩ := require_bind_eq_ok_iff.1 hc
    obtain ⟨-, hc⟩ := need_bind_eq_ok_iff.1 hc
    obtain ⟨level, m₂, -, hc⟩ := bind_eq_ok_iff.1 hc
    obtain ⟨-, hc⟩ := require_bind_eq_ok_iff.1 hc
    obtain ⟨flags, m₃, -, hc⟩ := bind_eq_ok_iff.1 hc
    obtain ⟨keepAlive, m₄, -, hc⟩ := bind_eq_ok_iff.1 hc
    obtain ⟨clientId, m₅, hid, hc⟩ := bind_eq_ok_iff.1 hc
    obtain ⟨rfl, -⟩ := Prod.mk.inj (Except.ok.inj hc)
    simpa [Packet.strings] using (codec_str.encode_decode hid).1
  | publish =>
    obtain ⟨q, hq, rfl⟩ := map_eq_ok_iff.1 h
    obtain ⟨qos, m₁, -, hq⟩ := bind_eq_ok_iff.1 hq
    obtain ⟨topic, m₂, htopic, hq⟩ := bind_eq_ok_iff.1 hq
    obtain ⟨packetId, m₃, -, hq⟩ := bind_eq_ok_iff.1 hq
    obtain ⟨payload, m₄, -, hq⟩ := bind_eq_ok_iff.1 hq
    obtain ⟨rfl, -⟩ := Prod.mk.inj (Except.ok.inj hq)
    simpa [Packet.strings] using (codec_str.encode_decode htopic).1
  | subscribe =>
    obtain ⟨s, hs, rfl⟩ := map_eq_ok_iff.1 h
    obtain ⟨-, hs⟩ := require_bind_eq_ok_iff.1 hs
    obtain ⟨packetId, m₁, -, hs⟩ := bind_eq_ok_iff.1 hs
    obtain ⟨subscriptions, m₂, hsubs, hs⟩ := bind_eq_ok_iff.1 hs
    obtain ⟨-, hs⟩ := require_bind_eq_ok_iff.1 hs
    obtain ⟨rfl, -⟩ := Prod.mk.inj (Except.ok.inj hs)
    have hfits := (codec_subscription.encodeAll_many consumes_subscription hsubs).2.1
    simpa [Packet.strings] using hfits
  | unsubscribe =>
    obtain ⟨u, hu, rfl⟩ := map_eq_ok_iff.1 h
    obtain ⟨-, hu⟩ := require_bind_eq_ok_iff.1 hu
    obtain ⟨packetId, m₁, -, hu⟩ := bind_eq_ok_iff.1 hu
    obtain ⟨topicFilters, m₂, hfilters, hu⟩ := bind_eq_ok_iff.1 hu
    obtain ⟨-, hu⟩ := require_bind_eq_ok_iff.1 hu
    obtain ⟨rfl, -⟩ := Prod.mk.inj (Except.ok.inj hu)
    exact (codec_str.encodeAll_many consumes_str hfilters).2.1
  | pubRel =>
    obtain ⟨-, h⟩ := require_bind_eq_ok_iff.1 h
    obtain ⟨packetId, -, rfl⟩ := map_eq_ok_iff.1 h
    simp [Packet.strings]
  | _ =>
    obtain ⟨x, -, rfl⟩ := map_eq_ok_iff.1 h
    simp [Packet.strings]

/-! ## Frames -/

theorem header_nibbles {p : Packet} {flags : UInt8} {body : Bytes}
    (h : encodeBody p = .ok (flags, body)) :
    PacketType.fromU8 (((p.packetType.toU8 <<< 4) ||| (flags &&& 0x0f)) >>> 4) =
        some p.packetType ∧
      ((p.packetType.toU8 <<< 4) ||| (flags &&& 0x0f)) &&& 0x0f = flags := by
  cases p with
  | publish p =>
    obtain ⟨b, hb, h⟩ := Except.bind_eq_ok_iff.1 h
    obtain ⟨rfl, rfl⟩ := Prod.mk.inj (Except.pure_eq_ok_iff.1 h)
    simp only [Packet.packetType]
    generalize p.dup = dup
    generalize p.qos = qos
    generalize p.retain = retain
    cases dup <;> cases qos <;> cases retain <;> decide
  | _ =>
    obtain ⟨rfl, -⟩ := Prod.mk.inj (Except.ok.inj h)
    simp only [Packet.packetType]
    decide

theorem decodePacket_of_complete {header : UInt8} {tail : Bytes} {v : UInt32} {n : Nat}
    {ty : PacketType} (hty : PacketType.fromU8 (header >>> 4) = some ty)
    (hv : decodeVarInt tail = .ok (v, n)) (hlen : n + v.toNat ≤ tail.length) :
    decodePacket (header :: tail) =
      (decodeBody (header &&& 0x0f) ty ((tail.drop n).take v.toNat)).map fun r =>
        (r.1, 1 + n + v.toNat) := by
  have hnot : ¬ (header :: tail).length < 1 + n + v.toNat := by
    rw [List.length_cons]
    omega
  have hslice : ((header :: tail).take (1 + n + v.toNat)).drop (1 + n) =
      (tail.drop n).take v.toNat := by
    rw [List.drop_take, Nat.add_comm 1 n, List.drop_succ_cons, Nat.add_sub_cancel_left]
  simp only [decodePacket, hty, hv, bind, Except.bind, pure, Except.pure, if_neg hnot, hslice]
  cases decodeBody (header &&& 0x0f) ty ((tail.drop n).take v.toNat) <;> rfl

theorem body_of_decodePacket {x : Bytes} {p : Packet} {used : Nat}
    (hd : decodePacket x = .ok (p, used)) :
    ∃ flags ty buf rest, decodeBody flags ty buf = .ok (p, rest) := by
  cases x with
  | nil => cases hd
  | cons header tail =>
    unfold decodePacket at hd
    dsimp only at hd
    split at hd
    · cases hd
    obtain ⟨⟨v, n⟩, -, hd⟩ := Except.bind_eq_ok_iff.1 hd
    dsimp only at hd
    split at hd
    · cases hd
    obtain ⟨⟨q, rest⟩, hbody, hd⟩ := Except.bind_eq_ok_iff.1 hd
    obtain ⟨rfl, -⟩ := Prod.mk.inj (Except.pure_eq_ok_iff.1 hd)
    exact ⟨_, _, _, rest, hbody⟩

theorem decodePacket_encodePacket {p : Packet} {b : Bytes} (hreg : p.Regular)
    (hfits : ∀ s ∈ p.strings, Fits s) (he : encodePacket p = .ok b) (rest : Bytes) :
    decodePacket (b ++ rest) = .ok (p, b.length) := by
  obtain ⟨⟨flags, body⟩, hbody, he⟩ := Except.bind_eq_ok_iff.1 he
  obtain ⟨len, hlen, he⟩ := Except.bind_eq_ok_iff.1 he
  obtain rfl := Except.pure_eq_ok_iff.1 he
  obtain ⟨htype, hflags⟩ := header_nibbles hbody
  obtain ⟨v, hv, hnat⟩ := decodeVarInt_remainingLength hlen (body ++ rest)
  simp only [putU8, List.append_assoc, List.cons_append, List.nil_append]
  rw [decodePacket_of_complete htype hv (by simp [hnat]), List.drop_left, hnat, List.take_left,
    hflags, decodeBody_encodeBody hreg hfits hbody]
  simp [Except.map, Nat.add_comm, Nat.add_assoc]

/-- An encoded packet is decoded, whatever follows, exactly when its strings fit. -/
theorem packet_round_trip_iff {p : Packet} {b : Bytes} (hreg : p.Regular)
    (he : encodePacket p = .ok b) (rest : Bytes) :
    decodePacket (b ++ rest) = .ok (p, b.length) ↔ ∀ s ∈ p.strings, Fits s := by
  constructor
  · intro hd
    obtain ⟨flags, ty, buf, rest, hbody⟩ := body_of_decodePacket hd
    exact fits_of_decodeBody hbody
  · intro hfits
    exact decodePacket_encodePacket hreg hfits he rest

/-- A subscription to two topics, followed by a ping. -/
theorem packet_round_trip_subscribe :
    decodePacket ([0x82, 0x0B, 0x00, 0x07, 0x00, 0x01, 0x61, 0x01, 0x00, 0x02, 0xC3, 0xA9, 0x02] ++
        [0xC0, 0x00]) =
      .ok (.subscribe ⟨7, [⟨"a", .atLeastOnce⟩, ⟨"é", .exactlyOnce⟩]⟩, 13) :=
  (packet_round_trip_iff (by simp [Packet.Regular]) (by decide) [0xC0, 0x00]).mpr (by decide)

/-- A client whose identifier has so many letters. -/
def lettersConnect (n : Nat) : Connect := ⟨String.ofList (List.replicate n 'a'), true, 60⟩

theorem letters_length (n : Nat) : (Bytes.ofString (lettersConnect n).clientId).length = n := by
  have hascii : ∀ c ∈ List.replicate n 'a', c.toNat < 128 := by
    intro c hc
    rw [List.eq_of_mem_replicate hc]
    decide
  rw [lettersConnect, Bytes.ofString_ofList hascii, List.length_map, List.length_replicate]

theorem letters_encodes {n : Nat} (h : n + 12 < 128 ^ 4) :
    ∃ b, encodePacket (.connect (lettersConnect n)) = .ok b := by
  have hname : (encodeStr "MQTT").length = 6 := by decide
  have hlen : (encodeConnect (lettersConnect n)).length = n + 12 := by
    simp only [encodeConnect, List.length_append, hname, length_encodeStr, letters_length,
      putU8, putU16, List.length_cons, List.length_nil]
    omega
  obtain ⟨len, hlen⟩ := encodeVarInt_remainingLength (hlen ▸ h)
  exact ⟨_, by rw [encodePacket, encodeBody]; simp only [bind, Except.bind, hlen]; rfl⟩

/-- A client with an identifier of 65536 letters: its packet is encoded, and what is decoded from
that is not the packet. -/
theorem packet_round_trip_long :
    ¬ ∀ (p : Packet) (b rest : Bytes), p.Regular → encodePacket p = .ok b →
      decodePacket (b ++ rest) = .ok (p, b.length) := by
  intro h
  obtain ⟨n, hn⟩ : ∃ n, n = 65536 := ⟨_, rfl⟩
  obtain ⟨b, hb⟩ := letters_encodes (n := n) (by omega)
  obtain ⟨flags, ty, buf, rest, hbody⟩ := body_of_decodePacket (h (.connect _) b [] trivial hb)
  have hfits : Fits (lettersConnect n).clientId :=
    fits_of_decodeBody hbody _ (by simp [Packet.strings])
  rw [Fits, letters_length] at hfits
  omega

end CaveHome.Mqtt.V311
