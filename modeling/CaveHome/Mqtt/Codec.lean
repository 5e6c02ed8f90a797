import CaveHome.Mqtt.Property

/-!
# Control packets

The packets of MQTT 5.0 and the reason codes they carry.  Packets of one shape share a structure.
-/

namespace CaveHome.Mqtt

/-- The status byte of a reply. -/
inductive ReasonCode
  | success
  | grantedQoS1
  | grantedQoS2
  | disconnectWithWill
  | noMatchingSubscribers
  | noSubscriptionExisted
  | continueAuthentication
  | reAuthenticate
  | unspecifiedError
  | malformedPacket
  | protocolError
  | implementationSpecificError
  | unsupportedProtocolVersion
  | clientIdentifierNotValid
  | badUserNameOrPassword
  | notAuthorized
  | serverUnavailable
  | serverBusy
  | banned
  | serverShuttingDown
  | badAuthenticationMethod
  | keepAliveTimeout
  | sessionTakenOver
  | topicFilterInvalid
  | topicNameInvalid
  | packetIdentifierInUse
  | packetIdentifierNotFound
  | receiveMaximumExceeded
  | topicAliasInvalid
  | packetTooLarge
  | messageRateTooHigh
  | quotaExceeded
  | administrativeAction
  | payloadFormatInvalid
  | retainNotSupported
  | qoSNotSupported
  | useAnotherServer
  | serverMoved
  | sharedSubscriptionsNotSupported
  | connectionRateExceeded
  | maximumConnectTime
  | subscriptionIdentifiersNotSupported
  | wildcardSubscriptionsNotSupported
  deriving DecidableEq

namespace ReasonCode

def toU8 : ReasonCode → UInt8
  | success => 0x00
  | grantedQoS1 => 0x01
  | grantedQoS2 => 0x02
  | disconnectWithWill => 0x04
  | noMatchingSubscribers => 0x10
  | noSubscriptionExisted => 0x11
  | continueAuthentication => 0x18
  | reAuthenticate => 0x19
  | unspecifiedError => 0x80
  | malformedPacket => 0x81
  | protocolError => 0x82
  | implementationSpecificError => 0x83
  | unsupportedProtocolVersion => 0x84
  | clientIdentifierNotValid => 0x85
  | badUserNameOrPassword => 0x86
  | notAuthorized => 0x87
  | serverUnavailable => 0x88
  | serverBusy => 0x89
  | banned => 0x8A
  | serverShuttingDown => 0x8B
  | badAuthenticationMethod => 0x8C
  | keepAliveTimeout => 0x8D
  | sessionTakenOver => 0x8E
  | topicFilterInvalid => 0x8F
  | topicNameInvalid => 0x90
  | packetIdentifierInUse => 0x91
  | packetIdentifierNotFound => 0x92
  | receiveMaximumExceeded => 0x93
  | topicAliasInvalid => 0x94
  | packetTooLarge => 0x95
  | messageRateTooHigh => 0x96
  | quotaExceeded => 0x97
  | administrativeAction => 0x98
  | payloadFormatInvalid => 0x99
  | retainNotSupported => 0x9A
  | qoSNotSupported => 0x9B
  | useAnotherServer => 0x9C
  | serverMoved => 0x9D
  | sharedSubscriptionsNotSupported => 0x9E
  | connectionRateExceeded => 0x9F
  | maximumConnectTime => 0xA0
  | subscriptionIdentifiersNotSupported => 0xA1
  | wildcardSubscriptionsNotSupported => 0xA2

def fromU8 (b : UInt8) : Option ReasonCode :=
  match b with
  | 0x00 => some success
  | 0x01 => some grantedQoS1
  | 0x02 => some grantedQoS2
  | 0x04 => some disconnectWithWill
  | 0x10 => some noMatchingSubscribers
  | 0x11 => some noSubscriptionExisted
  | 0x18 => some continueAuthentication
  | 0x19 => some reAuthenticate
  | 0x80 => some unspecifiedError
  | 0x81 => some malformedPacket
  | 0x82 => some protocolError
  | 0x83 => some implementationSpecificError
  | 0x84 => some unsupportedProtocolVersion
  | 0x85 => some clientIdentifierNotValid
  | 0x86 => some badUserNameOrPassword
  | 0x87 => some notAuthorized
  | 0x88 => some serverUnavailable
  | 0x89 => some serverBusy
  | 0x8A => some banned
  | 0x8B => some serverShuttingDown
  | 0x8C => some badAuthenticationMethod
  | 0x8D => some keepAliveTimeout
  | 0x8E => some sessionTakenOver
  | 0x8F => some topicFilterInvalid
  | 0x90 => some topicNameInvalid
  | 0x91 => some packetIdentifierInUse
  | 0x92 => some packetIdentifierNotFound
  | 0x93 => some receiveMaximumExceeded
  | 0x94 => some topicAliasInvalid
  | 0x95 => some packetTooLarge
  | 0x96 => some messageRateTooHigh
  | 0x97 => some quotaExceeded
  | 0x98 => some administrativeAction
  | 0x99 => some payloadFormatInvalid
  | 0x9A => some retainNotSupported
  | 0x9B => some qoSNotSupported
  | 0x9C => some useAnotherServer
  | 0x9D => some serverMoved
  | 0x9E => some sharedSubscriptionsNotSupported
  | 0x9F => some connectionRateExceeded
  | 0xA0 => some maximumConnectTime
  | 0xA1 => some subscriptionIdentifiersNotSupported
  | 0xA2 => some wildcardSubscriptionsNotSupported
  | _ => none

theorem fromU8_toU8 (r : ReasonCode) : fromU8 r.toU8 = some r := by
  cases r <;> rfl

end ReasonCode

theorem QoS.fromU8_toU8 (q : QoS) : QoS.fromU8 q.toU8 = some q := by
  cases q <;> rfl

/-- When retained messages are sent to a new subscription. -/
inductive RetainHandling
  | sendOnSubscribe
  | sendIfNew
  | doNotSend
  deriving DecidableEq

namespace RetainHandling

def toU8 : RetainHandling → UInt8
  | sendOnSubscribe => 0
  | sendIfNew => 1
  | doNotSend => 2

def fromU8 (b : UInt8) : Option RetainHandling :=
  match b with
  | 0 => some sendOnSubscribe
  | 1 => some sendIfNew
  | 2 => some doNotSend
  | _ => none

end RetainHandling

/-- The message published when the client goes away. -/
structure Will where
  topic : String
  payload : Bytes
  qos : QoS
  retain : Bool
  properties : List Property
  deriving DecidableEq

structure ConnectV5 where
  clientId : String
  cleanStart : Bool
  keepAliveSecs : UInt16
  properties : List Property
  will : Option Will
  username : Option String
  password : Option Bytes
  deriving DecidableEq

structure ConnAckV5 where
  sessionPresent : Bool
  reasonCode : ReasonCode
  properties : List Property
  deriving DecidableEq

structure PublishV5 where
  topic : String
  qos : QoS
  retain : Bool
  dup : Bool
  packetId : Option UInt16
  properties : List Property
  payload : Bytes
  deriving DecidableEq

/-- The shape of the four acknowledgements of a publish. -/
structure AckV5 where
  packetId : UInt16
  reasonCode : ReasonCode
  properties : List Property
  deriving DecidableEq

abbrev PubAckV5 := AckV5
abbrev PubRecV5 := AckV5
abbrev PubRelV5 := AckV5
abbrev PubCompV5 := AckV5

structure SubscriptionV5 where
  topicFilter : String
  qos : QoS
  noLocal : Bool
  retainAsPublished : Bool
  retainHandling : RetainHandling
  deriving DecidableEq

structure SubscribeV5 where
  packetId : UInt16
  properties : List Property
  subscriptions : List SubscriptionV5
  deriving DecidableEq

/-- The shape of the replies to a subscribe and an unsubscribe. -/
structure CodesV5 where
  packetId : UInt16
  properties : List Property
  reasonCodes : List ReasonCode
  deriving DecidableEq

abbrev SubAckV5 := CodesV5
abbrev UnsubAckV5 := CodesV5

structure UnsubscribeV5 where
  packetId : UInt16
  properties : List Property
  topicFilters : List String
  deriving DecidableEq

/-- The shape of the packets that carry a reason only. -/
structure ReasonV5 where
  reasonCode : ReasonCode
  properties : List Property
  deriving DecidableEq

abbrev DisconnectV5 := ReasonV5
abbrev AuthV5 := ReasonV5

/-- A control packet. -/
inductive PacketV5
  | connect (c : ConnectV5)
  | connAck (c : ConnAckV5)
  | publish (p : PublishV5)
  | pubAck (a : PubAckV5)
  | pubRec (a : PubRecV5)
  | pubRel (a : PubRelV5)
  | pubComp (a : PubCompV5)
  | subscribe (s : SubscribeV5)
  | subAck (s : SubAckV5)
  | unsubscribe (u : UnsubscribeV5)
  | unsubAck (u : UnsubAckV5)
  | pingReq
  | pingResp
  | disconnect (d : DisconnectV5)
  | auth (a : AuthV5)
  deriving DecidableEq

end CaveHome.Mqtt

/-!
## The packet codec

A packet is a fixed header of type and flags, the length of the body, and the body.  Encoders
return the bytes they append; a body is decoded from the slice that the length cuts out, and bytes
of it that no field takes are ignored.
-/

namespace CaveHome.Mqtt

/-- The flags of PUBREL, SUBSCRIBE and UNSUBSCRIBE. -/
def reserved0010 : UInt8 := 0x02

/-- A bit of a flag byte. -/
def flag (set : Bool) (mask : UInt8) : UInt8 := if set then mask else 0

/-- Decode a value only if it is present. -/
def decodeIf {α : Type} (present : Bool) (d : Decode α) : Decode (Option α) :=
  if present then some <$> d else pure none

/-- Nothing for an absent value. -/
def encodeOption {α : Type} (enc : α → Encoded) : Option α → Encoded
  | none => .ok []
  | some a => enc a

/-- A reason code; `packet` names the packet in the error. -/
def decodeReason (packet : String) : Decode ReasonCode := do
  let code ← getU8
  Decoder.fromOption (.badReasonCode packet code) (ReasonCode.fromU8 code)

/-! ## CONNECT and CONNACK -/

/-- The bits of CONNECT that describe the will. -/
def willFlags : Option (QoS × Bool) → UInt8
  | some (qos, retain) => (0x04 : UInt8) ||| (qos.toU8 <<< 3) ||| flag retain 0x20
  | none => 0

/-- The flag byte of CONNECT. -/
def connectFlags (username password : Bool) (will : Option (QoS × Bool)) (cleanStart : Bool) :
    UInt8 :=
  flag username 0x80 ||| flag password 0x40 ||| willFlags will ||| flag cleanStart 0x02

def encodeWill (w : Will) : Encoded := do
  let properties ← encodeProperties w.properties
  let topic ← putString w.topic
  let payload ← putBinary w.payload
  return properties ++ topic ++ payload

def encodeConnect (c : ConnectV5) : Encoded := do
  let name ← putString "MQTT"
  let flags := connectFlags c.username.isSome c.password.isSome
    (c.will.map fun w => (w.qos, w.retain)) c.cleanStart
  let properties ← encodeProperties c.properties
  let clientId ← putString c.clientId
  let will ← encodeOption encodeWill c.will
  let username ← encodeOption putString c.username
  let password ← encodeOption putBinary c.password
  return name ++ putU8 5 ++ putU8 flags ++ putU16 c.keepAliveSecs ++ properties ++ clientId ++
    will ++ username ++ password

def decodeWill (flags : UInt8) : Decode (Option Will) := do
  if flags &&& 0x04 ≠ 0 then
    let properties ← decodeProperties
    let topic ← getString
    let payload ← getBinary
    let qos ← Decoder.fromOption (.badQoS ((flags >>> 3) &&& 0x03))
      (QoS.fromU8 ((flags >>> 3) &&& 0x03))
    return some { topic, payload, qos, retain := flags &&& 0x20 ≠ 0, properties }
  else if (flags >>> 3) &&& 0x03 ≠ 0 ∨ flags &&& 0x20 ≠ 0 then
    throw (.malformed "Will QoS/Retain set without Will Flag")
  else return none

def decodeConnect : Decode ConnectV5 := do
  let name ← getString
  Decoder.require (name = "MQTT") (.badProtocolName name)
  let level ← getU8
  Decoder.require (level = 5) (.badProtocolLevel level)
  let flags ← getU8
  Decoder.require (flags &&& 0x01 = 0) (.malformed "CONNECT reserved flag bit 0 must be 0")
  let keepAliveSecs ← getU16
  let properties ← decodeProperties
  let clientId ← getString
  let will ← decodeWill flags
  let username ← decodeIf (flags &&& 0x80 ≠ 0) getString
  let password ← decodeIf (flags &&& 0x40 ≠ 0) getBinary
  return { clientId, cleanStart := flags &&& 0x02 ≠ 0, keepAliveSecs, properties, will, username,
           password }

def encodeConnack (c : ConnAckV5) : Encoded := do
  let properties ← encodeProperties c.properties
  return putU8 (flag c.sessionPresent 1) ++ putU8 c.reasonCode.toU8 ++ properties

def decodeConnack : Decode ConnAckV5 := do
  let ackFlags ← getU8
  let reasonCode ← decodeReason "CONNACK"
  let properties ← decodeProperties
  return { sessionPresent := ackFlags &&& 0x01 ≠ 0, reasonCode, properties }

/-! ## PUBLISH -/

/-- The flags of PUBLISH. -/
def publishFlags (dup : Bool) (qos : QoS) (retain : Bool) : UInt8 :=
  (flag dup 1 <<< 3) ||| (qos.toU8 <<< 1) ||| flag retain 1

/-- The packet id of a publish above QoS 0. -/
def encodePacketId (p : PublishV5) : Encoded :=
  if p.qos ≠ .atMostOnce then
    match p.packetId with
    | some pid => .ok (putU16 pid)
    | none => .error (.malformed "PUBLISH QoS > 0 missing packet id")
  else .ok []

def encodePublish (p : PublishV5) : Encoded := do
  let topic ← putString p.topic
  let packetId ← encodePacketId p
  let properties ← encodeProperties p.properties
  return topic ++ packetId ++ properties ++ p.payload

/-- All that is left of the input. -/
def getRest : Decode Bytes := fun buf => .ok (buf, [])

def decodePublish (flags : UInt8) : Decode PublishV5 := do
  let dup := decide (flags &&& 0x08 ≠ 0)
  let qos ← Decoder.fromOption (.badQoS ((flags >>> 1) &&& 0x03))
    (QoS.fromU8 ((flags >>> 1) &&& 0x03))
  let retain := decide (flags &&& 0x01 ≠ 0)
  Decoder.require (¬ (dup = true ∧ qos = .atMostOnce))
    (.malformed "PUBLISH DUP must be 0 for QoS 0 (§3.3.1.1)")
  let topic ← getString
  let packetId ← decodeIf (qos ≠ .atMostOnce) getU16
  let properties ← decodeProperties
  let payload ← getRest
  return { topic, qos, retain, dup, packetId, properties, payload }

def encodeAck (a : AckV5) : Encoded :=
  -- a success without properties takes the compact form
  if a.reasonCode = .success ∧ a.properties = [] then .ok (putU16 a.packetId)
  else do
    let properties ← encodeProperties a.properties
    return putU16 a.packetId ++ putU8 a.reasonCode.toU8 ++ properties

/-- Reason and properties, each of which may be missing at the end of the input. -/
def decodeReasonProps (packet : String) : Decode ReasonV5 := do
  if ← Decoder.atEnd then return { reasonCode := .success, properties := [] }
  let reasonCode ← decodeReason packet
  if ← Decoder.atEnd then return { reasonCode, properties := [] }
  let properties ← decodeProperties
  return { reasonCode, properties }

def decodeAck (packet : String) : Decode AckV5 := do
  let packetId ← getU16
  let r ← decodeReasonProps packet
  return { packetId, reasonCode := r.reasonCode, properties := r.properties }

/-! ## Subscriptions -/

/-- The option byte of a subscription. -/
def subscriptionOptions (qos : QoS) (noLocal retainAsPublished : Bool)
    (retainHandling : RetainHandling) : UInt8 :=
  qos.toU8 ||| flag noLocal 0x04 ||| flag retainAsPublished 0x08 ||| (retainHandling.toU8 <<< 4)

def encodeSubscription (s : SubscriptionV5) : Encoded := do
  let topicFilter ← putString s.topicFilter
  return topicFilter ++
    putU8 (subscriptionOptions s.qos s.noLocal s.retainAsPublished s.retainHandling)

def decodeSubscription : Decode SubscriptionV5 := do
  let topicFilter ← getString
  let opt ← getU8
  Decoder.require (opt &&& 0xC0 = 0)
    (.malformed "subscription options reserved bits 6-7 must be 0")
  let qos ← Decoder.fromOption (.badQoS (opt &&& 0x03)) (QoS.fromU8 (opt &&& 0x03))
  let retainHandling ← Decoder.fromOption
    (.malformed "invalid Retain Handling value 3 (§3.8.3.1)")
    (RetainHandling.fromU8 ((opt >>> 4) &&& 0x03))
  return { topicFilter, qos, noLocal := opt &&& 0x04 ≠ 0,
           retainAsPublished := opt &&& 0x08 ≠ 0, retainHandling }

def encodeSubscribe (s : SubscribeV5) : Encoded := do
  let properties ← encodeProperties s.properties
  let subscriptions ← encodeAll encodeSubscription s.subscriptions
  return putU16 s.packetId ++ properties ++ subscriptions

def decodeSubscribe : Decode SubscribeV5 := do
  let packetId ← getU16
  let properties ← decodeProperties
  let subscriptions ← Decoder.many decodeSubscription
  Decoder.require (subscriptions ≠ [])
    (.malformed "SUBSCRIBE must contain at least one topic filter")
  return { packetId, properties, subscriptions }

def encodeIdPropsCodes (s : CodesV5) : Encoded := do
  let properties ← encodeProperties s.properties
  let codes ← encodeAll (fun rc => .ok (putU8 rc.toU8)) s.reasonCodes
  return putU16 s.packetId ++ properties ++ codes

def decodeIdPropsCodes (packet : String) : Decode CodesV5 := do
  let packetId ← getU16
  let properties ← decodeProperties
  let reasonCodes ← Decoder.many (decodeReason packet)
  return { packetId, properties, reasonCodes }

def encodeUnsubscribe (u : UnsubscribeV5) : Encoded := do
  let properties ← encodeProperties u.properties
  let topicFilters ← encodeAll putString u.topicFilters
  return putU16 u.packetId ++ properties ++ topicFilters

def decodeUnsubscribe : Decode UnsubscribeV5 := do
  let packetId ← getU16
  let properties ← decodeProperties
  let topicFilters ← Decoder.many getString
  Decoder.require (topicFilters ≠ [])
    (.malformed "UNSUBSCRIBE must contain at least one topic filter")
  return { packetId, properties, topicFilters }

def encodeReasonProps (r : ReasonV5) : Encoded :=
  if r.reasonCode = .success ∧ r.properties = [] then .ok []
  else do
    let properties ← encodeProperties r.properties
    return putU8 r.reasonCode.toU8 ++ properties

/-! ## Packets -/

/-- The type, the flags and the body of a packet. -/
def encodeBody : PacketV5 → Except Error (UInt8 × UInt8 × Bytes)
  | .connect c => return (1, 0, ← encodeConnect c)
  | .connAck c => return (2, 0, ← encodeConnack c)
  | .publish p => return (3, publishFlags p.dup p.qos p.retain, ← encodePublish p)
  | .pubAck a => return (4, 0, ← encodeAck a)
  | .pubRec a => return (5, 0, ← encodeAck a)
  | .pubRel a => return (6, reserved0010, ← encodeAck a)
  | .pubComp a => return (7, 0, ← encodeAck a)
  | .subscribe s => return (8, reserved0010, ← encodeSubscribe s)
  | .subAck s => return (9, 0, ← encodeIdPropsCodes s)
  | .unsubscribe u => return (10, reserved0010, ← encodeUnsubscribe u)
  | .unsubAck u => return (11, 0, ← encodeIdPropsCodes u)
  | .pingReq => return (12, 0, [])
  | .pingResp => return (13, 0, [])
  | .disconnect d => return (14, 0, ← encodeReasonProps d)
  | .auth a => return (15, 0, ← encodeReasonProps a)

/-- Encode a control packet. -/
def encodeV5 (p : PacketV5) : Encoded := do
  let (ty, flags, body) ← encodeBody p
  let len ← putLength body.length
  return putU8 ((ty <<< 4) ||| (flags &&& 0x0f)) ++ len ++ body

/-- Check the flags of the fixed header. -/
def requireFlags (actual expected : UInt8) : Decode Unit :=
  Decoder.require (actual = expected) (.malformed "reserved fixed-header flags must be 0b0010")

/-- Decode the body of a packet of the given type. -/
def decodeBody (typeNibble flags : UInt8) : Decode PacketV5 :=
  match typeNibble with
  | 1 => .connect <$> decodeConnect
  | 2 => .connAck <$> decodeConnack
  | 3 => .publish <$> decodePublish flags
  | 4 => .pubAck <$> decodeAck "PUBACK"
  | 5 => .pubRec <$> decodeAck "PUBREC"
  | 6 => do
    requireFlags flags reserved0010
    .pubRel <$> decodeAck "PUBREL"
  | 7 => .pubComp <$> decodeAck "PUBCOMP"
  | 8 => do
    requireFlags flags reserved0010
    .subscribe <$> decodeSubscribe
  | 9 => .subAck <$> decodeIdPropsCodes "SUBACK"
  | 10 => do
    requireFlags flags reserved0010
    .unsubscribe <$> decodeUnsubscribe
  | 11 => .unsubAck <$> decodeIdPropsCodes "UNSUBACK"
  | 12 => pure .pingReq
  | 13 => pure .pingResp
  | 14 => .disconnect <$> decodeReasonProps "DISCONNECT"
  | 15 => .auth <$> decodeReasonProps "AUTH"
  | _ => throw (.malformed "unknown MQTT control packet type")

/-- Decode one packet; also returns how many bytes it takes. -/
def decodeV5 (input : Bytes) : Except Error (PacketV5 × Nat) :=
  match input with
  | [] => .error (.underflow 2)
  | header :: tail => do
    let (remaining, lenBytes) ← decodeVarInt tail
    let total := 1 + lenBytes + remaining.toNat
    if input.length < total then throw (.underflow (total - input.length))
    let (packet, _) ← decodeBody (header >>> 4) (header &&& 0x0f)
      ((input.take total).drop (1 + lenBytes))
    return (packet, total)

end CaveHome.Mqtt
