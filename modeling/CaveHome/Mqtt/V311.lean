import CaveHome.Mqtt.Codec

/-!
# The codec of MQTT 3.1.1

The older packets and their wire format.  A string is written with its length in two bytes, at most
65535, and all of its bytes.
-/

namespace CaveHome.Mqtt.V311

inductive CodecError
  | underflow (needed : Nat)
  | varIntTooLong
  | unknownPacketType (type : UInt8)
  | badQoS (qos : UInt8)
  | badProtocolName (name : String)
  | badProtocolLevel (level : UInt8)
  | badConnAckCode (code : UInt8)
  | badUtf8
  | missingPacketId
  | badReservedFlags (flags : UInt8)
  | emptySubscription
  | badSubAckCode (code : UInt8)
  | unexpectedPayload
  deriving DecidableEq

abbrev Encoded := Except CodecError Bytes

abbrev Decode := Decoder CodecError

/-! ## Packets -/

inductive PacketType
  | connect
  | connAck
  | publish
  | pubAck
  | pubRec
  | pubRel
  | pubComp
  | subscribe
  | subAck
  | unsubscribe
  | unsubAck
  | pingReq
  | pingResp
  | disconnect
  deriving DecidableEq

namespace PacketType

def toU8 : PacketType → UInt8
  | connect => 1
  | connAck => 2
  | publish => 3
  | pubAck => 4
  | pubRec => 5
  | pubRel => 6
  | pubComp => 7
  | subscribe => 8
  | subAck => 9
  | unsubscribe => 10
  | unsubAck => 11
  | pingReq => 12
  | pingResp => 13
  | disconnect => 14

def fromU8 : UInt8 → Option PacketType
  | 1 => some connect
  | 2 => some connAck
  | 3 => some publish
  | 4 => some pubAck
  | 5 => some pubRec
  | 6 => some pubRel
  | 7 => some pubComp
  | 8 => some subscribe
  | 9 => some subAck
  | 10 => some unsubscribe
  | 11 => some unsubAck
  | 12 => some pingReq
  | 13 => some pingResp
  | 14 => some disconnect
  | _ => none

end PacketType

inductive ConnAckReturnCode
  | accepted
  | unacceptableProtocolVersion
  | identifierRejected
  | serverUnavailable
  | badUsernameOrPassword
  | notAuthorized
  deriving DecidableEq

namespace ConnAckReturnCode

def toU8 : ConnAckReturnCode → UInt8
  | accepted => 0
  | unacceptableProtocolVersion => 1
  | identifierRejected => 2
  | serverUnavailable => 3
  | badUsernameOrPassword => 4
  | notAuthorized => 5

def fromU8 : UInt8 → Option ConnAckReturnCode
  | 0 => some accepted
  | 1 => some unacceptableProtocolVersion
  | 2 => some identifierRejected
  | 3 => some serverUnavailable
  | 4 => some badUsernameOrPassword
  | 5 => some notAuthorized
  | _ => none

theorem fromU8_toU8 (code : ConnAckReturnCode) : fromU8 code.toU8 = some code := by
  cases code <;> rfl

end ConnAckReturnCode

inductive SubAckReturnCode
  | maxQoS0
  | maxQoS1
  | maxQoS2
  | failure
  deriving DecidableEq

namespace SubAckReturnCode

def toU8 : SubAckReturnCode → UInt8
  | maxQoS0 => 0x00
  | maxQoS1 => 0x01
  | maxQoS2 => 0x02
  | failure => 0x80

def fromU8 : UInt8 → Option SubAckReturnCode
  | 0x00 => some maxQoS0
  | 0x01 => some maxQoS1
  | 0x02 => some maxQoS2
  | 0x80 => some failure
  | _ => none

theorem fromU8_toU8 (code : SubAckReturnCode) : fromU8 code.toU8 = some code := by
  cases code <;> rfl

end SubAckReturnCode

structure Connect where
  clientId : String
  cleanSession : Bool
  keepAliveSecs : UInt16
  deriving DecidableEq

structure ConnAck where
  sessionPresent : Bool
  returnCode : ConnAckReturnCode
  deriving DecidableEq

structure Publish where
  topic : String
  qos : QoS
  retain : Bool
  dup : Bool
  packetId : Option UInt16
  payload : Bytes
  deriving DecidableEq

structure Subscription where
  topicFilter : String
  qos : QoS
  deriving DecidableEq

structure Subscribe where
  packetId : UInt16
  subscriptions : List Subscription
  deriving DecidableEq

structure SubAck where
  packetId : UInt16
  returnCodes : List SubAckReturnCode
  deriving DecidableEq

structure Unsubscribe where
  packetId : UInt16
  topicFilters : List String
  deriving DecidableEq

/-- The acknowledgements of a publish and UNSUBACK consist of the packet identifier. -/
inductive Packet
  | connect (c : Connect)
  | connAck (c : ConnAck)
  | publish (p : Publish)
  | pubAck (packetId : UInt16)
  | pubRec (packetId : UInt16)
  | pubRel (packetId : UInt16)
  | pubComp (packetId : UInt16)
  | subscribe (s : Subscribe)
  | subAck (a : SubAck)
  | unsubscribe (u : Unsubscribe)
  | unsubAck (packetId : UInt16)
  | pingReq
  | pingResp
  | disconnect
  deriving DecidableEq

def Packet.packetType : Packet → PacketType
  | .connect _ => .connect
  | .connAck _ => .connAck
  | .publish _ => .publish
  | .pubAck _ => .pubAck
  | .pubRec _ => .pubRec
  | .pubRel _ => .pubRel
  | .pubComp _ => .pubComp
  | .subscribe _ => .subscribe
  | .subAck _ => .subAck
  | .unsubscribe _ => .unsubscribe
  | .unsubAck _ => .unsubAck
  | .pingReq => .pingReq
  | .pingResp => .pingResp
  | .disconnect => .disconnect

/-! ## Primitive values -/

/-- The bytes of a variable byte integer; four of them at most. -/
def encodeVarInt (value : UInt32) : Encoded :=
  match encodeVarIntLoop 4 value.toNat with
  | .ok b => .ok b
  | .error _ => .error .varIntTooLong

/-- The value of a variable byte integer and how many bytes it takes. -/
def decodeVarInt (input : Bytes) : Except CodecError (UInt32 × Nat) :=
  match varIntLoop 4 input 0 1 0 with
  | some (value, used) => .ok (UInt32.ofNat value, used)
  | none =>
    if input.length < 4 then .error (.underflow (4 - input.length)) else .error .varIntTooLong

/-- The length that is written before a string. -/
def lengthField (len : Nat) : UInt16 := if len < 65536 then UInt16.ofNat len else 65535

def encodeStr (s : String) : Bytes :=
  putU16 (lengthField (Bytes.ofString s).length) ++ Bytes.ofString s

/-- Check that so many bytes are left. -/
def need (n : Nat) : Decode Unit := fun buf =>
  if buf.length < n then .error (.underflow (n - buf.length)) else .ok ((), buf)

def getU8 : Decode UInt8
  | [] => .error (.underflow 1)
  | b :: rest => .ok (b, rest)

def getU16 : Decode UInt16
  | a :: b :: rest => .ok (UInt16.ofNat (a.toNat * 256 + b.toNat), rest)
  | buf => .error (.underflow (2 - buf.length))

/-- Take `len` bytes. -/
def getRaw (len : Nat) : Decode Bytes := do
  need len
  fun buf => .ok (buf.take len, buf.drop len)

def decodeStr : Decode String := do
  let len ← getU16
  let raw ← getRaw len.toNat
  Decoder.fromOption .badUtf8 (Bytes.toString? raw)

/-! ## Encoding -/

def encodeConnect (c : Connect) : Bytes :=
  encodeStr "MQTT" ++ putU8 4 ++ putU8 (flag c.cleanSession 0x02) ++ putU16 c.keepAliveSecs ++
    encodeStr c.clientId

def encodeConnack (c : ConnAck) : Bytes :=
  putU8 (flag c.sessionPresent 0x01) ++ putU8 c.returnCode.toU8

/-- The identifier of a publish, unless it is sent at the lowest quality of service. -/
def encodePacketId (p : Publish) : Encoded :=
  if p.qos ≠ .atMostOnce then
    match p.packetId with
    | some pid => .ok (putU16 pid)
    | none => .error .missingPacketId
  else .ok []

def encodePublish (p : Publish) : Encoded := do
  let packetId ← encodePacketId p
  return encodeStr p.topic ++ packetId ++ p.payload

def encodeSubscription (s : Subscription) : Bytes := encodeStr s.topicFilter ++ putU8 s.qos.toU8

def encodeSubscribe (s : Subscribe) : Bytes :=
  putU16 s.packetId ++ s.subscriptions.flatMap encodeSubscription

def encodeSuback (a : SubAck) : Bytes :=
  putU16 a.packetId ++ a.returnCodes.flatMap fun code => putU8 code.toU8

def encodeUnsubscribe (u : Unsubscribe) : Bytes :=
  putU16 u.packetId ++ u.topicFilters.flatMap encodeStr

/-- The flags and the body of a packet. -/
def encodeBody : Packet → Except CodecError (UInt8 × Bytes)
  | .connect c => .ok (0, encodeConnect c)
  | .connAck c => .ok (0, encodeConnack c)
  | .publish p => do return (publishFlags p.dup p.qos p.retain, ← encodePublish p)
  | .subscribe s => .ok (0x02, encodeSubscribe s)
  | .subAck a => .ok (0, encodeSuback a)
  | .unsubscribe u => .ok (0x02, encodeUnsubscribe u)
  | .unsubAck packetId => .ok (0, putU16 packetId)
  | .pingReq | .pingResp | .disconnect => .ok (0, [])
  | .pubAck packetId | .pubRec packetId | .pubComp packetId => .ok (0, putU16 packetId)
  | .pubRel packetId => .ok (0x02, putU16 packetId)

/-- The length of a body as a word of 32 bits. -/
def remainingLength (len : Nat) : UInt32 :=
  if len < 4294967296 then UInt32.ofNat len else 4294967295

def encodePacket (p : Packet) : Encoded := do
  let (headerFlags, body) ← encodeBody p
  let len ← encodeVarInt (remainingLength body.length)
  return putU8 ((p.packetType.toU8 <<< 4) ||| (headerFlags &&& 0x0f)) ++ len ++ body

/-! ## Decoding -/

def decodeConnect : Decode Connect := do
  let name ← decodeStr
  Decoder.require (name = "MQTT") (.badProtocolName name)
  need 4
  let level ← getU8
  Decoder.require (level = 4) (.badProtocolLevel level)
  let flags ← getU8
  let keepAlive ← getU16
  let clientId ← decodeStr
  return { clientId, cleanSession := flags &&& 0x02 ≠ 0, keepAliveSecs := keepAlive }

def decodeConnack : Decode ConnAck := do
  need 2
  let sessionPresent ← getU8
  let code ← getU8
  let returnCode ← Decoder.fromOption (.badConnAckCode code) (ConnAckReturnCode.fromU8 code)
  return { sessionPresent := sessionPresent &&& 0x01 ≠ 0, returnCode }

/-- Take all that is left. -/
def getRest : Decode Bytes := fun buf => .ok (buf, [])

def decodePacketId (qos : QoS) : Decode (Option UInt16) :=
  if qos = .atMostOnce then pure none else some <$> getU16

def decodePublish (flags : UInt8) : Decode Publish := do
  let qos ← Decoder.fromOption (.badQoS ((flags >>> 1) &&& 0x03))
    (QoS.fromU8 ((flags >>> 1) &&& 0x03))
  let topic ← decodeStr
  let packetId ← decodePacketId qos
  let payload ← getRest
  return { topic, qos, retain := flags &&& 0x01 ≠ 0, dup := flags &&& 0x08 ≠ 0, packetId, payload }

/-- Check the flags that SUBSCRIBE, UNSUBSCRIBE and PUBREL reserve. -/
def requireReserved (flags : UInt8) : Decode Unit :=
  Decoder.require (flags = 0x02) (.badReservedFlags flags)

def decodeSubscription : Decode Subscription := do
  let topicFilter ← decodeStr
  let q ← getU8
  let qos ← Decoder.fromOption (.badQoS q) (QoS.fromU8 q)
  return { topicFilter, qos }

def decodeSubscribe (flags : UInt8) : Decode Subscribe := do
  requireReserved flags
  let packetId ← getU16
  let subscriptions ← Decoder.many decodeSubscription
  Decoder.require (subscriptions ≠ []) .emptySubscription
  return { packetId, subscriptions }

def decodeSubackCode : Decode SubAckReturnCode := do
  let code ← getU8
  Decoder.fromOption (.badSubAckCode code) (SubAckReturnCode.fromU8 code)

def decodeSuback : Decode SubAck := do
  let packetId ← getU16
  let returnCodes ← Decoder.many decodeSubackCode
  return { packetId, returnCodes }

def decodeUnsubscribe (flags : UInt8) : Decode Unsubscribe := do
  requireReserved flags
  let packetId ← getU16
  let topicFilters ← Decoder.many decodeStr
  Decoder.require (topicFilters ≠ []) .emptySubscription
  return { packetId, topicFilters }

/-- The body of a packet without one. -/
def decodeEmpty : Decode Unit := fun buf =>
  if buf.isEmpty then .ok ((), buf) else .error .unexpectedPayload

def decodeBody (flags : UInt8) : PacketType → Decode Packet
  | .connect => .connect <$> decodeConnect
  | .connAck => .connAck <$> decodeConnack
  | .publish => .publish <$> decodePublish flags
  | .subscribe => .subscribe <$> decodeSubscribe flags
  | .subAck => .subAck <$> decodeSuback
  | .unsubscribe => .unsubscribe <$> decodeUnsubscribe flags
  | .unsubAck => .unsubAck <$> getU16
  | .pingReq => (fun _ => .pingReq) <$> decodeEmpty
  | .pingResp => (fun _ => .pingResp) <$> decodeEmpty
  | .disconnect => (fun _ => .disconnect) <$> decodeEmpty
  | .pubAck => .pubAck <$> getU16
  | .pubRec => .pubRec <$> getU16
  | .pubRel => do
    requireReserved flags
    .pubRel <$> getU16
  | .pubComp => .pubComp <$> getU16

/-- Decode one packet; also returns how many bytes it takes. -/
def decodePacket (input : Bytes) : Except CodecError (Packet × Nat) :=
  match input with
  | [] => .error (.underflow 2)
  | header :: tail =>
    match PacketType.fromU8 (header >>> 4) with
    | none => .error (.unknownPacketType (header >>> 4))
    | some packetType => do
      let (remaining, lenBytes) ← decodeVarInt tail
      let total := 1 + lenBytes + remaining.toNat
      if input.length < total then throw (.underflow (total - input.length))
      let (packet, _) ← decodeBody (header &&& 0x0f) packetType
        ((input.take total).drop (1 + lenBytes))
      return (packet, total)

end CaveHome.Mqtt.V311
