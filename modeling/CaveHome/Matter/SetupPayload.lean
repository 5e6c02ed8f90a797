import CaveHome.Lib.MachineData
import CaveHome.Lib.Text

/-!
# The setup payload of a device

What the QR code on a Matter device says, written as bits from the least significant one on, and its
spelling in base 38: three bytes in five characters, two in four and one in two.
-/

namespace CaveHome.Matter

inductive MatterError
  | setupPayloadParse (message : String)
deriving DecidableEq

/-! ## Base 38 -/

def base38Alphabet : Bytes := Bytes.ofString "0123456789ABCDEFGHIJKLMNOPQRSTUVWXYZ-."

/-- The position of a character in the alphabet. -/
def base38Index (c : UInt8) : Except MatterError Nat :=
  if c ∈ base38Alphabet then .ok (base38Alphabet.idxOf c)
  else
    .error (.setupPayloadParse
      ("base38: invalid char " ++ Text.debugChar (Char.ofNat c.toNat)))

/-- The number that a group of characters spells; its last character is read first. -/
def groupValue : Bytes → Except MatterError Nat
  | [] => .ok 0
  | c :: cs => do
    let value ← groupValue cs
    let idx ← base38Index c
    return value * 38 + idx

/-- The lowest bytes of a number. -/
def groupBytes (decodedBytes value : Nat) : Bytes :=
  (List.range decodedBytes).map fun k => UInt8.ofNat ((value >>> (8 * k)) &&& 0xff)

/-- Decode the characters in groups of five, and the last ones in a group of four or two. -/
def base38DecodeBytes : Bytes → Except MatterError Bytes
  | [] => .ok []
  | c₀ :: c₁ :: c₂ :: c₃ :: c₄ :: rest => do
    let value ← groupValue [c₀, c₁, c₂, c₃, c₄]
    return groupBytes 3 value ++ (← base38DecodeBytes rest)
  | [c₀, c₁, c₂, c₃] => do
    let value ← groupValue [c₀, c₁, c₂, c₃]
    return groupBytes 2 value
  | [c₀, c₁] => do
    let value ← groupValue [c₀, c₁]
    return groupBytes 1 value
  | rest =>
    .error (.setupPayloadParse
      ("base38: invalid trailing chunk of " ++ toString rest.length ++ " char(s)"))

def base38Decode (input : String) : Except MatterError Bytes :=
  base38DecodeBytes (Bytes.ofString input)

/-- The number that a group of bytes makes, with the least significant byte first. -/
def chunkValue : Bytes → Nat
  | [] => 0
  | b :: bs => (chunkValue bs <<< 8) ||| b.toNat

def base38Char (i : Nat) : Char := Char.ofNat (base38Alphabet.getD i 0).toNat

/-- So many characters for a number. -/
def chunkChars : Nat → Nat → List Char
  | 0, _ => []
  | n + 1, value => base38Char (value % 38) :: chunkChars n (value / 38)

def base38EncodeChars : Bytes → List Char
  | [] => []
  | b₀ :: b₁ :: b₂ :: rest => chunkChars 5 (chunkValue [b₀, b₁, b₂]) ++ base38EncodeChars rest
  | [b₀, b₁] => chunkChars 4 (chunkValue [b₀, b₁])
  | [b₀] => chunkChars 2 (chunkValue [b₀])

def base38Encode (input : Bytes) : String := String.ofList (base38EncodeChars input)

structure BitReader where
  bytes : Bytes
  bitPos : Nat

/-- Read a number of so many bits, the least significant one first. -/
def BitReader.read (r : BitReader) : Nat → Nat × BitReader
  | 0 => (0, r)
  | i + 1 =>
    let (v, r) := r.read i
    let bit := ((r.bytes.getD (r.bitPos / 8) 0).toNat >>> (r.bitPos % 8)) &&& 1
    (v ||| (bit <<< i), { r with bitPos := r.bitPos + 1 })

structure BitWriter where
  bytes : Bytes := []
  bitPos : Nat := 0

/-- Write the lowest bits of a number. -/
def BitWriter.write (w : BitWriter) (value : Nat) : Nat → BitWriter
  | 0 => w
  | i + 1 =>
    let w := w.write value i
    let bit := (value >>> i) &&& 1
    let byte := w.bitPos / 8
    let bytes := if w.bytes.length ≤ byte then w.bytes ++ [0] else w.bytes
    { bytes := bytes.set byte
        (UInt8.ofNat ((bytes.getD byte 0).toNat ||| (bit <<< (w.bitPos % 8))))
      bitPos := w.bitPos + 1 }

/-! ## The payload -/

inductive CommissioningFlow
  | standard
  | userActionRequired
  | custom
deriving DecidableEq

namespace CommissioningFlow

def fromBits (b : UInt8) : Except MatterError CommissioningFlow :=
  if b = 0 then .ok .standard
  else if b = 1 then .ok .userActionRequired
  else if b = 2 then .ok .custom
  else .error (.setupPayloadParse ("unknown commissioning flow " ++ toString b.toNat))

def toBits : CommissioningFlow → Nat
  | .standard => 0
  | .userActionRequired => 1
  | .custom => 2

end CommissioningFlow

structure SetupPayload where
  version : UInt8
  vendorId : UInt16
  productId : UInt16
  commissioningFlow : CommissioningFlow
  rendezvousInformation : UInt8
  discriminator : UInt16
  passcode : UInt32
deriving DecidableEq

/-- The passcodes that are too easy to guess. -/
def forbiddenPasscodes : List UInt32 :=
  [11111111, 22222222, 33333333, 44444444, 55555555, 66666666, 77777777, 88888888, 12345678,
    87654321]

namespace SetupPayload

def validate (p : SetupPayload) : Except MatterError Unit :=
  if 0b111 < p.version then
    .error (.setupPayloadParse ("version " ++ toString p.version.toNat ++ " > 7"))
  else if 0x0FFF < p.discriminator then
    .error (.setupPayloadParse "discriminator out of range")
  else if p.passcode = 0 ∨ 0x05F5E0FE < p.passcode then
    .error (.setupPayloadParse "passcode 0 or > 99999998 is forbidden by the spec")
  else if p.passcode ∈ forbiddenPasscodes then
    .error (.setupPayloadParse "trivial / forbidden passcode")
  else .ok ()

end SetupPayload

/-! ## The QR code -/

def qrCodePrefix : String := "MT:"

/-- The widths of the fields add up to eleven bytes. -/
def totalPayloadDataSizeBits : Nat := 3 + 16 + 16 + 2 + 8 + 12 + 27 + 4

/-- Read the fields of the payload one after the other. -/
def readPayload (bytes : Bytes) : Except MatterError SetupPayload := do
  let (version, reader) := (BitReader.mk bytes 0).read 3
  let (vendorId, reader) := reader.read 16
  let (productId, reader) := reader.read 16
  let (flowBits, reader) := reader.read 2
  let (rendezvous, reader) := reader.read 8
  let (discriminator, reader) := reader.read 12
  let (passcode, _) := reader.read 27
  let commissioningFlow ← CommissioningFlow.fromBits (UInt8.ofNat flowBits)
  return {
    version := UInt8.ofNat version
    vendorId := UInt16.ofNat vendorId
    productId := UInt16.ofNat productId
    commissioningFlow
    rendezvousInformation := UInt8.ofNat rendezvous
    discriminator := UInt16.ofNat discriminator
    passcode := UInt32.ofNat passcode }

def parseQrPayload (qr : String) : Except MatterError SetupPayload := do
  match Text.dropPrefix? qrCodePrefix qr with
  | none => throw (.setupPayloadParse "missing 'MT:' prefix")
  | some body =>
    let bytes ← base38Decode body
    if bytes.length * 8 < totalPayloadDataSizeBits then
      throw (.setupPayloadParse ("decoded " ++ toString (bytes.length * 8) ++
        " bits, expected at least " ++ toString totalPayloadDataSizeBits))
    let payload ← readPayload bytes
    payload.validate
    return payload

/-- Write the fields of the payload one after the other, and the padding. -/
def writePayload (p : SetupPayload) : Bytes :=
  let w : BitWriter := {}
  let w := w.write p.version.toNat 3
  let w := w.write p.vendorId.toNat 16
  let w := w.write p.productId.toNat 16
  let w := w.write p.commissioningFlow.toBits 2
  let w := w.write p.rendezvousInformation.toNat 8
  let w := w.write p.discriminator.toNat 12
  let w := w.write p.passcode.toNat 27
  let w := w.write 0 4
  w.bytes

def encodeQrPayload (p : SetupPayload) : Except MatterError String := do
  p.validate
  return qrCodePrefix ++ base38Encode (writePayload p)

end CaveHome.Matter
