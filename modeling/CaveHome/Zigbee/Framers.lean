import CaveHome.Lib.Delimited
import CaveHome.Lib.MachineData
import CaveHome.Lib.Radix

/-!
# The ASH framer

Frames on the serial line to a network coprocessor.  A frame is a control byte and a payload,
followed by a CRC over both; bytes that mean something to the line are escaped, and a flag byte
closes the frame.
-/

namespace CaveHome.Zigbee

inductive ZigbeeError
  | integrity (reason : String)
deriving DecidableEq

namespace Ash

def FLAG : UInt8 := 0x7e
def ESCAPE : UInt8 := 0x7d
def XON : UInt8 := 0x11
def XOFF : UInt8 := 0x13
def SUBSTITUTE : UInt8 := 0x18
def CANCEL : UInt8 := 0x1a

structure AshFrame where
  control : UInt8
  payload : Bytes
deriving DecidableEq

/-! ## Checksum -/

/-- One bit of the division by the polynomial `0x1021`. -/
def crcBit (crc : UInt16) : UInt16 :=
  if crc &&& 0x8000 ≠ 0 then (crc <<< 1) ^^^ 0x1021 else crc <<< 1

def crcByte (crc : UInt16) (b : UInt8) : UInt16 :=
  crcBit^[8] (crc ^^^ (b.toUInt16 <<< 8))

def crcCcitt (bytes : Bytes) : UInt16 := bytes.foldl crcByte 0xffff

example : crcCcitt [0x31, 0x32, 0x33, 0x34, 0x35, 0x36, 0x37, 0x38, 0x39] = 0x29b1 := by
  decide +kernel

def toBeBytes (x : UInt16) : Bytes := [(x >>> 8).toUInt8, x.toUInt8]

def fromBeBytes (hi lo : UInt8) : UInt16 := (hi.toUInt16 <<< 8) ||| lo.toUInt16

theorem fromBeBytes_toBeBytes (x : UInt16) : fromBeBytes (x >>> 8).toUInt8 x.toUInt8 = x :=
  Radix.uint16_halves x

/-! ## Byte stuffing -/

/-- The bytes that may not stand in a frame as they are. -/
def isReserved (b : UInt8) : Bool :=
  b == FLAG || b == ESCAPE || b == XON || b == XOFF || b == SUBSTITUTE || b == CANCEL

def byteStuff : Bytes → Bytes
  | [] => []
  | b :: bytes => if isReserved b then ESCAPE :: (b ^^^ 0x20) :: byteStuff bytes
      else b :: byteStuff bytes

def byteUnstuff : Bytes → Except ZigbeeError Bytes
  | [] => .ok []
  | [b] => if b = ESCAPE then .error (.integrity "trailing ASH escape") else .ok [b]
  | b :: c :: bytes =>
    if b = ESCAPE then (byteUnstuff bytes).map ((c ^^^ 0x20) :: ·)
    else (byteUnstuff (c :: bytes)).map (b :: ·)

theorem byteUnstuff_cons {b : UInt8} (h : b ≠ ESCAPE) (bytes : Bytes) :
    byteUnstuff (b :: bytes) = (byteUnstuff bytes).map (b :: ·) := by
  cases bytes with
  | nil => simp [byteUnstuff, h, Except.map]
  | cons c bytes => rw [byteUnstuff, if_neg h]

theorem byteUnstuff_byteStuff (bytes : Bytes) : byteUnstuff (byteStuff bytes) = .ok bytes := by
  induction bytes with
  | nil => rfl
  | cons b bytes ih =>
    rw [byteStuff]
    split
    · rw [byteUnstuff, if_pos rfl, ih]
      simp [Except.map, UInt8.xor_assoc]
    case isFalse hb =>
      have hne : b ≠ ESCAPE := by
        rintro rfl
        exact hb (by decide)
      rw [byteUnstuff_cons hne, ih]
      rfl

theorem flag_not_mem_byteStuff (bytes : Bytes) : FLAG ∉ byteStuff bytes := by
  induction bytes with
  | nil => simp [byteStuff]
  | cons b bytes ih =>
    rw [byteStuff]
    split
    case isTrue hb =>
      have hne : FLAG ≠ ESCAPE := by decide
      have hescaped : FLAG ≠ b ^^^ 0x20 := by
        intro h
        have hb' : b = FLAG ^^^ 0x20 := by
          rw [h, UInt8.xor_assoc]
          simp
        subst hb'
        exact absurd hb (by decide)
      simp [hne, hescaped, ih]
    case isFalse hb =>
      have hplain : FLAG ≠ b := by
        rintro rfl
        exact hb (by decide)
      simp [hplain, ih]

theorem length_le_byteStuff (bytes : Bytes) : bytes.length ≤ (byteStuff bytes).length := by
  induction bytes with
  | nil => exact Nat.le_refl 0
  | cons b bytes ih =>
    rw [byteStuff]
    split <;> simp only [List.length_cons] <;> omega

/-! ## The framer -/

/-- The bytes of a frame before they are escaped. -/
def frameBytes (frame : AshFrame) : Bytes :=
  let data := frame.control :: frame.payload
  data ++ toBeBytes (crcCcitt data)

namespace AshFramer

def encode (frame : AshFrame) : Bytes := byteStuff (frameBytes frame) ++ [FLAG]

/-- What `feed` makes of the bytes before a flag. -/
def decode (body : Bytes) : Except ZigbeeError AshFrame := do
  let unstuffed ← byteUnstuff body
  if unstuffed.length < 3 then
    throw (.integrity "ash frame too short")
  let data := unstuffed.take (unstuffed.length - 2)
  let observed := fromBeBytes (unstuffed.getD (unstuffed.length - 2) 0)
    (unstuffed.getD (unstuffed.length - 1) 0)
  if observed ≠ crcCcitt data then
    throw (.integrity "ash crc mismatch")
  return ⟨data.headD 0, data.tail⟩

def feed (buf chunk : Bytes) : Except ZigbeeError (List AshFrame) × Bytes :=
  Delimited.feed FLAG decode buf chunk

theorem decode_frameBytes (frame : AshFrame) :
    decode (byteStuff (frameBytes frame)) = .ok frame := by
  have hlen : (frameBytes frame).length = frame.payload.length + 3 := by
    simp [frameBytes, toBeBytes]
  have htake : (frameBytes frame).take (frame.payload.length + 1) =
      frame.control :: frame.payload := by
    apply List.take_left'
    simp
  have hhi : (frameBytes frame).getD (frame.payload.length + 1) 0 =
      (crcCcitt (frame.control :: frame.payload) >>> 8).toUInt8 := by
    simp [frameBytes, toBeBytes]
  have hlo : (frameBytes frame).getD (frame.payload.length + 2) 0 =
      (crcCcitt (frame.control :: frame.payload)).toUInt8 := by
    simp [frameBytes, toBeBytes]
  unfold decode
  rw [byteUnstuff_byteStuff]
  simp only [bind, Except.bind, hlen]
  rw [if_neg (by omega)]
  show (if fromBeBytes ((frameBytes frame).getD (frame.payload.length + 1) 0)
      ((frameBytes frame).getD (frame.payload.length + 2) 0) ≠
      crcCcitt ((frameBytes frame).take (frame.payload.length + 1)) then _ else _) = _
  rw [hhi, hlo, htake, fromBeBytes_toBeBytes, if_neg (fun h => h rfl)]
  simp [htake]
  rfl

theorem valid_frame (frame : AshFrame) :
    (Delimited.Segment.frame frame).Valid FLAG decode (fun f => byteStuff (frameBytes f)) := by
  refine ⟨flag_not_mem_byteStuff _, fun hnil => ?_, decode_frameBytes frame⟩
  have hlen := length_le_byteStuff (frameBytes frame)
  rw [show byteStuff (frameBytes frame) = [] from hnil] at hlen
  simp [frameBytes] at hlen

end AshFramer

end Ash

end CaveHome.Zigbee

/-!
## The SLIP framer

Payloads between END bytes; END and ESC inside a payload are escaped.
-/

namespace CaveHome.Zigbee

namespace Slip

def SLIP_END : UInt8 := 0xc0
def SLIP_ESC : UInt8 := 0xdb
def SLIP_ESC_END : UInt8 := 0xdc
def SLIP_ESC_ESC : UInt8 := 0xdd

/-! ## Escapes -/

def escape : Bytes → Bytes
  | [] => []
  | b :: payload =>
    if b = SLIP_END then SLIP_ESC :: SLIP_ESC_END :: escape payload
    else if b = SLIP_ESC then SLIP_ESC :: SLIP_ESC_ESC :: escape payload
    else b :: escape payload

def encode (payload : Bytes) : Bytes := SLIP_END :: escape payload ++ [SLIP_END]

def decode : Bytes → Except ZigbeeError Bytes
  | [] => .ok []
  | [b] =>
    if b = SLIP_END then .error (.integrity "unexpected SLIP END in body")
    else if b = SLIP_ESC then .error (.integrity "trailing SLIP escape")
    else .ok [b]
  | b :: c :: bytes =>
    if b = SLIP_END then .error (.integrity "unexpected SLIP END in body")
    else if b = SLIP_ESC then
      if c = SLIP_ESC_END then (decode bytes).map (SLIP_END :: ·)
      else if c = SLIP_ESC_ESC then (decode bytes).map (SLIP_ESC :: ·)
      else if c = 0 then .error (.integrity "bogus SLIP escape (00)")
      else .error (.integrity "unknown SLIP escape")
    else (decode (c :: bytes)).map (b :: ·)

theorem decode_cons {b : UInt8} (hend : b ≠ SLIP_END) (hesc : b ≠ SLIP_ESC) (bytes : Bytes) :
    decode (b :: bytes) = (decode bytes).map (b :: ·) := by
  cases bytes with
  | nil => simp [decode, hend, hesc, Except.map]
  | cons c bytes => rw [decode, if_neg hend, if_neg hesc]

theorem decode_escape (payload : Bytes) : decode (escape payload) = .ok payload := by
  induction payload with
  | nil => rfl
  | cons b payload ih =>
    have hne : SLIP_ESC ≠ SLIP_END := by decide
    have hcode : SLIP_ESC_ESC ≠ SLIP_ESC_END := by decide
    rw [escape]
    split
    case isTrue hb =>
      rw [decode, if_neg hne, if_pos rfl, if_pos rfl, ih, hb]
      rfl
    case isFalse hend =>
      split
      case isTrue hb =>
        rw [decode, if_neg hne, if_pos rfl, if_neg hcode, if_pos rfl, ih, hb]
        rfl
      case isFalse hesc =>
        rw [decode_cons hend hesc, ih]
        rfl

theorem end_not_mem_escape (payload : Bytes) : SLIP_END ∉ escape payload := by
  induction payload with
  | nil => simp [escape]
  | cons b payload ih =>
    have hesc : SLIP_END ≠ SLIP_ESC := by decide
    have hescEnd : SLIP_END ≠ SLIP_ESC_END := by decide
    have hescEsc : SLIP_END ≠ SLIP_ESC_ESC := by decide
    rw [escape]
    split
    · simp [hesc, hescEnd, ih]
    case isFalse hend =>
      split
      · simp [hesc, hescEsc, ih]
      · simp [Ne.symm hend, ih]

theorem escape_ne_nil {payload : Bytes} (h : payload ≠ []) : escape payload ≠ [] := by
  cases payload with
  | nil => exact absurd rfl h
  | cons b payload =>
    rw [escape]
    split
    · simp
    · split <;> simp

namespace SlipFramer

def feed (buf chunk : Bytes) : Except ZigbeeError (List Bytes) × Bytes :=
  Delimited.feed SLIP_END decode buf chunk

theorem valid_frame {payload : Bytes} (h : payload ≠ []) :
    (Delimited.Segment.frame payload).Valid SLIP_END decode escape :=
  ⟨end_not_mem_escape payload, escape_ne_nil h, decode_escape payload⟩

end SlipFramer

end Slip

/-!
## Damage on a serial line

What the two framers return when some frames on the line are damaged, for every way in which the
bytes are cut into chunks.
-/

open Delimited (Segment damage frames completions Clear feeds returned)

/-! ## The lines -/

namespace Ash

/-- The bytes that stand in the place of a damaged frame: they hold no flag and are no frame. -/
def Garbage (body : Bytes) : Prop :=
  FLAG ∉ body ∧ (body = [] ∨ ∃ e, AshFramer.decode body = .error e)

/-- What is on the line. -/
def wire (line : List (Segment UInt8 AshFrame)) : Bytes :=
  line.flatMap fun
    | .frame f => AshFramer.encode f
    | .noise body => body ++ [FLAG]

theorem wire_eq (line : List (Segment UInt8 AshFrame)) :
    wire line = Delimited.stream FLAG (line.map (Segment.body fun f => byteStuff (frameBytes f))) := by
  induction line with
  | nil => rfl
  | cons s line ih =>
    rw [List.map_cons, Delimited.stream_cons, ← ih, wire, List.flatMap_cons, ← wire]
    cases s <;> simp [Segment.body, AshFramer.encode]

theorem valid_line {line : List (Segment UInt8 AshFrame)}
    (h : ∀ body, .noise body ∈ line → Garbage body) :
    ∀ s ∈ line, s.Valid FLAG AshFramer.decode fun f => byteStuff (frameBytes f) := by
  intro s hs
  cases s with
  | frame f => exact AshFramer.valid_frame f
  | noise body => exact h body hs

end Ash

namespace Slip

def Garbage (body : Bytes) : Prop :=
  SLIP_END ∉ body ∧ (body = [] ∨ ∃ e, decode body = .error e)

def wire (line : List (Segment UInt8 Bytes)) : Bytes :=
  line.flatMap fun
    | .frame payload => encode payload
    | .noise body => SLIP_END :: body ++ [SLIP_END]

/-- The END that opens a packet closes an empty body. -/
def segments (line : List (Segment UInt8 Bytes)) : List (Segment UInt8 Bytes) :=
  line.flatMap fun s => [.noise [], s]

theorem wire_eq (line : List (Segment UInt8 Bytes)) :
    wire line = Delimited.stream SLIP_END ((segments line).map (Segment.body escape)) := by
  induction line with
  | nil => rfl
  | cons s line ih =>
    rw [segments, List.flatMap_cons, ← segments, List.map_append, Delimited.stream_append, ← ih,
      wire, List.flatMap_cons, ← wire]
    cases s <;> simp [Segment.body, encode]

theorem valid_line {line : List (Segment UInt8 Bytes)}
    (hframe : ∀ payload, .frame payload ∈ line → payload ≠ [])
    (hnoise : ∀ body, .noise body ∈ line → Garbage body) :
    ∀ s ∈ segments line, s.Valid SLIP_END decode escape := by
  intro s hs
  obtain ⟨t, ht, hst⟩ := List.mem_flatMap.1 hs
  rcases List.mem_pair.1 hst with rfl | rfl
  · exact ⟨by simp, .inl rfl⟩
  · cases s with
    | frame payload => exact SlipFramer.valid_frame (hframe payload ht)
    | noise body => exact hnoise body ht

theorem frames_segments (line : List (Segment UInt8 Bytes)) :
    frames (segments line) = frames line := by
  induction line with
  | nil => rfl
  | cons s line ih =>
    rw [segments, List.flatMap_cons, ← segments, Delimited.frames_append, ih]
    cases s <;> rfl

theorem damage_segments (line : List (Segment UInt8 Bytes)) :
    damage (segments line) = damage line := by
  induction line with
  | nil => rfl
  | cons s line ih =>
    have hline : damage (s :: line) = damage [s] + damage line := Delimited.damage_append [s] line
    have hpair : damage [.noise [], s] = damage [s] := rfl
    rw [segments, List.flatMap_cons, ← segments, Delimited.damage_append, ih, hpair, hline]

end Slip

/-- On a line without damage both framers return the frames that were sent, in order and once,
however the bytes are cut into chunks.  With damage each call returns exactly the frames that it
completes if and only if no call that completes a frame comes upon damage, of its own or left over
from an earlier call. -/
theorem framers_return_completed_iff {line : List (Segment UInt8 Ash.AshFrame)}
    {chunks : List Bytes} (hnoise : ∀ body, .noise body ∈ line → Ash.Garbage body)
    (hchunks : chunks.flatten = Ash.wire line) {packets : List (Segment UInt8 Bytes)}
    {cuts : List Bytes} (hpayload : ∀ payload, .frame payload ∈ packets → payload ≠ [])
    (hgarbage : ∀ body, .noise body ∈ packets → Slip.Garbage body)
    (hcuts : cuts.flatten = Slip.wire packets) :
    ((damage line = 0 →
        ((feeds Ash.AshFramer.feed [] chunks).map returned).flatten = frames line) ∧
      ((feeds Ash.AshFramer.feed [] chunks).map returned =
          (completions Ash.FLAG line chunks).map frames ↔
        Clear 0 (completions Ash.FLAG line chunks))) ∧
    (damage packets = 0 →
        ((feeds Slip.SlipFramer.feed [] cuts).map returned).flatten = frames packets) ∧
      ((feeds Slip.SlipFramer.feed [] cuts).map returned =
          (completions Slip.SLIP_END (Slip.segments packets) cuts).map frames ↔
        Clear 0 (completions Slip.SLIP_END (Slip.segments packets) cuts)) := by
  have hash := Ash.valid_line hnoise
  have hslip := Slip.valid_line hpayload hgarbage
  rw [Ash.wire_eq] at hchunks
  rw [Slip.wire_eq] at hcuts
  refine ⟨⟨fun h => ?_, ?_⟩, fun h => ?_, ?_⟩
  · exact Delimited.frames_received hash h hchunks
  · exact Delimited.returned_iff_clear [] line [] hash (by simp) rfl hchunks
  · rw [← Slip.frames_segments]
    exact Delimited.frames_received hslip (by rw [Slip.damage_segments, h]) hcuts
  · exact Delimited.returned_iff_clear [] (Slip.segments packets) [] hslip (by simp) rfl hcuts

/-- A frame that arrives in one chunk and a damaged one that arrives in the next; on the other line
the damaged payload comes first. -/
theorem framers_return_completed_iff_demo :
    let f : Ash.AshFrame := ⟨0x10, [0xaa]⟩
    let line : List (Segment UInt8 Ash.AshFrame) := [.frame f, .noise [0x01]]
    let chunks : List Bytes := [Ash.AshFramer.encode f, [0x01, 0x7e]]
    let packets : List (Segment UInt8 Bytes) := [.noise [0xdb], .frame [0x68]]
    let cuts : List Bytes := [[0xc0, 0xdb, 0xc0], [0xc0, 0x68, 0xc0]]
    ((damage line = 0 →
        ((feeds Ash.AshFramer.feed [] chunks).map returned).flatten = frames line) ∧
      ((feeds Ash.AshFramer.feed [] chunks).map returned =
          (completions Ash.FLAG line chunks).map frames ↔
        Clear 0 (completions Ash.FLAG line chunks))) ∧
    (damage packets = 0 →
        ((feeds Slip.SlipFramer.feed [] cuts).map returned).flatten = frames packets) ∧
      ((feeds Slip.SlipFramer.feed [] cuts).map returned =
          (completions Slip.SLIP_END (Slip.segments packets) cuts).map frames ↔
        Clear 0 (completions Slip.SLIP_END (Slip.segments packets) cuts)) := by
  intro f line chunks packets cuts
  refine framers_return_completed_iff (fun body hb => ?_) (by decide +kernel)
    (fun payload hp => ?_) (fun body hb => ?_) (by decide)
  · have hbody : body = [0x01] := by simpa [line] using hb
    rw [hbody]
    exact ⟨by decide, .inr ⟨.integrity "ash frame too short", by decide⟩⟩
  · have hpayload : payload = [0x68] := by simpa [packets] using hp
    rw [hpayload]
    decide
  · have hbody : body = [0xdb] := by simpa [packets] using hb
    rw [hbody]
    exact ⟨by decide, .inr ⟨.integrity "trailing SLIP escape", by decide⟩⟩

/-- A frame and a damaged one in one chunk: the call gives an error and the frame is lost. -/
theorem feed_loses_frame :
    ¬ ∀ (line : List (Segment UInt8 Ash.AshFrame)) (chunks : List Bytes),
        (∀ body, .noise body ∈ line → Ash.Garbage body) → chunks.flatten = Ash.wire line →
        (feeds Ash.AshFramer.feed [] chunks).map returned =
          (completions Ash.FLAG line chunks).map frames := by
  intro h
  let f : Ash.AshFrame := ⟨0x10, [0xaa]⟩
  have hlost := h [.frame f, .noise [0x01]] [Ash.AshFramer.encode f ++ [0x01, 0x7e]]
    (fun body hb => by
      have hbody : body = [0x01] := by simpa using hb
      rw [hbody]
      exact ⟨by decide, .inr ⟨.integrity "ash frame too short", by decide⟩⟩)
    (by decide +kernel)
  exact absurd hlost (by decide +kernel)

end CaveHome.Zigbee
