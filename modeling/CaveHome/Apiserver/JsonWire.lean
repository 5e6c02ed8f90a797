import CaveHome.Apiserver.Json
import CaveHome.Lib.Numeral

/-!
# The wire form of JSON values

Values are written for clients and read by `Value::parse`, the second of the two readers: it keeps
the nesting within a limit, takes no control characters into a string, and looks at a number as a
run of the characters that numbers are made of.
-/

namespace CaveHome.Apiserver

/-- What is known of doubles and their texts. -/
class FloatText (ν : Type) extends Float64 ν where
  /-- There is nothing behind the point: `n.fract() == 0.0`. -/
  fractZero : ν → Bool
  isFinite : ν → Bool
  /-- The magnitude is below 9e15. -/
  absBelow : ν → Bool
  /-- A text made of what numerals are made of is read exactly if it is a numeral that denotes. -/
  parse_isSome : ∀ s : String, (∀ b ∈ Bytes.ofString s, Numeral.isPart b = true) →
    ((parse s).isSome = true ↔ ∃ n : Numeral, n.text = Bytes.ofString s ∧ n.Denotes)
  /-- Below 2^53, the text of an integer is read as that integer. -/
  parse_toString : ∀ i : Int, i.natAbs < 9000000000000000 → parse (toString i) = some (ofI64 i)
  /-- An integer that small is what its conversion says. -/
  toI64_small : ∀ n, (fractZero n && isFinite n && absBelow n) = true →
    (toI64 n).natAbs < 9000000000000000 ∧ beq (ofI64 (toI64 n)) n = true

variable {ν : Type}

/-! ## Writing -/

/-- How a character of a string is written. -/
def writeChar (c : Char) : List Char :=
  if c = '"' then ['\\', '"']
  else if c = '\\' then ['\\', '\\']
  else if c = '\n' then ['\\', 'n']
  else if c = '\r' then ['\\', 'r']
  else if c = '\t' then ['\\', 't']
  else if c.toNat < 0x20 then
    ['\\', 'u', '0', '0', Nat.digitChar (c.toNat / 16), Nat.digitChar (c.toNat % 16)]
  else [c]

def writeJsonString (s : String) : List Char := '"' :: (s.toList.flatMap writeChar ++ ['"'])

namespace Value

section Write

variable [FloatText ν] (display : ν → String)

/-- Integers are written as such; `display` is how the others are. -/
def writeNumber (n : ν) : List Char :=
  if FloatText.fractZero n && FloatText.isFinite n && FloatText.absBelow n then
    (toString (Float64.toI64 n)).toList
  else if FloatText.isFinite n then (display n).toList
  else "null".toList

mutual

def writeJson : Value ν → List Char
  | .null => "null".toList
  | .bool true => "true".toList
  | .bool false => "false".toList
  | .number n => writeNumber display n
  | .string s => writeJsonString s
  | .array [] => ['[', ']']
  | .array (item :: items) => '[' :: (writeJson item ++ writeItems items)
  | .object [] => ['\x7b', '\x7d']
  | .object (m :: members) =>
    '\x7b' :: (writeJsonString m.1 ++ ':' :: (writeJson m.2 ++ writeMembers members))

/-- The further items of an array and its end. -/
def writeItems : List (Value ν) → List Char
  | [] => [']']
  | item :: items => ',' :: (writeJson item ++ writeItems items)

/-- The further members of an object and its end. -/
def writeMembers : List (String × Value ν) → List Char
  | [] => ['\x7d']
  | m :: members => ',' :: (writeJsonString m.1 ++ ':' :: (writeJson m.2 ++ writeMembers members))

end

def toJsonString (v : Value ν) : String := String.ofList (v.writeJson display)

end Write

end Value

/-! ## Reading -/

inductive ParseError
  | unexpectedEof
  | unexpected (pos : Nat) (found : Char)
  | invalidNumber (token : String)
  | invalidEscape
  | trailingData (pos : Nat)
  | tooDeep
  deriving DecidableEq

/-- The second reader has the same view of its input as the first one. -/
abbrev ValueParser := Parser

namespace ValueParser

def maxDepth : Nat := 128

/-- What is at hand is not what should be there. -/
def unexpected (p : ValueParser) : ParseError :=
  match p.peek with
  | none => .unexpectedEof
  | some b => .unexpected p.pos (Char.ofNat b.toNat)

def parseLit (p : ValueParser) (lit : String) (value : Value ν) :
    Except ParseError (Value ν × ValueParser) :=
  if (Bytes.ofString lit).isPrefixOf p.rest then .ok (value, p.advance (Bytes.ofString lit).length)
  else .error (unexpected p)

/-- A token that ends with one of these is not a number. -/
def openEnd (c : Char) : Bool := c == '.' || c == 'e' || c == 'E' || c == '+' || c == '-'

def parseNumber [Float64 ν] (start : ValueParser) : Except ParseError (Value ν × ValueParser) :=
  let p := if start.peek = some 0x2D then start.advance 1 else start
  let p := p.skip Numeral.isPart
  let tok := (Bytes.toString? (start.rest.take (p.pos - start.pos))).getD ""
  if tok.isEmpty ∨ tok.toList.getLast?.any openEnd then .error (.invalidNumber tok)
  else
    match Float64.parse tok with
    | some n => .ok (.number n, p)
    | none => .error (.invalidNumber tok)

def readHex4 (p : ValueParser) : Except ParseError (Nat × ValueParser) :=
  let slice := p.rest.take 4
  if slice.length < 4 then .error .unexpectedEof
  else if (Bytes.toString? slice).isNone then .error .invalidEscape
  else
    match Parser.fromStrRadix16 slice with
    | none => .error .invalidEscape
    | some v => .ok (v, p.advance 4)

/-- A code point, or a pair of surrogates for one. -/
def parseUnicodeEscape (p : ValueParser) : Except ParseError (Char × ValueParser) := do
  let (hi, p) ← readHex4 p
  if 0xD800 ≤ hi ∧ hi ≤ 0xDBFF then
    if p.rest.take 2 ≠ [0x5C, 0x75] then .error .invalidEscape
    else
      let (lo, p) ← readHex4 (p.advance 2)
      if ¬ (0xDC00 ≤ lo ∧ lo ≤ 0xDFFF) then .error .invalidEscape
      else
        match Parser.fromU32 (0x10000 + (hi - 0xD800) * 1024 + (lo - 0xDC00)) with
        | some c => return (c, p)
        | none => .error .invalidEscape
  else
    match Parser.fromU32 hi with
    | some c => return (c, p)
    | none => .error .invalidEscape

def parseEscape (p : ValueParser) : Except ParseError (Char × ValueParser) :=
  match p.peek with
  | none => .error .unexpectedEof
  | some e =>
    if e = 0x75 then parseUnicodeEscape (p.advance 1)
    else
      match Parser.escaped e with
      | some c => .ok (c, p.advance 1)
      | none => .error .invalidEscape

/-- The rest of a string.  Each round reads at least a byte, and `fuel` bounds the rounds. -/
def parseChars : Nat → List Char → ValueParser → Except ParseError (String × ValueParser)
  | 0, _, _ => .error .unexpectedEof
  | fuel + 1, out, p =>
    match p.peek with
    | none => .error .unexpectedEof
    | some 0x22 => .ok (String.ofList out.reverse, p.advance 1)
    | some 0x5C => do
      let (c, p) ← parseEscape (p.advance 1)
      parseChars fuel (c :: out) p
    | some b =>
      if b < 0x20 then .error (unexpected p)
      else
        match ByteArray.utf8DecodeChar? ⟨p.rest.toArray⟩ 0 with
        | some c => parseChars fuel (c :: out) (p.advance c.utf8Size)
        | none => .error .invalidEscape

def parseString (p : ValueParser) : Except ParseError (String × ValueParser) :=
  parseChars (p.rest.length + 1) [] (p.advance 1)

mutual

/-- A value at this depth.  At most two calls are made for a byte, and `fuel` bounds the calls. -/
def parseValue [Float64 ν] :
    Nat → Nat → ValueParser → Except ParseError (Value ν × ValueParser)
  | 0, _, p => .error (unexpected p)
  | fuel + 1, depth, p =>
    match p.peek with
    | none => .error .unexpectedEof
    | some 0x6E => parseLit p "null" .null
    | some 0x74 => parseLit p "true" (.bool true)
    | some 0x66 => parseLit p "false" (.bool false)
    | some 0x22 => do
      let (s, p) ← parseString p
      return (.string s, p)
    | some 0x5B =>
      if maxDepth ≤ depth then .error .tooDeep
      else
        let p := (p.advance 1).skipWs
        if p.peek = some 0x5D then .ok (.array [], p.advance 1)
        else parseItems fuel depth [] p
    | some 0x7B =>
      if maxDepth ≤ depth then .error .tooDeep
      else
        let p := (p.advance 1).skipWs
        if p.peek = some 0x7D then .ok (.object [], p.advance 1)
        else parseMembers fuel depth [] p
    | some b =>
      if b = 0x2D ∨ Parser.isDigit b then parseNumber p else .error (unexpected p)

/-- The items of an array at this depth. -/
def parseItems [Float64 ν] :
    Nat → Nat → List (Value ν) → ValueParser → Except ParseError (Value ν × ValueParser)
  | 0, _, _, p => .error (unexpected p)
  | fuel + 1, depth, items, p => do
    let (item, p) ← parseValue fuel (depth + 1) p.skipWs
    let p := p.skipWs
    match p.peek with
    | some 0x2C => parseItems fuel depth (items ++ [item]) (p.advance 1)
    | some 0x5D => return (.array (items ++ [item]), p.advance 1)
    | _ => .error (unexpected p)

/-- The members of an object at this depth.  The last of several members of one name stays. -/
def parseMembers [Float64 ν] : Nat → Nat → BTreeMap String (Value ν) → ValueParser →
    Except ParseError (Value ν × ValueParser)
  | 0, _, _, p => .error (unexpected p)
  | fuel + 1, depth, map, p => do
    let p := p.skipWs
    if p.peek ≠ some 0x22 then .error (unexpected p)
    let (key, p) ← parseString p
    let p := p.skipWs
    if p.peek ≠ some 0x3A then .error (unexpected p)
    let (value, p) ← parseValue fuel (depth + 1) (p.advance 1).skipWs
    let map := BTreeMap.insert key value map
    let p := p.skipWs
    match p.peek with
    | some 0x2C => parseMembers fuel depth map (p.advance 1)
    | some 0x7D => return (.object map, p.advance 1)
    | _ => .error (unexpected p)

end

end ValueParser

/-- A whole document. -/
def Value.parse [Float64 ν] (input : String) : Except ParseError (Value ν) := do
  let bytes := Bytes.ofString input
  let (value, p) ← ValueParser.parseValue (2 * bytes.length + 2) 0 (Parser.mk bytes 0).skipWs
  let p := p.skipWs
  if p.rest ≠ [] then .error (.trailingData p.pos)
  return value

end CaveHome.Apiserver
