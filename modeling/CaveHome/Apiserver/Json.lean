import CaveHome.Lib.BTreeMap
import CaveHome.Lib.MachineData
import Mathlib.Data.String.Basic

/-!
# JSON values

The objects of the server are JSON values.  Numbers are doubles; the server converts them from and
to integers, compares them and reads them, and nothing else is known of them here.
-/

namespace CaveHome.Apiserver

/-- The doubles that JSON text can denote, which are all but the one that is not a number. -/
class Float64 (ν : Type) where
  /-- The double nearest to a signed 64-bit number. -/
  ofI64 : Int → ν
  /-- The integer part, within the range of signed 64-bit numbers. -/
  toI64 : ν → Int
  /-- The double that a decimal text denotes. -/
  parse : String → Option ν
  beq : ν → ν → Bool
  ofI64_toI64 : ∀ n, ofI64 (toI64 (ofI64 n)) = ofI64 n
  beq_refl : ∀ x, beq x x = true

/-- Integers, as far as doubles are exact on them. -/
instance : Float64 Int where
  ofI64 n := n
  toI64 n := n
  parse := String.toInt?
  beq a b := decide (a = b)
  ofI64_toI64 _ := rfl
  beq_refl _ := decide_eq_true rfl

inductive Value (ν : Type)
  | null
  | bool (b : Bool)
  | number (n : ν)
  | string (s : String)
  | array (items : List (Value ν))
  /-- The members are a map, in the order of their names. -/
  | object (members : List (String × Value ν))

namespace Value

variable {ν : Type}

def asObject : Value ν → Option (BTreeMap String (Value ν))
  | .object m => some m
  | _ => none

def asStr : Value ν → Option String
  | .string s => some s
  | _ => none

def asArray : Value ν → Option (List (Value ν))
  | .array items => some items
  | _ => none

def asBool : Value ν → Option Bool
  | .bool b => some b
  | _ => none

def isNull : Value ν → Bool
  | .null => true
  | _ => false

/-- The member of an object. -/
def get (v : Value ν) (key : String) : Option (Value ν) := v.asObject.bind (BTreeMap.get key)

/-- Set the member of an object; other values stay. -/
def insert (v : Value ν) (key : String) (value : Value ν) : Value ν :=
  match v with
  | .object m => .object (BTreeMap.insert key value m)
  | v => v

/-- Take the member out of an object; other values stay. -/
def remove (v : Value ν) (key : String) : Value ν :=
  match v with
  | .object m => .object (BTreeMap.remove key m)
  | v => v

variable {v value : Value ν} {key k : String}

theorem get_insert_ne (h : k ≠ key) : (v.insert key value).get k = v.get k := by
  cases v with
  | object m => exact BTreeMap.get_insert_ne h value m
  | _ => rfl

theorem get_remove_ne (h : k ≠ key) : (v.remove key).get k = v.get k := by
  cases v with
  | object m => exact BTreeMap.get_remove_ne h m
  | _ => rfl

/-! ## Equality -/

variable [Float64 ν]

mutual

def beq : Value ν → Value ν → Bool
  | .null, .null => true
  | .bool a, .bool b => a == b
  | .number a, .number b => Float64.beq a b
  | .string a, .string b => a == b
  | .array as, .array bs => beqItems as bs
  | .object as, .object bs => beqMembers as bs
  | _, _ => false

def beqItems : List (Value ν) → List (Value ν) → Bool
  | [], [] => true
  | a :: as, b :: bs => beq a b && beqItems as bs
  | _, _ => false

def beqMembers : List (String × Value ν) → List (String × Value ν) → Bool
  | [], [] => true
  | (k, a) :: as, (l, b) :: bs => k == l && beq a b && beqMembers as bs
  | _, _ => false

end

instance : BEq (Value ν) := ⟨beq⟩

mutual

theorem beq_self : ∀ v : Value ν, beq v v = true
  | .null => rfl
  | .bool b => beq_self_eq_true b
  | .number n => Float64.beq_refl n
  | .string s => beq_self_eq_true s
  | .array items => beqItems_self items
  | .object members => beqMembers_self members

theorem beqItems_self : ∀ items : List (Value ν), beqItems items items = true
  | [] => rfl
  | a :: as => by rw [beqItems, beq_self a, beqItems_self as]; rfl

theorem beqMembers_self : ∀ members : List (String × Value ν), beqMembers members members = true
  | [] => rfl
  | (k, a) :: as => by rw [beqMembers, beq_self a, beqMembers_self as, beq_self_eq_true k]; rfl

end

end Value

/-! ## Reading -/

structure JsonError where
  message : String
  offset : Nat
  deriving DecidableEq

def JsonError.text (e : JsonError) : String :=
  "invalid JSON at offset " ++ toString e.offset ++ ": " ++ e.message

/-- What is left of the input and how many bytes were read. -/
structure Parser where
  rest : Bytes
  pos : Nat := 0

namespace Parser

variable {ν : Type} [Float64 ν]

def err (p : Parser) (message : String) : JsonError := ⟨message, p.pos⟩

def peek (p : Parser) : Option UInt8 := p.rest.head?

def advance (p : Parser) (n : Nat) : Parser := ⟨p.rest.drop n, p.pos + n⟩

/-- Skip the bytes in front that satisfy a test. -/
def skip (p : Parser) (test : UInt8 → Bool) : Parser := p.advance (p.rest.takeWhile test).length

def skipWs (p : Parser) : Parser := p.skip fun b => b == 0x20 || b == 0x09 || b == 0x0A || b == 0x0D

def expectLit (p : Parser) (lit : String) (value : Value ν) : Except JsonError (Value ν × Parser) :=
  if (Bytes.ofString lit).isPrefixOf p.rest then .ok (value, p.advance (Bytes.ofString lit).length)
  else .error (p.err "invalid literal")

def isDigit (b : UInt8) : Bool := 0x30 ≤ b && b ≤ 0x39

/-- The end of the number that starts here: a sign, digits, a fraction and an exponent. -/
def numberEnd (p : Parser) : Parser :=
  let p := if p.peek = some 0x2D then p.advance 1 else p
  let p := p.skip isDigit
  let p := if p.peek = some 0x2E then (p.advance 1).skip isDigit else p
  if p.peek = some 0x65 ∨ p.peek = some 0x45 then
    let p := p.advance 1
    let p := if p.peek = some 0x2B ∨ p.peek = some 0x2D then p.advance 1 else p
    p.skip isDigit
  else p

def parseNumber (p : Parser) : Except JsonError (Value ν × Parser) :=
  let after := p.numberEnd
  let slice := p.rest.take (after.pos - p.pos)
  if slice = [] ∨ slice = [0x2D] then .error (after.err "invalid number")
  else
    match (Bytes.toString? slice).bind Float64.parse with
    | some n => .ok (.number n, after)
    | none => .error ⟨"number out of range", p.pos⟩

def hexDigit (b : UInt8) : Option Nat :=
  if 0x30 ≤ b ∧ b ≤ 0x39 then some (b.toNat - 0x30)
  else if 0x41 ≤ b ∧ b ≤ 0x46 then some (b.toNat - 0x41 + 10)
  else if 0x61 ≤ b ∧ b ≤ 0x66 then some (b.toNat - 0x61 + 10)
  else none

def hexDigits : Bytes → Nat → Option Nat
  | [], acc => some acc
  | b :: bs, acc => do hexDigits bs (acc * 16 + (← hexDigit b))

/-- A number in hexadecimal, which may have a plus sign in front. -/
def fromStrRadix16 : Bytes → Option Nat
  | [] => none
  | 0x2B :: [] => none
  | 0x2B :: bs => hexDigits bs 0
  | bs => hexDigits bs 0

/-- The four hexadecimal digits after the `u` of an escape. -/
def parseHex4 (p : Parser) : Except JsonError (Nat × Parser) :=
  let p := p.advance 1
  let slice := p.rest.take 4
  if slice.length < 4 then .error (p.err "truncated \\u escape")
  else if (Bytes.toString? slice).isNone then .error (p.err "bad \\u escape")
  else
    match fromStrRadix16 slice with
    | none => .error (p.err "bad \\u hex")
    | some cp => .ok (cp, p.advance 4)

def fromU32 (n : Nat) : Option Char := if n.isValidChar then some (Char.ofNat n) else none

/-- A code point, or a pair of surrogates for one. -/
def parseUnicodeEscape (p : Parser) : Except JsonError (Char × Parser) := do
  let (hi, p) ← p.parseHex4
  if 0xD800 ≤ hi ∧ hi ≤ 0xDBFF then
    if p.rest.take 2 = [0x5C, 0x75] then
      let (lo, p) ← (p.advance 1).parseHex4
      if 0xDC00 ≤ lo ∧ lo ≤ 0xDFFF then
        match fromU32 (0x10000 + (hi - 0xD800) * 1024 + (lo - 0xDC00)) with
        | some c => return (c, p)
        | none => .error (p.err "invalid surrogate pair")
      else .error (p.err "unpaired high surrogate")
    else .error (p.err "unpaired high surrogate")
  else
    match fromU32 hi with
    | some c => return (c, p)
    | none => .error (p.err "invalid \\u code point")

def escaped : UInt8 → Option Char
  | 0x22 => some '"'
  | 0x5C => some '\\'
  | 0x2F => some '/'
  | 0x6E => some '\n'
  | 0x74 => some '\t'
  | 0x72 => some '\r'
  | 0x62 => some '\x08'
  | 0x66 => some '\x0c'
  | _ => none

/-- The rest of a string.  Each round reads at least a byte, and `fuel` bounds the rounds. -/
def parseChars : Nat → List Char → Parser → Except JsonError (String × Parser)
  | 0, _, p => .error (p.err "unterminated string")
  | fuel + 1, out, p =>
    match p.peek with
    | none => .error (p.err "unterminated string")
    | some 0x22 => .ok (String.ofList out.reverse, p.advance 1)
    | some 0x5C =>
      let p := p.advance 1
      if p.peek = some 0x75 then do
        let (c, p) ← p.parseUnicodeEscape
        parseChars fuel (c :: out) p
      else
        match p.peek.bind escaped with
        | some c => parseChars fuel (c :: out) (p.advance 1)
        | none => .error (p.err "invalid escape")
    | some _ =>
      match ByteArray.utf8DecodeChar? ⟨p.rest.toArray⟩ 0 with
      | some c => parseChars fuel (c :: out) (p.advance c.utf8Size)
      | none => .error (p.err "invalid UTF-8")

def parseString (p : Parser) : Except JsonError (String × Parser) :=
  parseChars (p.rest.length + 1) [] (p.advance 1)

mutual

/-- A value.  At most two calls are made for a byte, and `fuel` bounds the calls. -/
def parseValue : Nat → Parser → Except JsonError (Value ν × Parser)
  | 0, p => .error (p.err "expected a JSON value")
  | fuel + 1, p =>
    match p.peek with
    | some 0x7B =>
      let p := (p.advance 1).skipWs
      if p.peek = some 0x7D then .ok (.object [], p.advance 1) else parseMembers fuel [] p
    | some 0x5B =>
      let p := (p.advance 1).skipWs
      if p.peek = some 0x5D then .ok (.array [], p.advance 1) else parseItems fuel [] p
    | some 0x22 => do
      let (s, p) ← p.parseString
      return (.string s, p)
    | some 0x74 => p.expectLit "true" (.bool true)
    | some 0x66 => p.expectLit "false" (.bool false)
    | some 0x6E => p.expectLit "null" .null
    | some b =>
      if b = 0x2D ∨ isDigit b then p.parseNumber else .error (p.err "expected a JSON value")
    | none => .error (p.err "expected a JSON value")

/-- The items of an array. -/
def parseItems : Nat → List (Value ν) → Parser → Except JsonError (Value ν × Parser)
  | 0, _, p => .error (p.err "expected ',' or ']' in array")
  | fuel + 1, items, p => do
    let (item, p) ← parseValue fuel p.skipWs
    let p := p.skipWs
    match p.peek with
    | some 0x2C => parseItems fuel (items ++ [item]) (p.advance 1)
    | some 0x5D => return (.array (items ++ [item]), p.advance 1)
    | _ => .error (p.err "expected ',' or ']' in array")

/-- The members of an object.  The last of several members of one name stays. -/
def parseMembers :
    Nat → BTreeMap String (Value ν) → Parser → Except JsonError (Value ν × Parser)
  | 0, _, p => .error (p.err "expected ',' or '\x7d' in object")
  | fuel + 1, map, p => do
    let p := p.skipWs
    if p.peek ≠ some 0x22 then .error (p.err "expected string key in object")
    let (key, p) ← p.parseString
    let p := p.skipWs
    if p.peek ≠ some 0x3A then .error (p.err "expected ':' after key")
    let (value, p) ← parseValue fuel (p.advance 1).skipWs
    let map := BTreeMap.insert key value map
    let p := p.skipWs
    match p.peek with
    | some 0x2C => parseMembers fuel map (p.advance 1)
    | some 0x7D => return (.object map, p.advance 1)
    | _ => .error (p.err "expected ',' or '\x7d' in object")

end

/-- A whole document. -/
def parse (input : String) : Except JsonError (Value ν) := do
  let bytes := Bytes.ofString input
  let (v, p) ← parseValue (2 * bytes.length + 2) (Parser.mk bytes 0).skipWs
  let p := p.skipWs
  if p.rest ≠ [] then .error (p.err "unexpected trailing characters")
  return v

end Parser

end CaveHome.Apiserver
