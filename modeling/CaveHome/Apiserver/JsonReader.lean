import CaveHome.Apiserver.JsonWire
import CaveHome.Lib.JsonText

/-!
# One reader for both

The two readers of JSON differ in what they take for a number, in the bytes they let into a string,
in their limit on nesting and in what they say of a text they reject.  Up to the last of these both
are one reader with parameters.
-/

namespace CaveHome.Apiserver

variable {ν : Type}

/-- What one reader takes for a number, and for a character of a string. -/
structure Lexing (ν : Type) where
  number : Parser → Option (ν × Parser)
  /-- The bytes that a character standing for itself may start with. -/
  plain : UInt8 → Bool

namespace Lexing

/-! ## The reader -/

def hex4 (p : Parser) : Option (Nat × Parser) :=
  let slice := p.rest.take 4
  if slice.length < 4 then none
  else if (Bytes.toString? slice).isNone then none
  else (Parser.fromStrRadix16 slice).map (·, p.advance 4)

/-- The escape of a code point, or the two of a pair of surrogates, after the first `\u`. -/
def unicode (p : Parser) : Option (Char × Parser) :=
  (hex4 p).bind fun (hi, p) =>
    if 0xD800 ≤ hi ∧ hi ≤ 0xDBFF then
      if p.rest.take 2 = [0x5C, 0x75] then
        (hex4 (p.advance 2)).bind fun (lo, p) =>
          if 0xDC00 ≤ lo ∧ lo ≤ 0xDFFF then
            (Parser.fromU32 (JsonText.pairCode hi lo)).map (·, p)
          else none
      else none
    else (Parser.fromU32 hi).map (·, p)

/-- An escape after its backslash. -/
def escape (p : Parser) : Option (Char × Parser) :=
  if p.peek = some 0x75 then unicode (p.advance 1)
  else (p.peek.bind Parser.escaped).map (·, p.advance 1)

variable (L : Lexing ν)

def chars : Nat → List Char → Parser → Option (String × Parser)
  | 0, _, _ => none
  | fuel + 1, out, p =>
    match p.peek with
    | none => none
    | some b =>
      if b = 0x22 then some (String.ofList out.reverse, p.advance 1)
      else if b = 0x5C then (escape (p.advance 1)).bind fun (c, p) => chars fuel (c :: out) p
      else if L.plain b then
        (ByteArray.utf8DecodeChar? ⟨p.rest.toArray⟩ 0).bind fun c =>
          chars fuel (c :: out) (p.advance c.utf8Size)
      else none

def string (p : Parser) : Option (String × Parser) := L.chars (p.rest.length + 1) [] (p.advance 1)

def lit (p : Parser) (text : String) (v : Value ν) : Option (Value ν × Parser) :=
  if (Bytes.ofString text).isPrefixOf p.rest then some (v, p.advance (Bytes.ofString text).length)
  else none

mutual

/-- A value that opens at most `d` containers one in another. -/
def value : Nat → Nat → Parser → Option (Value ν × Parser)
  | 0, _, _ => none
  | fuel + 1, d, p =>
    match p.peek with
    | none => none
    | some b =>
      if b = 0x7B then
        if d = 0 then none
        else
          let p := (p.advance 1).skipWs
          if p.peek = some 0x7D then some (.object [], p.advance 1)
          else members fuel (d - 1) [] p
      else if b = 0x5B then
        if d = 0 then none
        else
          let p := (p.advance 1).skipWs
          if p.peek = some 0x5D then some (.array [], p.advance 1) else items fuel (d - 1) [] p
      else if b = 0x22 then (L.string p).map fun (s, p) => (.string s, p)
      else if b = 0x74 then lit p "true" (.bool true)
      else if b = 0x66 then lit p "false" (.bool false)
      else if b = 0x6E then lit p "null" .null
      else if b = 0x2D ∨ Parser.isDigit b then (L.number p).map fun (n, p) => (.number n, p)
      else none

def items : Nat → Nat → List (Value ν) → Parser → Option (Value ν × Parser)
  | 0, _, _, _ => none
  | fuel + 1, d, vs, p =>
    (value fuel d p.skipWs).bind fun (v, p) =>
      let p := p.skipWs
      if p.peek = some 0x2C then items fuel d (vs ++ [v]) (p.advance 1)
      else if p.peek = some 0x5D then some (.array (vs ++ [v]), p.advance 1)
      else none

def members :
    Nat → Nat → BTreeMap String (Value ν) → Parser → Option (Value ν × Parser)
  | 0, _, _, _ => none
  | fuel + 1, d, map, p =>
    if p.skipWs.peek ≠ some 0x22 then none
    else
      (L.string p.skipWs).bind fun (key, p) =>
        if p.skipWs.peek ≠ some 0x3A then none
        else
          (value fuel d (p.skipWs.advance 1).skipWs).bind fun (v, p) =>
            let p := p.skipWs
            if p.peek = some 0x2C then members fuel d (BTreeMap.insert key v map) (p.advance 1)
            else if p.peek = some 0x7D then
              some (.object (BTreeMap.insert key v map), p.advance 1)
            else none

end

/-- A whole text. -/
def text (d : Nat) (input : String) : Option (Value ν) :=
  let bytes := Bytes.ofString input
  (L.value (2 * bytes.length + 2) d (Parser.mk bytes 0).skipWs).bind fun (v, p) =>
    if p.skipWs.rest = [] then some v else none

end Lexing

/-! ## The readers of the source -/

theorem toOption_bind {ε α β : Type} (x : Except ε α) (f : α → Except ε β) :
    (x >>= f).toOption = x.toOption.bind fun a => (f a).toOption := by
  cases x <;> rfl

theorem toOption_ite {ε α : Type} (c : Prop) [Decidable c] (x y : Except ε α) :
    (if c then x else y).toOption = if c then x.toOption else y.toOption := by
  split <;> rfl

theorem advance_advance (p : Parser) (m n : Nat) : (p.advance m).advance n = p.advance (m + n) := by
  simp only [Parser.advance, List.drop_drop, Nat.add_assoc]

/-- The reader of request bodies takes any byte into a string. -/
def Parser.lexing [Float64 ν] : Lexing ν where
  number p :=
    let slice := p.rest.take (p.numberEnd.pos - p.pos)
    if slice = [] ∨ slice = [0x2D] then none
    else ((Bytes.toString? slice).bind Float64.parse).map (·, p.numberEnd)
  plain _ := true

/-- The end of the run of number characters that starts here. -/
def ValueParser.runEnd (p : ValueParser) : ValueParser :=
  (if p.peek = some 0x2D then p.advance 1 else p).skip Numeral.isPart

def ValueParser.lexing [Float64 ν] : Lexing ν where
  number p :=
    let tok := (Bytes.toString? (p.rest.take ((runEnd p).pos - p.pos))).getD ""
    if tok.isEmpty ∨ tok.toList.getLast?.any openEnd then none
    else (Float64.parse tok).map (·, runEnd p)
  plain b := 0x20 ≤ b

namespace Parser

theorem parseHex4_toOption (p : Parser) : p.parseHex4.toOption = Lexing.hex4 (p.advance 1) := by
  rw [parseHex4, Lexing.hex4, toOption_ite, toOption_ite]
  cases fromStrRadix16 ((p.advance 1).rest.take 4) <;> rfl

theorem parseUnicodeEscape_toOption (p : Parser) :
    p.parseUnicodeEscape.toOption = Lexing.unicode (p.advance 1) := by
  rw [parseUnicodeEscape, Lexing.unicode, toOption_bind, parseHex4_toOption]
  cases Lexing.hex4 (p.advance 1) with
  | none => rw [Option.bind_none, Option.bind_none]
  | some r =>
    obtain ⟨hi, p⟩ := r
    rw [Option.bind_some, Option.bind_some]
    -- no step may make the kernel compute with the code points
    by_cases hhigh : 0xD800 ≤ hi ∧ hi ≤ 0xDBFF
    · refine (congrArg Except.toOption (if_pos hhigh)).trans (Eq.trans ?_ (if_pos hhigh).symm)
      by_cases hnext : p.rest.take 2 = [0x5C, 0x75]
      · rw [if_pos hnext, if_pos hnext, toOption_bind, parseHex4_toOption, advance_advance]
        cases Lexing.hex4 (p.advance (1 + 1)) with
        | none => rw [Option.bind_none, Option.bind_none]
        | some r =>
          obtain ⟨lo, p⟩ := r
          rw [Option.bind_some, Option.bind_some]
          by_cases hlow : 0xDC00 ≤ lo ∧ lo ≤ 0xDFFF
          · refine (congrArg Except.toOption (if_pos hlow)).trans (Eq.trans ?_ (if_pos hlow).symm)
            unfold JsonText.pairCode
            cases fromU32 (0x10000 + (hi - 0xD800) * 1024 + (lo - 0xDC00)) <;> rfl
          · exact (congrArg Except.toOption (if_neg hlow)).trans (if_neg hlow).symm
      · rw [if_neg hnext, if_neg hnext]
        rfl
    · refine (congrArg Except.toOption (if_neg hhigh)).trans (Eq.trans ?_ (if_neg hhigh).symm)
      cases fromU32 hi <;> rfl

theorem parseChars_toOption [Float64 ν] (fuel : Nat) (out : List Char) (p : Parser) :
    (parseChars fuel out p).toOption = (lexing (ν := ν)).chars fuel out p := by
  induction fuel generalizing out p with
  | zero => rfl
  | succ fuel ih =>
    rw [parseChars, Lexing.chars]
    split
    next h => rw [h]; rfl
    next h => rw [h]; rfl
    next h =>
      rw [h]
      dsimp only
      rw [if_neg (show (0x5C : UInt8) ≠ 0x22 by decide), if_pos rfl, toOption_ite, Lexing.escape,
        toOption_bind, parseUnicodeEscape_toOption]
      split
      next => exact Option.bind_congr fun (c, p) _ => ih (c :: out) p
      next =>
        cases (p.advance 1).peek.bind escaped with
        | none => rfl
        | some c => exact ih (c :: out) _
    next b hquote hslash h =>
      rw [h]
      dsimp only
      rw [if_neg hquote, if_neg hslash, if_pos (show (lexing (ν := ν)).plain b = true from rfl)]
      cases ByteArray.utf8DecodeChar? ⟨p.rest.toArray⟩ 0 with
      | none => rfl
      | some c => exact ih (c :: out) _

theorem parseString_toOption [Float64 ν] (p : Parser) :
    p.parseString.toOption = (lexing (ν := ν)).string p :=
  parseChars_toOption _ _ _

theorem expectLit_toOption (p : Parser) (text : String) (v : Value ν) :
    (p.expectLit text v).toOption = Lexing.lit p text v := by
  rw [expectLit, Lexing.lit, toOption_ite]
  rfl

theorem parseNumber_toOption [Float64 ν] (p : Parser) :
    (parseNumber (ν := ν) p).toOption =
      ((lexing (ν := ν)).number p).map fun (n, p) => (.number n, p) := by
  rw [lexing, parseNumber]
  dsimp only
  split
  · rfl
  · cases (Bytes.toString? (p.rest.take (p.numberEnd.pos - p.pos))).bind
      (Float64.parse (ν := ν)) <;> rfl

section Read

variable [Float64 ν] {fuel : Nat}

theorem parseItems_toOption
    (ih : ∀ d p, fuel ≤ d → (parseValue (ν := ν) fuel p).toOption = lexing.value fuel d p)
    (ihItems : ∀ d (vs : List (Value ν)) p, fuel ≤ d →
      (parseItems fuel vs p).toOption = lexing.items fuel d vs p) (d : Nat) (vs : List (Value ν))
    (p : Parser) (hd : fuel ≤ d) :
    (parseItems (fuel + 1) vs p).toOption = lexing.items (fuel + 1) d vs p := by
  rw [parseItems, Lexing.items, toOption_bind, ih d _ hd]
  refine Option.bind_congr fun (v, p) _ => ?_
  dsimp only
  split
  next h => rw [if_pos h, ihItems d _ _ hd]
  next h =>
    rw [if_neg (by rw [h]; decide), if_pos h]
    rfl
  next hcomma hclose => rw [if_neg hcomma, if_neg hclose]; rfl

theorem parseMembers_toOption
    (ih : ∀ d p, fuel ≤ d → (parseValue (ν := ν) fuel p).toOption = lexing.value fuel d p)
    (ihMembers : ∀ d (map : BTreeMap String (Value ν)) p, fuel ≤ d →
      (parseMembers fuel map p).toOption = lexing.members fuel d map p) (d : Nat)
    (map : BTreeMap String (Value ν)) (p : Parser) (hd : fuel ≤ d) :
    (parseMembers (fuel + 1) map p).toOption = lexing.members (fuel + 1) d map p := by
  rw [parseMembers, Lexing.members]
  by_cases hquote : p.skipWs.peek = some 0x22
  · simp only [hquote, ne_eq, not_true_eq_false, if_false]
    rw [toOption_bind, parseString_toOption (ν := ν)]
    refine Option.bind_congr fun (key, p) _ => ?_
    dsimp only
    by_cases hcolon : p.skipWs.peek = some 0x3A
    · simp only [hcolon, not_true_eq_false, if_false]
      rw [toOption_bind, ih d _ hd]
      refine Option.bind_congr fun (v, p) _ => ?_
      dsimp only
      split
      next h => rw [if_pos h, ihMembers d _ _ hd]
      next h =>
        rw [if_neg (by rw [h]; decide), if_pos h]
        rfl
      next hcomma hclose => rw [if_neg hcomma, if_neg hclose]; rfl
    · simp only [hcolon, not_false_eq_true, if_true]
      rfl
  · simp only [ne_eq, hquote, not_false_eq_true, if_true]
    rfl

theorem parseValue_toOption (fuel : Nat) :
    (∀ d p, fuel ≤ d → (parseValue (ν := ν) fuel p).toOption = lexing.value fuel d p) ∧
    (∀ d (vs : List (Value ν)) p, fuel ≤ d →
      (parseItems fuel vs p).toOption = lexing.items fuel d vs p) ∧
    ∀ d (map : BTreeMap String (Value ν)) p, fuel ≤ d →
      (parseMembers fuel map p).toOption = lexing.members fuel d map p := by
  induction fuel with
  | zero => exact ⟨fun _ _ _ => rfl, fun _ _ _ _ => rfl, fun _ _ _ _ => rfl⟩
  | succ fuel ih =>
    obtain ⟨ih, ihItems, ihMembers⟩ := ih
    refine ⟨fun d p hd => ?_, fun d vs p hd => parseItems_toOption ih ihItems d vs p (by omega),
      fun d map p hd => parseMembers_toOption ih ihMembers d map p (by omega)⟩
    have hpos : d ≠ 0 := by omega
    rw [parseValue, Lexing.value]
    split
    next h =>
      rw [h]
      dsimp only
      rw [if_pos rfl, if_neg hpos, toOption_ite, ihMembers (d - 1) _ _ (by omega)]
      rfl
    next h =>
      rw [h]
      dsimp only
      rw [if_neg (show (0x5B : UInt8) ≠ 0x7B by decide), if_pos rfl, if_neg hpos, toOption_ite,
        ihItems (d - 1) _ _ (by omega)]
      rfl
    next h =>
      rw [h]
      dsimp only
      rw [if_neg (show (0x22 : UInt8) ≠ 0x7B by decide),
        if_neg (show (0x22 : UInt8) ≠ 0x5B by decide), if_pos rfl, toOption_bind,
        parseString_toOption (ν := ν)]
      cases (lexing (ν := ν)).string p <;> rfl
    next h =>
      rw [h]
      exact expectLit_toOption p "true" _
    next h =>
      rw [h]
      exact expectLit_toOption p "false" _
    next h =>
      rw [h]
      exact expectLit_toOption p "null" _
    next b hbrace hbracket hquote ht hf hn h =>
      rw [h]
      dsimp only
      rw [if_neg hbrace, if_neg hbracket, if_neg hquote, if_neg ht, if_neg hf, if_neg hn,
        toOption_ite, parseNumber_toOption]
      rfl
    next h =>
      rw [h]
      rfl

end Read

end Parser

namespace ValueParser

theorem readHex4_toOption (p : ValueParser) : (readHex4 p).toOption = Lexing.hex4 p := by
  rw [readHex4, Lexing.hex4, toOption_ite, toOption_ite]
  cases Parser.fromStrRadix16 (p.rest.take 4) <;> rfl

theorem parseUnicodeEscape_toOption (p : ValueParser) :
    (parseUnicodeEscape p).toOption = Lexing.unicode p := by
  rw [parseUnicodeEscape, Lexing.unicode, toOption_bind, readHex4_toOption]
  cases Lexing.hex4 p with
  | none => rw [Option.bind_none, Option.bind_none]
  | some r =>
    obtain ⟨hi, p⟩ := r
    rw [Option.bind_some, Option.bind_some]
    -- no step may make the kernel compute with the code points
    by_cases hhigh : 0xD800 ≤ hi ∧ hi ≤ 0xDBFF
    · refine (congrArg Except.toOption (if_pos hhigh)).trans (Eq.trans ?_ (if_pos hhigh).symm)
      by_cases hnext : p.rest.take 2 = [0x5C, 0x75]
      · rw [if_neg (not_not_intro hnext), if_pos hnext, toOption_bind, readHex4_toOption]
        cases Lexing.hex4 (p.advance 2) with
        | none => rw [Option.bind_none, Option.bind_none]
        | some r =>
          obtain ⟨lo, p⟩ := r
          rw [Option.bind_some, Option.bind_some]
          by_cases hlow : 0xDC00 ≤ lo ∧ lo ≤ 0xDFFF
          · refine (congrArg Except.toOption (if_neg (not_not_intro hlow))).trans
              (Eq.trans ?_ (if_pos hlow).symm)
            unfold JsonText.pairCode
            cases Parser.fromU32 (0x10000 + (hi - 0xD800) * 1024 + (lo - 0xDC00)) <;> rfl
          · exact (congrArg Except.toOption (if_pos hlow)).trans (if_neg hlow).symm
      · rw [if_pos hnext, if_neg hnext]
        rfl
    · refine (congrArg Except.toOption (if_neg hhigh)).trans (Eq.trans ?_ (if_neg hhigh).symm)
      cases Parser.fromU32 hi <;> rfl

theorem parseEscape_toOption (p : ValueParser) : (parseEscape p).toOption = Lexing.escape p := by
  rw [parseEscape, Lexing.escape]
  cases p.peek with
  | none => rfl
  | some e =>
    dsimp only
    by_cases hu : e = 0x75
    · rw [if_pos hu, if_pos (congrArg some hu), parseUnicodeEscape_toOption]
    · rw [if_neg hu, if_neg (fun h => hu (Option.some.inj h)), Option.bind_some]
      cases Parser.escaped e <;> rfl

theorem parseChars_toOption [Float64 ν] (fuel : Nat) (out : List Char) (p : ValueParser) :
    (parseChars fuel out p).toOption = (lexing (ν := ν)).chars fuel out p := by
  induction fuel generalizing out p with
  | zero => rfl
  | succ fuel ih =>
    rw [parseChars, Lexing.chars]
    split
    next h => rw [h]; rfl
    next h => rw [h]; rfl
    next h =>
      rw [h]
      dsimp only
      rw [if_neg (show (0x5C : UInt8) ≠ 0x22 by decide), if_pos rfl, toOption_bind,
        parseEscape_toOption]
      exact Option.bind_congr fun (c, p) _ => ih (c :: out) p
    next b hquote hslash h =>
      rw [h]
      dsimp only
      rw [if_neg hquote, if_neg hslash]
      by_cases hcontrol : b < 0x20
      · rw [if_pos hcontrol, if_neg (by simpa [lexing] using hcontrol)]
        rfl
      · rw [if_neg hcontrol, if_pos (by simpa [lexing] using hcontrol)]
        cases ByteArray.utf8DecodeChar? ⟨p.rest.toArray⟩ 0 with
        | none => rfl
        | some c => exact ih (c :: out) _

theorem parseString_toOption [Float64 ν] (p : ValueParser) :
    (parseString p).toOption = (lexing (ν := ν)).string p :=
  parseChars_toOption _ _ _

theorem parseLit_toOption (p : ValueParser) (text : String) (v : Value ν) :
    (parseLit p text v).toOption = Lexing.lit p text v := by
  rw [parseLit, Lexing.lit, toOption_ite]
  rfl

theorem parseNumber_toOption [Float64 ν] (p : ValueParser) :
    (parseNumber (ν := ν) p).toOption =
      ((lexing (ν := ν)).number p).map fun (n, p) => (.number n, p) := by
  rw [parseNumber]
  dsimp only [lexing, runEnd]
  generalize (if p.peek = some 0x2D then p.advance 1 else p).skip Numeral.isPart = after
  generalize (Bytes.toString? (p.rest.take (after.pos - p.pos))).getD "" = tok
  rw [toOption_ite]
  split
  · rfl
  · cases Float64.parse (ν := ν) tok <;> rfl

section Read

variable [Float64 ν] {fuel : Nat}

theorem parseItems_toOption
    (ih : ∀ depth p, (parseValue (ν := ν) fuel depth p).toOption =
      lexing.value fuel (maxDepth - depth) p)
    (ihItems : ∀ depth (vs : List (Value ν)) p, depth < maxDepth →
      (parseItems fuel depth vs p).toOption = lexing.items fuel (maxDepth - (depth + 1)) vs p)
    (depth : Nat) (vs : List (Value ν)) (p : ValueParser) (hdepth : depth < maxDepth) :
    (parseItems (fuel + 1) depth vs p).toOption =
      lexing.items (fuel + 1) (maxDepth - (depth + 1)) vs p := by
  rw [parseItems, Lexing.items, toOption_bind, ih]
  refine Option.bind_congr fun (v, p) _ => ?_
  dsimp only
  split
  next h => rw [if_pos h, ihItems _ _ _ hdepth]
  next h =>
    rw [if_neg (by rw [h]; decide), if_pos h]
    rfl
  next hcomma hclose => rw [if_neg hcomma, if_neg hclose]; rfl

theorem parseMembers_toOption
    (ih : ∀ depth p, (parseValue (ν := ν) fuel depth p).toOption =
      lexing.value fuel (maxDepth - depth) p)
    (ihMembers : ∀ depth (map : BTreeMap String (Value ν)) p, depth < maxDepth →
      (parseMembers fuel depth map p).toOption =
        lexing.members fuel (maxDepth - (depth + 1)) map p)
    (depth : Nat) (map : BTreeMap String (Value ν)) (p : ValueParser) (hdepth : depth < maxDepth) :
    (parseMembers (fuel + 1) depth map p).toOption =
      lexing.members (fuel + 1) (maxDepth - (depth + 1)) map p := by
  rw [parseMembers, Lexing.members]
  by_cases hquote : p.skipWs.peek = some 0x22
  · simp only [hquote, ne_eq, not_true_eq_false, if_false]
    rw [toOption_bind, parseString_toOption (ν := ν)]
    refine Option.bind_congr fun (key, p) _ => ?_
    dsimp only
    by_cases hcolon : p.skipWs.peek = some 0x3A
    · simp only [hcolon, not_true_eq_false, if_false]
      rw [toOption_bind, ih]
      refine Option.bind_congr fun (v, p) _ => ?_
      dsimp only
      split
      next h => rw [if_pos h, ihMembers _ _ _ hdepth]
      next h =>
        rw [if_neg (by rw [h]; decide), if_pos h]
        rfl
      next hcomma hclose => rw [if_neg hcomma, if_neg hclose]; rfl
    · simp only [hcolon, not_false_eq_true, if_true]
      rfl
  · simp only [ne_eq, hquote, not_false_eq_true, if_true]
    rfl

theorem parseValue_toOption (fuel : Nat) :
    (∀ depth p, (parseValue (ν := ν) fuel depth p).toOption =
      lexing.value fuel (maxDepth - depth) p) ∧
    (∀ depth (vs : List (Value ν)) p, depth < maxDepth →
      (parseItems fuel depth vs p).toOption = lexing.items fuel (maxDepth - (depth + 1)) vs p) ∧
    ∀ depth (map : BTreeMap String (Value ν)) p, depth < maxDepth →
      (parseMembers fuel depth map p).toOption =
        lexing.members fuel (maxDepth - (depth + 1)) map p := by
  induction fuel with
  | zero => exact ⟨fun _ _ => rfl, fun _ _ _ _ => rfl, fun _ _ _ _ => rfl⟩
  | succ fuel ih =>
    obtain ⟨ih, ihItems, ihMembers⟩ := ih
    refine ⟨fun depth p => ?_, parseItems_toOption ih ihItems, parseMembers_toOption ih ihMembers⟩
    rw [parseValue, Lexing.value]
    split
    next h => rw [h]; rfl
    next h =>
      rw [h]
      exact parseLit_toOption p "null" _
    next h =>
      rw [h]
      exact parseLit_toOption p "true" _
    next h =>
      rw [h]
      exact parseLit_toOption p "false" _
    next h =>
      rw [h]
      dsimp only
      rw [if_neg (show (0x22 : UInt8) ≠ 0x7B by decide),
        if_neg (show (0x22 : UInt8) ≠ 0x5B by decide), if_pos rfl, toOption_bind,
        parseString_toOption (ν := ν)]
      cases (lexing (ν := ν)).string p <;> rfl
    next h =>
      rw [h]
      dsimp only
      rw [if_neg (show (0x5B : UInt8) ≠ 0x7B by decide), if_pos rfl]
      by_cases hdepth : maxDepth ≤ depth
      · rw [if_pos hdepth, if_pos (Nat.sub_eq_zero_of_le hdepth)]
        rfl
      · rw [if_neg hdepth, if_neg (Nat.sub_ne_zero_of_lt (not_le.mp hdepth)), toOption_ite,
          ihItems _ _ _ (not_le.mp hdepth)]
        rfl
    next h =>
      rw [h]
      dsimp only
      rw [if_pos rfl]
      by_cases hdepth : maxDepth ≤ depth
      · rw [if_pos hdepth, if_pos (Nat.sub_eq_zero_of_le hdepth)]
        rfl
      · rw [if_neg hdepth, if_neg (Nat.sub_ne_zero_of_lt (not_le.mp hdepth)), toOption_ite,
          ihMembers _ _ _ (not_le.mp hdepth)]
        rfl
    next b hn ht hf hquote hbracket hbrace h =>
      rw [h]
      dsimp only
      rw [if_neg hbrace, if_neg hbracket, if_neg hquote, if_neg ht, if_neg hf, if_neg hn,
        toOption_ite, parseNumber_toOption]
      rfl

end Read

end ValueParser

end CaveHome.Apiserver
