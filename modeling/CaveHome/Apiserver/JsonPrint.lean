import CaveHome.Apiserver.JsonExact
import CaveHome.Apiserver.MergePatch

/-!
# What is written is read back

The text of a value derives in the grammars of both readers and says the value, if its numbers are
integers that doubles tell apart.
-/

namespace CaveHome.Apiserver

open JsonText

variable {ν : Type}

def encode (cs : List Char) : Bytes := cs.flatMap String.utf8EncodeChar

theorem encode_append (cs ds : List Char) : encode (cs ++ ds) = encode cs ++ encode ds :=
  List.flatMap_append

theorem encode_cons_ascii {c : Char} (h : c.toNat < 128) (cs : List Char) :
    encode (c :: cs) = UInt8.ofNat c.toNat :: encode cs := by
  rw [encode, List.flatMap_cons, Bytes.encode_ascii h]
  rfl

theorem ofString_ofList_encode (cs : List Char) : Bytes.ofString (String.ofList cs) = encode cs := by
  rw [Bytes.ofString_eq_flatMap, String.toList_ofList]
  rfl

/-! ## Strings -/

theorem hexDigit_digitChar {k : Nat} (hk : k < 16) :
    String.utf8EncodeChar (Nat.digitChar k) = [UInt8.ofNat (Nat.digitChar k).toNat] ∧
      Rfc8259.hexDigit (UInt8.ofNat (Nat.digitChar k).toNat) = some k := by
  have hall : ∀ k < 16, (Nat.digitChar k).toNat < 128 ∧
      Rfc8259.hexDigit (UInt8.ofNat (Nat.digitChar k).toNat) = some k := by decide
  exact ⟨Bytes.encode_ascii (hall k hk).1, (hall k hk).2⟩

variable {b rest : Bytes} {ps : List Piece} {cs : List Char}

theorem isChars_writeChar (c : Char)
    (h : IsChars Rfc8259.Plain Rfc8259.Hex4 b ps rest) (hsaid : Says ps cs) :
    ∃ ps', IsChars Rfc8259.Plain Rfc8259.Hex4 (encode (writeChar c) ++ b) ps' rest ∧
      Says ps' (c :: cs) := by
  rw [writeChar]
  split
  next hc =>
    subst hc
    exact ⟨_, .escape rfl h, .char _ hsaid⟩
  split
  next hc =>
    subst hc
    exact ⟨_, .escape rfl h, .char _ hsaid⟩
  split
  next hc =>
    subst hc
    exact ⟨_, .escape rfl h, .char _ hsaid⟩
  split
  next hc =>
    subst hc
    exact ⟨_, .escape rfl h, .char _ hsaid⟩
  split
  next hc =>
    subst hc
    exact ⟨_, .escape rfl h, .char _ hsaid⟩
  split
  next hcontrol =>
    -- a control character is a code unit with two zeros in front
    obtain ⟨henc₁, hdigit₁⟩ := hexDigit_digitChar (k := c.toNat / 16) (by omega)
    obtain ⟨henc₂, hdigit₂⟩ := hexDigit_digitChar (k := c.toNat % 16) (by omega)
    have hunit : Rfc8259.Hex4 [0x30, 0x30, UInt8.ofNat (Nat.digitChar (c.toNat / 16)).toNat,
        UInt8.ofNat (Nat.digitChar (c.toNat % 16)).toNat] c.toNat :=
      ⟨_, _, _, _, 0, 0, _, _, rfl, by decide, by decide, hdigit₁, hdigit₂, by omega⟩
    have henc : encode ['\\', 'u', '0', '0', Nat.digitChar (c.toNat / 16),
        Nat.digitChar (c.toNat % 16)] = 0x5C :: 0x75 :: [0x30, 0x30,
          UInt8.ofNat (Nat.digitChar (c.toNat / 16)).toNat,
          UInt8.ofNat (Nat.digitChar (c.toNat % 16)).toNat] := by
      have hfront : encode ['\\', 'u', '0', '0'] = [0x5C, 0x75, 0x30, 0x30] := rfl
      change encode (['\\', 'u', '0', '0'] ++ [_, _]) = _
      rw [encode_append, hfront, encode, List.flatMap_cons, henc₁, List.flatMap_cons, henc₂]
      rfl
    rw [henc]
    have hsaid' := Says.unit (n := c.toNat) (fun hhigh => by unfold High at hhigh; omega)
      (.inl (by omega)) hsaid
    rw [Char.ofNat_toNat] at hsaid'
    exact ⟨_, .unit hunit h, hsaid'⟩
  next hquote hslash _ _ _ hcontrol =>
    refine ⟨_, ?_, .char c hsaid⟩
    have henc : encode [c] = String.utf8EncodeChar c := List.append_nil _
    rw [henc]
    exact .plain hquote hslash (not_lt.mp hcontrol) h

theorem isString_writeJsonString (s : String) (rest : Bytes) :
    ∃ ps, IsString Rfc8259.Plain Rfc8259.Hex4 (encode (writeJsonString s) ++ rest) ps rest ∧
      Says ps s.toList := by
  have hchars : ∀ cs : List Char, ∃ ps, IsChars Rfc8259.Plain Rfc8259.Hex4
      (encode (cs.flatMap writeChar) ++ 0x22 :: rest) ps rest ∧ Says ps cs := by
    intro cs
    induction cs with
    | nil => exact ⟨[], .close rest, .nil⟩
    | cons c cs ih =>
      obtain ⟨ps, hps, hsaid⟩ := ih
      rw [List.flatMap_cons, encode_append, List.append_assoc]
      exact isChars_writeChar c hps hsaid
  obtain ⟨ps, hps, hsaid⟩ := hchars s.toList
  refine ⟨ps, ⟨_, ?_, hps⟩, hsaid⟩
  rw [writeJsonString, encode_cons_ascii (by decide), encode_append, List.cons_append,
    List.append_assoc]
  rfl

theorem string_writeJsonString [FloatText ν] (s : String) (rest : Bytes) :
    (ValueParser.tokens (ν := ν)).string (encode (writeJsonString s) ++ rest) s rest := by
  obtain ⟨ps, ⟨b, hb, hps⟩, hsaid⟩ := isString_writeJsonString s rest
  exact ⟨ps, ⟨b, hb, hps.mono (fun c => stands_iff.mpr) fun _ _ => hex_of_hex4⟩, hsaid⟩

theorem isDigit_repr (m : Nat) :
    Bytes.ofString (Nat.repr m) ≠ [] ∧
      ∀ c ∈ Bytes.ofString (Nat.repr m), Numeral.isDigit c = true := by
  have hdigit : ∀ c ∈ Nat.toDigits 10 m, 0x30 ≤ c.toNat ∧ c.toNat ≤ 0x39 := by
    intro c hc
    exact Char.isDigit_iff_toNat.mp (Nat.isDigit_of_mem_toDigits (by decide) (by decide) hc)
  have htext : Bytes.ofString (Nat.repr m) =
      (Nat.toDigits 10 m).map fun c => c.toNat.toUInt8 := by
    rw [← String.ofList_toList (s := Nat.repr m), Nat.toList_repr]
    refine Bytes.ofString_ofList fun c hc => ?_
    have hle := (hdigit c hc).2
    omega
  rw [htext]
  constructor
  · rw [ne_eq, List.map_eq_nil_iff]
    exact Nat.toDigits_ne_nil
  · intro c hc
    obtain ⟨d, hd, rfl⟩ := List.mem_map.mp hc
    obtain ⟨hge, hle⟩ := hdigit d hd
    obtain ⟨k, hk⟩ := Nat.exists_eq_add_of_le hge
    have hall : ∀ k < 10, Numeral.isDigit (0x30 + k).toUInt8 = true := by decide
    rw [hk]
    exact hall k (by omega)

/-- A numeral without a point and an exponent. -/
def wholeNumeral (sign : Option UInt8) (ds : Bytes) (hsign : ∀ c ∈ sign, c = 0x2B ∨ c = 0x2D)
    (hds : ∀ c ∈ ds, Numeral.isDigit c = true) : Numeral where
  sign
  int := ds
  frac := none
  exp := none
  sign_eq := hsign
  int_digits := hds
  frac_digits := by rintro _ ⟨⟩

theorem exists_numeral (i : Int) : ∃ n : Numeral, Bytes.ofString (toString i) = n.text ∧
    n.Denotes ∧ n.Leads ∧ ¬ n.PointLast := by
  change ∃ n : Numeral, Bytes.ofString (Int.repr i) = n.text ∧ _
  rw [Int.repr_eq_if]
  split
  next =>
    obtain ⟨hne, hds⟩ := isDigit_repr i.toNat
    refine ⟨wholeNumeral none _ (by rintro _ ⟨⟩) hds, ?_, ⟨.inl hne, rfl⟩,
      ⟨by rintro ⟨⟩, fun _ => hne⟩, fun h => by cases h.1⟩
    exact (List.append_nil _).symm
  next =>
    obtain ⟨hne, hds⟩ := isDigit_repr (-i).toNat
    refine ⟨wholeNumeral (some 0x2D) _ (by rintro _ ⟨⟩; exact .inr rfl) hds, ?_, ⟨.inl hne, rfl⟩,
      ⟨fun h => absurd (Option.some.inj h) (by decide), fun _ => hne⟩, fun h => by cases h.1⟩
    rw [Bytes.ofString_append]
    exact congrArg (0x2D :: ·) (List.append_nil _).symm

/-! ## Values -/

namespace Value

mutual

/-- How many containers are one in another. -/
def depth : Value ν → Nat
  | .array items => depthItems items + 1
  | .object members => depthMembers members + 1
  | _ => 0

def depthItems : List (Value ν) → Nat
  | [] => 0
  | v :: vs => max (depth v) (depthItems vs)

def depthMembers : List (String × Value ν) → Nat
  | [] => 0
  | (_, v) :: ms => max (depth v) (depthMembers ms)

end

section Derive

variable [FloatText ν] (display : ν → String)

mutual

/-- The numbers are integers of a magnitude below 9e15. -/
def Integral : Value ν → Prop
  | .number n => (FloatText.fractZero n && FloatText.isFinite n && FloatText.absBelow n) = true
  | .array items => IntegralItems items
  | .object members => IntegralMembers members
  | _ => True

def IntegralItems : List (Value ν) → Prop
  | [] => True
  | v :: vs => Integral v ∧ IntegralItems vs

def IntegralMembers : List (String × Value ν) → Prop
  | [] => True
  | (_, v) :: ms => Integral v ∧ IntegralMembers ms

end

mutual

/-- What the text of a value says. -/
def toTree : Value ν → Tree ν String
  | .null => .null
  | .bool b => .bool b
  | .number n => .number (Float64.ofI64 (Float64.toI64 n))
  | .string s => .string s
  | .array items => .array (toTrees items)
  | .object members => .object (toMembers members)

def toTrees : List (Value ν) → List (Tree ν String)
  | [] => []
  | v :: vs => toTree v :: toTrees vs

def toMembers : List (String × Value ν) → List (String × Tree ν String)
  | [] => []
  | (k, v) :: ms => (k, toTree v) :: toMembers ms

end

theorem writeJson_array (item : Value ν) (items : List (Value ν)) :
    (array (item :: items)).writeJson display =
      '[' :: (item.writeJson display ++ writeItems display items) := rfl

theorem writeItems_cons (item : Value ν) (items : List (Value ν)) :
    writeItems display (item :: items) =
      ',' :: (item.writeJson display ++ writeItems display items) := rfl

theorem writeJson_object (k : String) (v : Value ν) (members : List (String × Value ν)) :
    (object ((k, v) :: members)).writeJson display = '\x7b' ::
      (writeJsonString k ++ ':' :: (v.writeJson display ++ writeMembers display members)) := rfl

theorem writeMembers_cons (k : String) (v : Value ν) (members : List (String × Value ν)) :
    writeMembers display ((k, v) :: members) = ',' ::
      (writeJsonString k ++ ':' :: (v.writeJson display ++ writeMembers display members)) := rfl

theorem number_writeNumber {n : ν}
    (hn : (FloatText.fractZero n && FloatText.isFinite n && FloatText.absBelow n) = true)
    (rest : Bytes) : (ValueParser.tokens (ν := ν)).number
      (encode (writeNumber display n) ++ rest) (Float64.ofI64 (Float64.toI64 n)) rest := by
  obtain ⟨m, htext, hdenotes, hleads, hlast⟩ := exists_numeral (Float64.toI64 n)
  refine ⟨m, toString (Float64.toI64 n), hdenotes, hleads, hlast, ?_, htext,
    FloatText.parse_toString _ (FloatText.toI64_small n hn).1⟩
  rw [writeNumber, if_pos hn, ← htext, Bytes.ofString_eq_flatMap]
  rfl

mutual

theorem derives {d : Nat} : ∀ v : Value ν, v.depth ≤ d → v.Integral → ∀ rest : Bytes,
    IsValue ValueParser.tokens d (encode (v.writeJson display) ++ rest) v.toTree rest
  | .null, _, _, rest => .null rest
  | .bool true, _, _, rest => .true rest
  | .bool false, _, _, rest => .false rest
  | .number n, _, hn, rest => .number (number_writeNumber display hn rest)
  | .string s, _, _, rest => .string (string_writeJsonString s rest)
  | .array [], hd, _, rest => by
    obtain ⟨d, rfl⟩ := Nat.exists_eq_add_of_le' hd
    exact .emptyArray (.none _)
  | .array (item :: items), hd, hint, rest => by
    obtain ⟨d, rfl⟩ := Nat.exists_eq_add_of_le' ((Nat.le_add_left 1 _).trans hd)
    obtain ⟨hitem, hitems⟩ := max_le_iff.mp (Nat.le_of_succ_le_succ hd)
    have hvalue := derives item hitem hint.1 (encode (writeItems display items) ++ rest)
    rw [writeJson_array, encode_cons_ascii (by decide), encode_append, List.cons_append,
      List.append_assoc]
    exact .array (derivesItems items hitems hint.2 rest hvalue)
  | .object [], hd, _, rest => by
    obtain ⟨d, rfl⟩ := Nat.exists_eq_add_of_le' hd
    exact .emptyObject (.none _)
  | .object ((k, v) :: members), hd, hint, rest => by
    obtain ⟨d, rfl⟩ := Nat.exists_eq_add_of_le' ((Nat.le_add_left 1 _).trans hd)
    obtain ⟨hv, hmembers⟩ := max_le_iff.mp (Nat.le_of_succ_le_succ hd)
    have hvalue := derives v hv hint.1 (encode (writeMembers display members) ++ rest)
    have hkey := string_writeJsonString (ν := ν) k
      (0x3A :: (encode (writeJson display v) ++ (encode (writeMembers display members) ++ rest)))
    rw [writeJson_object, encode_cons_ascii (by decide), encode_append,
      encode_cons_ascii (by decide), encode_append, List.cons_append, List.append_assoc,
      List.cons_append, List.append_assoc]
    exact .object (derivesMembers members hmembers hint.2 rest hkey hvalue)

theorem derivesItems {d : Nat} : ∀ items : List (Value ν), depthItems items ≤ d →
    IntegralItems items → ∀ (rest : Bytes) {b : Bytes} {t : Tree ν String},
    IsValue ValueParser.tokens d b t (encode (writeItems display items) ++ rest) →
    IsItems ValueParser.tokens d b (t :: toTrees items) rest
  | [], _, _, rest, _, _, h => .last (.none _) h (.none _)
  | item :: items, hd, hint, rest, b, t, h => by
    obtain ⟨hitem, hitems⟩ := max_le_iff.mp hd
    have hvalue := derives item hitem hint.1 (encode (writeItems display items) ++ rest)
    rw [writeItems_cons, encode_cons_ascii (by decide), encode_append, List.cons_append,
      List.append_assoc] at h
    exact .more (.none _) h (.none _) (derivesItems items hitems hint.2 rest hvalue)

theorem derivesMembers {d : Nat} : ∀ members : List (String × Value ν), depthMembers members ≤ d →
    IntegralMembers members → ∀ (rest : Bytes) {b b' : Bytes} {k : String} {t : Tree ν String},
    (ValueParser.tokens (ν := ν)).string b k (0x3A :: b') →
    IsValue ValueParser.tokens d b' t (encode (writeMembers display members) ++ rest) →
    IsMembers ValueParser.tokens d b ((k, t) :: toMembers members) rest
  | [], _, _, rest, _, _, _, _, hkey, h => .last (.none _) hkey (.none _) (.none _) h (.none _)
  | (k, v) :: members, hd, hint, rest, b, b', _, t, hfirst, h => by
    obtain ⟨hv, hmembers⟩ := max_le_iff.mp hd
    have hvalue := derives v hv hint.1 (encode (writeMembers display members) ++ rest)
    have hkey := string_writeJsonString (ν := ν) k
      (0x3A :: (encode (writeJson display v) ++ (encode (writeMembers display members) ++ rest)))
    rw [writeMembers_cons, encode_cons_ascii (by decide), encode_append,
      encode_cons_ascii (by decide), encode_append, List.cons_append, List.append_assoc,
      List.cons_append, List.append_assoc] at h
    exact .more (.none _) hfirst (.none _) (.none _) h (.none _)
      (derivesMembers members hmembers hint.2 rest hkey hvalue)

end

end Derive

/-! ## What the text says -/

section Says

variable [FloatText ν]

/-- The members of an object as they are read. -/
def readMembers (ms : List (String × Value ν)) : BTreeMap String (Value ν) :=
  ms.map fun m => (m.1, ofTree m.2.toTree)

theorem insertAll_toMembers (ms : List (String × Value ν)) {map : BTreeMap String (Value ν)}
    (h : BTreeMap.Sorted (map ++ readMembers ms)) :
    insertAll (toMembers ms) map = map ++ readMembers ms := by
  induction ms generalizing map with
  | nil => exact (List.append_nil map).symm
  | cons m ms ih =>
    obtain ⟨k, v⟩ := m
    have hlast : BTreeMap.insert k (ofTree v.toTree) map = map ++ [(k, ofTree v.toTree)] :=
      BTreeMap.insert_last fun e he =>
        (List.pairwise_append.mp h).2.2 e he (k, ofTree v.toTree) List.mem_cons_self
    rw [toMembers, insertAll, hlast, ih]
    · rw [List.append_assoc]
      rfl
    · rw [List.append_assoc]
      exact h

mutual

theorem ofTree_toTree : ∀ v : Value ν, v.Integral → v.Ordered → beq (ofTree v.toTree) v = true
  | .null, _, _ => rfl
  | .bool b, _, _ => beq_self_eq_true b
  | .number n, hn, _ => (FloatText.toI64_small n hn).2
  | .string s, _, _ => beq_self_eq_true s
  | .array items, hint, hv => ofItems_toTrees items hint hv
  | .object members, hint, hv => by
    have hsorted : BTreeMap.Sorted (readMembers members) := List.pairwise_map.mpr hv.1
    have hmembers : insertAll (toMembers members) [] = readMembers members :=
      insertAll_toMembers members hsorted
    rw [toTree, ofTree, hmembers]
    exact readMembers_beq members hint hv.2

theorem ofItems_toTrees : ∀ items : List (Value ν), IntegralItems items → OrderedItems items →
    beqItems (ofItems (toTrees items)) items = true
  | [], _, _ => rfl
  | v :: vs, hint, hv => by
    rw [toTrees, ofItems, beqItems, ofTree_toTree v hint.1 hv.1,
      ofItems_toTrees vs hint.2 hv.2]
    rfl

theorem readMembers_beq : ∀ ms : List (String × Value ν), IntegralMembers ms → OrderedMembers ms →
    beqMembers (readMembers ms) ms = true
  | [], _, _ => rfl
  | (k, v) :: ms, hint, hv => by
    have hrest := readMembers_beq ms hint.2 hv.2
    rw [readMembers, List.map_cons, beqMembers, ofTree_toTree v hint.1 hv.1, beq_self_eq_true]
    exact hrest

end

end Says

end Value

section RoundTrip

variable [FloatText ν]

/-- Both readers read what is written, and as a value that equals the one that was written. -/
theorem print_parse (display : ν → String) (v : Value ν) (hv : v.Ordered) (hint : v.Integral)
    (hdepth : v.depth ≤ ValueParser.maxDepth) :
    ∃ w, Value.parse (v.toJsonString display) = .ok w ∧
      Parser.parse (v.toJsonString display) = .ok w ∧ (w == v) = true := by
  have hvalue := v.derives display hdepth hint []
  rw [List.append_nil, ← ofString_ofList_encode] at hvalue
  have htext : IsText ValueParser.tokens ValueParser.maxDepth
      (Bytes.ofString (v.toJsonString display)) v.toTree :=
    ⟨_, _, .none _, hvalue, .none _⟩
  have hsame := htext.map tokens_maps le_rfl
  rw [Tree.map_id] at hsame
  exact ⟨_, Value.parse_eq_ok_iff.mpr ⟨_, htext, rfl⟩,
    Parser.parse_eq_ok_iff.mpr ⟨_, _, hsame, rfl⟩, Value.ofTree_toTree v hint hv⟩

end RoundTrip

/-- Whole numbers as doubles; a text that denotes another number is read as zero. -/
structure Whole where
  value : Int
  deriving DecidableEq

def Whole.ofText (s : String) : Whole :=
  if s.toList.head? = some '-' then ⟨-(Nat.ofDigitChars 10 s.toList.tail 0 : Nat)⟩
  else ⟨(Nat.ofDigitChars 10 s.toList 0 : Nat)⟩

theorem Whole.ofText_repr (i : Int) : Whole.ofText (Int.repr i) = ⟨i⟩ := by
  rw [Whole.ofText, Int.repr_eq_if]
  split
  next hpos =>
    rw [Nat.toList_repr, Nat.ofDigitChars_ten_toDigits, Int.toNat_of_nonneg hpos, if_neg]
    intro hhead
    have hdigit := Nat.isDigit_of_mem_toDigits (by decide) (by decide) (List.mem_of_mem_head? hhead)
    revert hdigit
    decide
  next hneg =>
    rw [String.toList_append]
    change Whole.mk (-(Nat.ofDigitChars 10 (Nat.repr (-i).toNat).toList 0 : Nat)) = _
    rw [Nat.toList_repr, Nat.ofDigitChars_ten_toDigits, Int.toNat_of_nonneg (by omega), Int.neg_neg]

instance : FloatText Whole where
  ofI64 n := ⟨n⟩
  toI64 n := n.value
  parse s := (Numeral.ofBytes? (Bytes.ofString s)).bind fun n =>
    if n.Denotes then some (Whole.ofText s) else none
  beq a b := decide (a = b)
  ofI64_toI64 _ := rfl
  beq_refl _ := decide_eq_true rfl
  fractZero _ := true
  isFinite _ := true
  absBelow n := decide (n.value.natAbs < 9000000000000000)
  parse_isSome := by
    intro s _
    constructor
    · intro h
      obtain ⟨x, hx⟩ := Option.isSome_iff_exists.mp h
      obtain ⟨n, hn, hsome⟩ := Option.bind_eq_some_iff.mp hx
      split at hsome
      next hdenotes => exact ⟨n, Numeral.text_of_ofBytes? hn, hdenotes⟩
      next => cases hsome
    · rintro ⟨n, hn, hdenotes⟩
      rw [← hn, Numeral.ofBytes?_text, Option.bind_some, if_pos hdenotes]
      rfl
  parse_toString := by
    intro i _
    obtain ⟨n, hn, hdenotes, -⟩ := exists_numeral i
    rw [hn, Numeral.ofBytes?_text, Option.bind_some, if_pos hdenotes]
    exact congrArg some (Whole.ofText_repr i)
  toI64_small := by
    intro n h
    exact ⟨of_decide_eq_true h, decide_eq_true rfl⟩

def lamp : Value Whole := .object [("lamp \"hall\"", .array [.number ⟨-3⟩, .string "\n☀"])]

theorem print_parse_lamp :
    ∃ w, Value.parse (lamp.toJsonString fun _ => "") = .ok w ∧
      Parser.parse (lamp.toJsonString fun _ => "") = .ok w ∧ (w == lamp) = true := by
  have hv : lamp.Ordered := ⟨List.pairwise_singleton _ _, ⟨trivial, trivial, trivial⟩, trivial⟩
  have hthree : (Value.number ⟨-3⟩ : Value Whole).Integral := rfl
  have hint : lamp.Integral := ⟨⟨hthree, trivial, trivial⟩, trivial⟩
  exact print_parse (fun _ => "") lamp hv hint (by decide)

end CaveHome.Apiserver
