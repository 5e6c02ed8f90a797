import CaveHome.Lib.Numeral

/-!
# JSON text

The grammar of JSON over the bytes of a text.  What a number and a string look like and what they
say is a parameter, so that readers that differ in these have one grammar otherwise.  A derivation
relates a text to what is left of it, and it is given the number of containers it may still open.
-/

namespace JsonText

variable {N S N' S' : Type}

/-- What a text says, with `N` for its numbers and `S` for its strings. -/
inductive Tree (N S : Type)
  | null
  | bool (b : Bool)
  | number (n : N)
  | string (s : S)
  | array (items : List (Tree N S))
  | object (members : List (S × Tree N S))

/-- A number or a string in front of a text, what it says and what is left. -/
structure Tokens (N S : Type) where
  number : Bytes → N → Bytes → Prop
  string : Bytes → S → Bytes → Prop

/-! ## The grammar -/

def isBlank (b : UInt8) : Bool := b == 0x20 || b == 0x09 || b == 0x0A || b == 0x0D

/-- Blanks and what is left after them. -/
inductive Blanks : Bytes → Bytes → Prop
  | none (b : Bytes) : Blanks b b
  | skip {c : UInt8} {b rest : Bytes} (hc : isBlank c = true) (h : Blanks b rest) :
      Blanks (c :: b) rest

mutual

/-- A value that opens at most so many containers one in another. -/
inductive IsValue (T : Tokens N S) : Nat → Bytes → Tree N S → Bytes → Prop
  | null {d : Nat} (rest : Bytes) : IsValue T d (Bytes.ofString "null" ++ rest) .null rest
  | false {d : Nat} (rest : Bytes) :
      IsValue T d (Bytes.ofString "false" ++ rest) (.bool false) rest
  | true {d : Nat} (rest : Bytes) : IsValue T d (Bytes.ofString "true" ++ rest) (.bool true) rest
  | number {d : Nat} {b rest : Bytes} {n : N} (h : T.number b n rest) :
      IsValue T d b (.number n) rest
  | string {d : Nat} {b rest : Bytes} {s : S} (h : T.string b s rest) :
      IsValue T d b (.string s) rest
  | emptyArray {d : Nat} {b rest : Bytes} (h : Blanks b (0x5D :: rest)) :
      IsValue T (d + 1) (0x5B :: b) (.array []) rest
  | array {d : Nat} {b rest : Bytes} {items : List (Tree N S)} (h : IsItems T d b items rest) :
      IsValue T (d + 1) (0x5B :: b) (.array items) rest
  | emptyObject {d : Nat} {b rest : Bytes} (h : Blanks b (0x7D :: rest)) :
      IsValue T (d + 1) (0x7B :: b) (.object []) rest
  | object {d : Nat} {b rest : Bytes} {members : List (S × Tree N S)}
      (h : IsMembers T d b members rest) : IsValue T (d + 1) (0x7B :: b) (.object members) rest

/-- The values of an array, up to the bracket that closes it. -/
inductive IsItems (T : Tokens N S) : Nat → Bytes → List (Tree N S) → Bytes → Prop
  | last {d : Nat} {b b₁ b₂ rest : Bytes} {t : Tree N S} (before : Blanks b b₁)
      (h : IsValue T d b₁ t b₂) (after : Blanks b₂ (0x5D :: rest)) : IsItems T d b [t] rest
  | more {d : Nat} {b b₁ b₂ b₃ rest : Bytes} {t : Tree N S} {items : List (Tree N S)}
      (before : Blanks b b₁) (h : IsValue T d b₁ t b₂) (after : Blanks b₂ (0x2C :: b₃))
      (hrest : IsItems T d b₃ items rest) : IsItems T d b (t :: items) rest

/-- The members of an object, up to the brace that closes it. -/
inductive IsMembers (T : Tokens N S) : Nat → Bytes → List (S × Tree N S) → Bytes → Prop
  | last {d : Nat} {b b₁ b₂ b₃ b₄ b₅ rest : Bytes} {key : S} {t : Tree N S} (before : Blanks b b₁)
      (hkey : T.string b₁ key b₂) (colon : Blanks b₂ (0x3A :: b₃)) (between : Blanks b₃ b₄)
      (h : IsValue T d b₄ t b₅) (after : Blanks b₅ (0x7D :: rest)) :
      IsMembers T d b [(key, t)] rest
  | more {d : Nat} {b b₁ b₂ b₃ b₄ b₅ b₆ rest : Bytes} {key : S} {t : Tree N S}
      {members : List (S × Tree N S)} (before : Blanks b b₁) (hkey : T.string b₁ key b₂)
      (colon : Blanks b₂ (0x3A :: b₃)) (between : Blanks b₃ b₄) (h : IsValue T d b₄ t b₅)
      (after : Blanks b₅ (0x2C :: b₆)) (hrest : IsMembers T d b₆ members rest) :
      IsMembers T d b ((key, t) :: members) rest

end

theorem Blanks.trans {b b' rest : Bytes} (h : Blanks b b') (h' : Blanks b' rest) :
    Blanks b rest := by
  induction h with
  | none => exact h'
  | skip hc _ ih => exact .skip hc (ih h')

section Before

variable {T : Tokens N S} {d : Nat} {b b' rest : Bytes}

theorem IsItems.before {items : List (Tree N S)} (h : IsItems T d b' items rest)
    (hb : Blanks b b') : IsItems T d b items rest := by
  cases h with
  | last before h after => exact .last (hb.trans before) h after
  | more before h after hrest => exact .more (hb.trans before) h after hrest

theorem IsMembers.before {members : List (S × Tree N S)} (h : IsMembers T d b' members rest)
    (hb : Blanks b b') : IsMembers T d b members rest := by
  cases h with
  | last before hkey colon between h after =>
    exact .last (hb.trans before) hkey colon between h after
  | more before hkey colon between h after hrest =>
    exact .more (hb.trans before) hkey colon between h after hrest

end Before

/-- A whole text is a value with blanks around it. -/
def IsText (T : Tokens N S) (d : Nat) (b : Bytes) (t : Tree N S) : Prop :=
  ∃ b₁ b₂, Blanks b b₁ ∧ IsValue T d b₁ t b₂ ∧ Blanks b₂ []

/-! ## Other tokens and other limits -/

mutual

/-- The same value with its numbers and strings replaced. -/
def Tree.map (f : N → N') (g : S → S') : Tree N S → Tree N' S'
  | .null => .null
  | .bool b => .bool b
  | .number n => .number (f n)
  | .string s => .string (g s)
  | .array items => .array (mapItems f g items)
  | .object members => .object (mapMembers f g members)

def mapItems (f : N → N') (g : S → S') : List (Tree N S) → List (Tree N' S')
  | [] => []
  | t :: ts => t.map f g :: mapItems f g ts

def mapMembers (f : N → N') (g : S → S') : List (S × Tree N S) → List (S' × Tree N' S')
  | [] => []
  | (key, t) :: ms => (g key, t.map f g) :: mapMembers f g ms

end

/-- Every token of the first kind is one of the second kind, and says the replaced thing. -/
structure Tokens.Maps (T : Tokens N S) (T' : Tokens N' S') (f : N → N') (g : S → S') : Prop where
  number : ∀ {b n rest}, T.number b n rest → T'.number b (f n) rest
  string : ∀ {b s rest}, T.string b s rest → T'.string b (g s) rest

section Maps

variable {T : Tokens N S} {T' : Tokens N' S'} {f : N → N'} {g : S → S'}

mutual

theorem IsValue.map (hT : T.Maps T' f g) {d d' : Nat} {b rest : Bytes} {t : Tree N S}
    (hd : d ≤ d') :
    IsValue T d b t rest → IsValue T' d' b (t.map f g) rest
  | .null rest => .null rest
  | .false rest => .false rest
  | .true rest => .true rest
  | .number h => .number (hT.number h)
  | .string h => .string (hT.string h)
  | .emptyArray h => by
    obtain ⟨d', rfl⟩ := Nat.exists_eq_add_of_lt hd
    exact .emptyArray h
  | .array h => by
    obtain ⟨d', rfl⟩ := Nat.exists_eq_add_of_lt hd
    exact .array (IsItems.map hT (Nat.le_add_right _ _) h)
  | .emptyObject h => by
    obtain ⟨d', rfl⟩ := Nat.exists_eq_add_of_lt hd
    exact .emptyObject h
  | .object h => by
    obtain ⟨d', rfl⟩ := Nat.exists_eq_add_of_lt hd
    exact .object (IsMembers.map hT (Nat.le_add_right _ _) h)

theorem IsItems.map (hT : T.Maps T' f g) {d d' : Nat} {b rest : Bytes}
    {items : List (Tree N S)} (hd : d ≤ d') :
    IsItems T d b items rest → IsItems T' d' b (mapItems f g items) rest
  | .last before h after => .last before (IsValue.map hT hd h) after
  | .more before h after hrest => .more before (IsValue.map hT hd h) after (IsItems.map hT hd hrest)

theorem IsMembers.map (hT : T.Maps T' f g) {d d' : Nat} {b rest : Bytes}
    {members : List (S × Tree N S)} (hd : d ≤ d') :
    IsMembers T d b members rest → IsMembers T' d' b (mapMembers f g members) rest
  | .last before hkey colon between h after =>
    .last before (hT.string hkey) colon between (IsValue.map hT hd h) after
  | .more before hkey colon between h after hrest =>
    .more before (hT.string hkey) colon between (IsValue.map hT hd h) after
      (IsMembers.map hT hd hrest)

end

theorem IsText.map (hT : T.Maps T' f g) {d d' : Nat} {b : Bytes} {t : Tree N S} (hd : d ≤ d')
    (h : IsText T d b t) : IsText T' d' b (t.map f g) := by
  obtain ⟨b₁, b₂, before, hvalue, after⟩ := h
  exact ⟨b₁, b₂, before, hvalue.map hT hd, after⟩

end Maps

/-! ## Where a value starts and ends -/

/-- What may follow a number: the end, a blank, a comma or a closing bracket. -/
def Stops (b : Bytes) : Prop :=
  ∀ c ∈ b.head?, isBlank c = true ∨ c = 0x2C ∨ c = 0x5D ∨ c = 0x7D

theorem stops_nil : Stops [] := by
  intro c hc
  cases hc

theorem Blanks.stops {b rest : Bytes} (h : Blanks b rest) (hrest : Stops rest) : Stops b := by
  cases h with
  | none => exact hrest
  | skip hc _ =>
    rintro _ ⟨⟩
    exact .inl hc

theorem stops_cons {c : UInt8} (b : Bytes) (hc : c = 0x2C ∨ c = 0x5D ∨ c = 0x7D) :
    Stops (c :: b) := by
  rintro _ ⟨⟩
  exact .inr hc

/-- Numbers and strings are not empty, and do not start like anything else. -/
structure Tokens.Apart (T : Tokens N S) : Prop where
  number : ∀ {b n rest}, T.number b n rest →
    ∃ c b', b = c :: b' ∧ (c = 0x2D ∨ (0x30 ≤ c ∧ c ≤ 0x39)) ∧ rest.length ≤ b'.length
  string : ∀ {b s rest}, T.string b s rest → ∃ b', b = 0x22 :: b' ∧ rest.length ≤ b'.length

theorem Blanks.length_le {b rest : Bytes} (h : Blanks b rest) : rest.length ≤ b.length := by
  induction h with
  | none => exact le_rfl
  | skip _ _ ih => exact ih.trans (Nat.le_succ _)

section Apart

variable {T : Tokens N S}

mutual

theorem IsValue.length_lt (hT : T.Apart) {d : Nat} {b rest : Bytes} {t : Tree N S} :
    IsValue T d b t rest → rest.length < b.length
  | .null rest => by
    rw [List.length_append]
    exact Nat.lt_add_of_pos_left (by decide)
  | .false rest => by
    rw [List.length_append]
    exact Nat.lt_add_of_pos_left (by decide)
  | .true rest => by
    rw [List.length_append]
    exact Nat.lt_add_of_pos_left (by decide)
  | .number h => by
    obtain ⟨c, b', rfl, -, hlen⟩ := hT.number h
    exact Nat.lt_succ_of_le hlen
  | .string h => by
    obtain ⟨b', rfl, hlen⟩ := hT.string h
    exact Nat.lt_succ_of_le hlen
  | .emptyArray h | .emptyObject h => by
    have hlen := h.length_le
    simp only [List.length_cons] at hlen ⊢
    omega
  | .array h => (IsItems.length_lt hT h).trans (Nat.lt_succ_self _)
  | .object h => (IsMembers.length_lt hT h).trans (Nat.lt_succ_self _)

theorem IsItems.length_lt (hT : T.Apart) {d : Nat} {b rest : Bytes} {items : List (Tree N S)} :
    IsItems T d b items rest → rest.length < b.length
  | .last before h after => by
    have hvalue := IsValue.length_lt hT h
    have hbefore := before.length_le
    have hafter := after.length_le
    simp only [List.length_cons] at hafter
    omega
  | .more before h after hrest => by
    have hvalue := IsValue.length_lt hT h
    have hitems := IsItems.length_lt hT hrest
    have hbefore := before.length_le
    have hafter := after.length_le
    simp only [List.length_cons] at hafter
    omega

theorem IsMembers.length_lt (hT : T.Apart) {d : Nat} {b rest : Bytes}
    {members : List (S × Tree N S)} : IsMembers T d b members rest → rest.length < b.length
  | .last before hkey colon between h after => by
    have hvalue := IsValue.length_lt hT h
    obtain ⟨b', rfl, hlen⟩ := hT.string hkey
    have hbefore := before.length_le
    have hcolon := colon.length_le
    have hbetween := between.length_le
    have hafter := after.length_le
    simp only [List.length_cons] at hbefore hcolon hafter
    omega
  | .more before hkey colon between h after hrest => by
    have hvalue := IsValue.length_lt hT h
    have hmembers := IsMembers.length_lt hT hrest
    obtain ⟨b', rfl, hlen⟩ := hT.string hkey
    have hbefore := before.length_le
    have hcolon := colon.length_le
    have hbetween := between.length_le
    have hafter := after.length_le
    simp only [List.length_cons] at hbefore hcolon hafter
    omega

end

end Apart

theorem dropWhile_blanks {b rest : Bytes} (h : Blanks b rest)
    (hrest : ∀ c ∈ rest.head?, isBlank c = false) : b.dropWhile isBlank = rest := by
  induction h with
  | none b =>
    cases b with
    | nil => rfl
    | cons c b => rw [List.dropWhile_cons, hrest c rfl, if_neg Bool.false_ne_true]
  | skip hc _ ih => rw [List.dropWhile_cons, hc, if_pos rfl, ih hrest]

theorem blanks_dropWhile (b : Bytes) : Blanks b (b.dropWhile isBlank) := by
  induction b with
  | nil => exact .none []
  | cons c b ih =>
    rw [List.dropWhile_cons]
    split
    next hc => exact .skip hc ih
    next => exact .none _

/-! ## Strings -/

/-- What a string is written with: characters, and code units in hexadecimal. -/
inductive Piece
  | char (c : Char)
  | unit (n : Nat)

/-- The character that a byte after a backslash stands for. -/
def escaped : UInt8 → Option Char
  | 0x22 => some '"'
  | 0x5C => some '\\'
  | 0x2F => some '/'
  | 0x6E => some '\n'
  | 0x74 => some '\t'
  | 0x72 => some '\r'
  | 0x62 => some '\x08'
  | 0x66 => some '\x0c'
  | _ => none

/-- The inside of a string up to its closing quote.  Which characters stand for themselves, and how
a code unit is written, is a parameter. -/
inductive IsChars (plain : Char → Prop) (hex : Bytes → Nat → Prop) :
    Bytes → List Piece → Bytes → Prop
  | close (rest : Bytes) : IsChars plain hex (0x22 :: rest) [] rest
  | plain {c : Char} {b rest : Bytes} {ps : List Piece} (hquote : c ≠ '"') (hslash : c ≠ '\\')
      (hc : plain c) (h : IsChars plain hex b ps rest) :
      IsChars plain hex (String.utf8EncodeChar c ++ b) (.char c :: ps) rest
  | escape {e : UInt8} {c : Char} {b rest : Bytes} {ps : List Piece} (he : escaped e = some c)
      (h : IsChars plain hex b ps rest) :
      IsChars plain hex (0x5C :: e :: b) (.char c :: ps) rest
  | unit {ds : Bytes} {n : Nat} {b rest : Bytes} {ps : List Piece} (hds : hex ds n)
      (h : IsChars plain hex b ps rest) :
      IsChars plain hex (0x5C :: 0x75 :: (ds ++ b)) (.unit n :: ps) rest

def IsString (plain : Char → Prop) (hex : Bytes → Nat → Prop) (b : Bytes) (ps : List Piece)
    (rest : Bytes) : Prop :=
  ∃ b', b = 0x22 :: b' ∧ IsChars plain hex b' ps rest

theorem IsChars.mono {plain plain' : Char → Prop} {hex hex' : Bytes → Nat → Prop}
    (hplain : ∀ c, plain c → plain' c) (hhex : ∀ ds n, hex ds n → hex' ds n) {b rest : Bytes}
    {ps : List Piece} (h : IsChars plain hex b ps rest) : IsChars plain' hex' b ps rest := by
  induction h with
  | close rest => exact .close rest
  | plain hquote hslash hc _ ih => exact .plain hquote hslash (hplain _ hc) ih
  | escape he _ ih => exact .escape he ih
  | unit hds _ ih => exact .unit (hhex _ _ hds) ih

theorem IsChars.length_lt {plain : Char → Prop} {hex : Bytes → Nat → Prop} {b rest : Bytes}
    {ps : List Piece} (h : IsChars plain hex b ps rest) : rest.length < b.length := by
  induction h with
  | close => exact Nat.lt_succ_self _
  | plain _ _ _ _ ih =>
    rw [List.length_append]
    omega
  | escape _ _ ih | unit _ _ ih =>
    simp only [List.length_cons, List.length_append]
    omega

/-- The first unit of a pair of surrogates. -/
def High (n : Nat) : Prop := 0xD800 ≤ n ∧ n ≤ 0xDBFF

def Low (n : Nat) : Prop := 0xDC00 ≤ n ∧ n ≤ 0xDFFF

/-- The code point of a pair. -/
def pairCode (n m : Nat) : Nat := 0x10000 + (n - 0xD800) * 1024 + (m - 0xDC00)

/-- The pieces are these characters; surrogates come in pairs. -/
inductive Says : List Piece → List Char → Prop
  | nil : Says [] []
  | char {ps : List Piece} {cs : List Char} (c : Char) (h : Says ps cs) :
      Says (.char c :: ps) (c :: cs)
  | unit {n : Nat} {ps : List Piece} {cs : List Char} (hn : ¬ High n) (hvalid : n.isValidChar)
      (h : Says ps cs) : Says (.unit n :: ps) (Char.ofNat n :: cs)
  | pair {n m : Nat} {ps : List Piece} {cs : List Char} (hn : High n) (hm : Low m)
      (hvalid : (pairCode n m).isValidChar) (h : Says ps cs) :
      Says (.unit n :: .unit m :: ps) (Char.ofNat (pairCode n m) :: cs)

/-! ## RFC 8259 -/

namespace Rfc8259

/-- Four hexadecimal digits. -/
def hexDigit (b : UInt8) : Option Nat :=
  if 0x30 ≤ b ∧ b ≤ 0x39 then some (b.toNat - 0x30)
  else if 0x41 ≤ b ∧ b ≤ 0x46 then some (b.toNat - 0x41 + 10)
  else if 0x61 ≤ b ∧ b ≤ 0x66 then some (b.toNat - 0x61 + 10)
  else none

def Hex4 (ds : Bytes) (n : Nat) : Prop :=
  ∃ d₁ d₂ d₃ d₄ n₁ n₂ n₃ n₄, ds = [d₁, d₂, d₃, d₄] ∧ hexDigit d₁ = some n₁ ∧
    hexDigit d₂ = some n₂ ∧ hexDigit d₃ = some n₃ ∧ hexDigit d₄ = some n₄ ∧
    n = ((n₁ * 16 + n₂) * 16 + n₃) * 16 + n₄

/-- Characters other than the control characters. -/
def Plain (c : Char) : Prop := 0x20 ≤ c.toNat

/-- No plus sign in front, digits in front of the point without a needless zero, and digits behind
a point and in an exponent. -/
def IsNumber (n : Numeral) : Prop :=
  n.sign ≠ some 0x2B ∧ (n.int = [0x30] ∨ ∃ d ds, n.int = d :: ds ∧ d ≠ 0x30) ∧
    n.frac ≠ some [] ∧ n.exp.all (·.digits ≠ []) = true

/-- The tokens of a JSON document, whatever they say. -/
def tokens : Tokens Unit Unit where
  number b _ rest := ∃ n : Numeral, IsNumber n ∧ b = n.text ++ rest
  string b _ rest := ∃ ps, IsString Plain Hex4 b ps rest

/-- A JSON document with at most so many containers one in another. -/
def Document (d : Nat) (s : String) : Prop := ∃ t, IsText tokens d (Bytes.ofString s) t

end Rfc8259

end JsonText
