import Mathlib.Algebra.Order.BigOperators.Group.List
import Mathlib.Algebra.Ring.Int.Defs
import Mathlib.Data.List.Lex
import Mathlib.Order.Basic

/-!
# Machine data

Signed 64-bit and 32-bit numbers as integers with saturating and wrapping arithmetic; byte strings
with the lexicographic order; the correspondence between text and the byte strings that are valid
UTF-8.
-/

namespace I64

/-- The largest signed 64-bit number. -/
def maxValue : Int := 9223372036854775807

/-- The smallest signed 64-bit number. -/
def minValue : Int := -9223372036854775808

/-- Addition that stops at the ends of the range. -/
def saturatingAdd (a b : Int) : Int := max minValue (min maxValue (a + b))

def saturatingSub (a b : Int) : Int := max minValue (min maxValue (a - b))

def saturatingMul (a b : Int) : Int := max minValue (min maxValue (a * b))

/-- Addition that goes round at the ends of the range. -/
def wrappingAdd (a b : Int) : Int := (a + b - minValue) % 18446744073709551616 + minValue

theorem wrappingAdd_eq {a b : Int} (hmin : minValue ≤ a + b) (hmax : a + b ≤ maxValue) :
    wrappingAdd a b = a + b := by
  unfold wrappingAdd
  rw [minValue] at *
  rw [maxValue] at hmax
  omega

/-- The number that is left of an integer when only its low 64 bits are kept. -/
def wrap (x : Int) : Int := (x - minValue) % 18446744073709551616 + minValue

theorem wrap_eq {x : Int} (hmin : minValue ≤ x) (hmax : x ≤ maxValue) : wrap x = x := by
  unfold wrap
  rw [minValue] at *
  rw [maxValue] at hmax
  omega

theorem saturatingAdd_eq {a b : Int} (hmin : minValue ≤ a + b) (hmax : a + b ≤ maxValue) :
    saturatingAdd a b = a + b := by
  unfold saturatingAdd
  omega

theorem saturatingSub_eq {a b : Int} (hmin : minValue ≤ a - b) (hmax : a - b ≤ maxValue) :
    saturatingSub a b = a - b := by
  unfold saturatingSub
  omega

theorem saturatingAdd_one {a : Int} (h₀ : 0 ≤ a) (h : a ≤ maxValue) :
    saturatingAdd a 1 = if a = maxValue then maxValue else a + 1 := by
  unfold saturatingAdd
  have hm : minValue ≤ 0 := by decide
  have hM : 0 ≤ maxValue := by decide
  split_ifs <;> omega

section Folds

variable {α : Type*} {f : Int → α → Int} {g : α → Int} {as : List α} {acc : Int}

theorem foldl_add_eq
    (hf : ∀ a, ∀ x ∈ as, minValue ≤ a + g x → a + g x ≤ maxValue → f a x = a + g x)
    (hg : ∀ x ∈ as, 0 ≤ g x) (hmin : minValue ≤ acc) (hmax : acc + (as.map g).sum ≤ maxValue) :
    as.foldl f acc = acc + (as.map g).sum := by
  induction as generalizing acc with
  | nil => simp
  | cons x as ih =>
    have hx : 0 ≤ g x := hg x List.mem_cons_self
    have hrest : 0 ≤ (as.map g).sum := List.sum_nonneg <| by
      simpa using fun y hy => hg y (List.mem_cons_of_mem x hy)
    rw [List.map_cons, List.sum_cons] at hmax ⊢
    rw [List.foldl_cons, hf acc x List.mem_cons_self (by omega) (by omega),
      ih (fun a y hy => hf a y (List.mem_cons_of_mem x hy))
        (fun y hy => hg y (List.mem_cons_of_mem x hy)) (by omega) (by omega)]
    omega

theorem foldl_sub_eq
    (hf : ∀ a, ∀ x ∈ as, minValue ≤ a - g x → a - g x ≤ maxValue → f a x = a - g x)
    (hg : ∀ x ∈ as, 0 ≤ g x) (hmax : acc ≤ maxValue) (hmin : minValue ≤ acc - (as.map g).sum) :
    as.foldl f acc = acc - (as.map g).sum := by
  induction as generalizing acc with
  | nil => simp
  | cons x as ih =>
    have hx : 0 ≤ g x := hg x List.mem_cons_self
    have hrest : 0 ≤ (as.map g).sum := List.sum_nonneg <| by
      simpa using fun y hy => hg y (List.mem_cons_of_mem x hy)
    rw [List.map_cons, List.sum_cons] at hmin ⊢
    rw [List.foldl_cons, hf acc x List.mem_cons_self (by omega) (by omega),
      ih (fun a y hy => hf a y (List.mem_cons_of_mem x hy))
        (fun y hy => hg y (List.mem_cons_of_mem x hy)) (by omega) (by omega)]
    omega

end Folds

end I64

namespace I32

/-- The largest signed 32-bit number. -/
def maxValue : Int := 2147483647

/-- The signed 32-bit number that arithmetic going round at the ends of the range gives. -/
def wrap (x : Int) : Int := (x + 2147483648) % 4294967296 - 2147483648

theorem wrap_eq {x : Int} (hmin : -2147483648 ≤ x) (hmax : x ≤ maxValue) : wrap x = x := by
  unfold wrap
  rw [maxValue] at hmax
  omega

/-- The number of things, as far as it is in range. -/
def clamp (n : Nat) : Int := min (n : Int) maxValue

end I32

/-- Byte strings. -/
abbrev Bytes := List UInt8

namespace Bytes

/-- Bytes are ordered by value, so that byte strings are ordered lexicographically. -/
instance : LinearOrder UInt8 where
  le_refl := UInt8.le_refl
  le_trans _ _ _ := UInt8.le_trans
  le_antisymm _ _ := UInt8.le_antisymm
  le_total := UInt8.le_total
  lt_iff_le_not_ge a b := by
    rw [UInt8.lt_iff_toNat_lt, UInt8.le_iff_toNat_le, UInt8.le_iff_toNat_le]
    omega
  toDecidableLE := inferInstance
  toDecidableLT := inferInstance
  toDecidableEq := inferInstance

/-- The UTF-8 bytes of a text. -/
def ofString (s : String) : Bytes := s.toByteArray.data.toList

/-- The text encoded by a byte string, if the byte string is valid UTF-8. -/
def toString? (b : Bytes) : Option String := String.fromUTF8? ⟨b.toArray⟩

/-- Whether a byte may follow the lead byte `b₀` of a sequence of three or four bytes. -/
def secondByteOk (b₀ b₁ : UInt8) : Bool :=
  if b₀ = 0xE0 then 0xA0 ≤ b₁ && b₁ ≤ 0xBF
  else if b₀ = 0xED then 0x80 ≤ b₁ && b₁ ≤ 0x9F
  else if b₀ = 0xF0 then 0x90 ≤ b₁ && b₁ ≤ 0xBF
  else if b₀ = 0xF4 then 0x80 ≤ b₁ && b₁ ≤ 0x8F
  else 0xE1 ≤ b₀ && b₀ ≤ 0xF3 && 0x80 ≤ b₁ && b₁ ≤ 0xBF

/-- How many bytes after the lead byte of a broken sequence belong to it. -/
def brokenTail (b₀ : UInt8) : Bytes → Nat
  | [] => 0
  | [b₁] => if secondByteOk b₀ b₁ then 1 else 0
  | b₁ :: b₂ :: _ =>
    if secondByteOk b₀ b₁ then
      if 0xF0 ≤ b₀ && 0x80 ≤ b₂ && b₂ ≤ 0xBF then 2 else 1
    else 0

/-- The characters of a byte string; every broken sequence becomes a replacement character. -/
def lossyChars : Nat → Bytes → List Char
  | 0, _ => []
  | _, [] => []
  | fuel + 1, b₀ :: rest =>
    match ByteArray.utf8DecodeChar? ⟨(b₀ :: rest).toArray⟩ 0 with
    | some c => c :: lossyChars fuel (rest.drop (c.utf8Size - 1))
    | none => Char.ofNat 0xFFFD :: lossyChars fuel (rest.drop (brokenTail b₀ rest))

/-- The text of a byte string, with replacement characters where it is not valid UTF-8. -/
def toStringLossy (b : Bytes) : String :=
  match toString? b with
  | some s => s
  | none => String.ofList (lossyChars b.length b)

theorem toStringLossy_ofString {b : Bytes} {s : String} (h : toString? b = some s) :
    toStringLossy b = s := by
  rw [toStringLossy, h]

theorem ofString_injective : Function.Injective ofString := by
  intro s t h
  have hd : s.toByteArray.data = t.toByteArray.data := Array.toList_inj.1 h
  apply String.toByteArray_inj.1
  exact ByteArray.ext hd

theorem toString?_ofString (s : String) : toString? (ofString s) = some s := by
  have hb : (⟨(ofString s).toArray⟩ : ByteArray) = s.toByteArray := by
    apply ByteArray.ext
    simp [ofString]
  unfold toString?
  rw [hb, String.fromUTF8?, dif_pos s.isValidUTF8]
  rfl

theorem toString?_eq_some_iff {b : Bytes} {s : String} : toString? b = some s ↔ ofString s = b := by
  constructor
  · intro h
    unfold toString? String.fromUTF8? at h
    split_ifs at h with hv
    obtain rfl := Option.some.inj h
    simp [ofString, String.fromUTF8]
  · rintro rfl
    exact toString?_ofString s

theorem ofString_ofList {cs : List Char} (h : ∀ c ∈ cs, c.toNat < 128) :
    ofString (String.ofList cs) = cs.map fun c => c.toNat.toUInt8 := by
  unfold ofString
  rw [String.toByteArray_ofList]
  induction cs with
  | nil => rfl
  | cons c cs ih =>
    have hc : c.utf8Size = 1 := by
      have hlt : c.toNat < 128 := h c List.mem_cons_self
      exact Char.utf8Size_eq_one_iff.mpr (UInt32.le_iff_toNat_le.mpr (Nat.le_of_lt_succ hlt))
    rw [List.utf8Encode_cons, ByteArray.data_append, Array.toList_append,
      ih fun c hc => h c (List.mem_cons_of_mem _ hc), List.utf8Encode_singleton,
      String.utf8EncodeChar_eq_singleton hc]
    rfl

theorem isPrefix_of_ofString {s t : String} (h : ofString s <+: ofString t) :
    s.toList <+: t.toList := by
  obtain ⟨rest, hrest⟩ := h
  refine List.isPrefix_of_utf8Encode_append_eq_utf8Encode ⟨rest.toArray⟩ ?_
  rw [String.utf8Encode_toList, String.utf8Encode_toList]
  apply ByteArray.ext
  rw [ByteArray.data_append]
  apply Array.toList_inj.1
  simpa [ofString] using hrest

end Bytes
