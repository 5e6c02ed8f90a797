import CaveHome.Lib.MachineData
import Mathlib.Data.List.TakeWhile
import Mathlib.Data.String.Basic

/-!
# Decimal numerals

The texts of decimal numbers.  A numeral has digits in front of and behind its point and in its
exponent, and any of these may be missing; which numerals are read is for a reader to say.
-/

/-- A digit. -/
def Numeral.isDigit (b : UInt8) : Bool := 0x30 ≤ b && b ≤ 0x39

structure Numeral.Exponent where
  mark : UInt8
  sign : Option UInt8
  digits : Bytes
  mark_eq : mark = 0x65 ∨ mark = 0x45
  sign_eq : ∀ c ∈ sign, c = 0x2B ∨ c = 0x2D
  all_digits : ∀ c ∈ digits, Numeral.isDigit c = true

/-- A sign, digits, a fraction and an exponent. -/
structure Numeral where
  sign : Option UInt8
  int : Bytes
  frac : Option Bytes
  exp : Option Numeral.Exponent
  sign_eq : ∀ c ∈ sign, c = 0x2B ∨ c = 0x2D
  int_digits : ∀ c ∈ int, Numeral.isDigit c = true
  frac_digits : ∀ ds ∈ frac, ∀ c ∈ ds, Numeral.isDigit c = true

namespace Numeral

def Exponent.text (e : Exponent) : Bytes := e.mark :: (e.sign.toList ++ e.digits)

def fracText (n : Numeral) : Bytes := n.frac.elim [] (0x2E :: ·)

def expText (n : Numeral) : Bytes := n.exp.elim [] Exponent.text

def text (n : Numeral) : Bytes := n.sign.toList ++ (n.int ++ (n.fracText ++ n.expText))

/-- The numeral denotes a number: it has a digit in front of its exponent, and one in it. -/
def Denotes (n : Numeral) : Prop :=
  (n.int ≠ [] ∨ n.frac.any (· ≠ []) = true) ∧ n.exp.all (·.digits ≠ []) = true

instance (n : Numeral) : Decidable n.Denotes := inferInstanceAs (Decidable (_ ∧ _))

/-- A byte that a numeral may hold. -/
def isPart (b : UInt8) : Bool :=
  isDigit b || b == 0x2E || b == 0x65 || b == 0x45 || b == 0x2B || b == 0x2D

theorem isPart_of_isDigit {b : UInt8} (h : isDigit b = true) : isPart b = true := by
  simp only [isPart, h, Bool.true_or]

theorem isPart_of_sign {b : UInt8} (h : b = 0x2B ∨ b = 0x2D) : isPart b = true := by
  obtain rfl | rfl := h <;> rfl

theorem isPart_of_mark {b : UInt8} (h : b = 0x65 ∨ b = 0x45) : isPart b = true := by
  obtain rfl | rfl := h <;> rfl

theorem isPart_of_mem_text (n : Numeral) : ∀ b ∈ n.text, isPart b = true := by
  intro b hb
  simp only [text, List.mem_append, Option.mem_toList] at hb
  obtain hb | hb | hb | hb := hb
  · exact isPart_of_sign (n.sign_eq b hb)
  · exact isPart_of_isDigit (n.int_digits b hb)
  · rw [fracText] at hb
    cases hfrac : n.frac with
    | none => rw [hfrac] at hb; cases hb
    | some ds =>
      rw [hfrac] at hb
      obtain rfl | hb := List.mem_cons.mp hb
      · rfl
      · exact isPart_of_isDigit (n.frac_digits ds hfrac b hb)
  · rw [expText] at hb
    cases hexp : n.exp with
    | none => rw [hexp] at hb; cases hb
    | some e =>
      rw [hexp] at hb
      obtain rfl | hb := List.mem_cons.mp hb
      · exact isPart_of_mark e.mark_eq
      · obtain hb | hb := List.mem_append.mp hb
        · exact isPart_of_sign (e.sign_eq b (Option.mem_toList.mp hb))
        · exact isPart_of_isDigit (e.all_digits b hb)

/-! ## Taking a text apart -/

theorem forall_head_nil {P : UInt8 → Prop} : ∀ c ∈ ([] : Bytes).head?, P c := by
  intro c hc
  cases hc

/-- The text does not go on with a digit. -/
def NoDigit (b : Bytes) : Prop := ∀ c ∈ b.head?, isDigit c = false

theorem takeWhile_digits {ds rest : Bytes} (hds : ∀ c ∈ ds, isDigit c = true)
    (hrest : NoDigit rest) :
    (ds ++ rest).takeWhile isDigit = ds ∧ (ds ++ rest).dropWhile isDigit = rest := by
  have hnone : rest.takeWhile isDigit = [] ∧ rest.dropWhile isDigit = rest := by
    cases rest with
    | nil => exact ⟨rfl, rfl⟩
    | cons c rest =>
      have hc : isDigit c = false := hrest c rfl
      rw [List.takeWhile_cons, List.dropWhile_cons, hc]
      exact ⟨rfl, rfl⟩
  rw [List.takeWhile_append_of_pos hds, List.dropWhile_append_of_pos hds, hnone.1, hnone.2]
  exact ⟨List.append_nil ds, rfl⟩

theorem noDigit_expText (n : Numeral) {rest : Bytes} (hrest : NoDigit rest) :
    NoDigit (n.expText ++ rest) := by
  rw [expText]
  cases n.exp with
  | none => exact hrest
  | some e =>
    rintro _ ⟨⟩
    obtain h | h := e.mark_eq <;> rw [h] <;> rfl

theorem noDigit_fracText (n : Numeral) {rest : Bytes} (hrest : NoDigit rest) :
    NoDigit (n.fracText ++ (n.expText ++ rest)) := by
  rw [fracText]
  cases n.frac with
  | none => exact n.noDigit_expText hrest
  | some ds =>
    rintro _ ⟨⟩
    rfl

def splitSign (b : Bytes) : Option UInt8 × Bytes :=
  match b.head? with
  | some c => if c = 0x2B ∨ c = 0x2D then (some c, b.tail) else (none, b)
  | none => (none, b)

def splitFrac (b : Bytes) : Option Bytes × Bytes :=
  if b.head? = some 0x2E then (some (b.tail.takeWhile isDigit), b.tail.dropWhile isDigit)
  else (none, b)

theorem splitSign_eq (b : Bytes) : ∀ c ∈ (splitSign b).1, c = 0x2B ∨ c = 0x2D := by
  unfold splitSign
  intro c hc
  split at hc
  · split at hc
    next h =>
      obtain rfl := Option.some.inj hc
      exact h
    next => cases hc
  · cases hc

theorem splitSign_text (b : Bytes) : (splitSign b).1.toList ++ (splitSign b).2 = b := by
  unfold splitSign
  cases b with
  | nil => rfl
  | cons c b =>
    rw [List.head?_cons]
    dsimp only
    split <;> rfl

theorem splitSign_append {sign : Option UInt8} (hsign : ∀ c ∈ sign, c = 0x2B ∨ c = 0x2D)
    {b : Bytes} (hb : ∀ c ∈ b.head?, c ≠ 0x2B ∧ c ≠ 0x2D) :
    splitSign (sign.toList ++ b) = (sign, b) := by
  unfold splitSign
  cases sign with
  | none =>
    cases b with
    | nil => rfl
    | cons c b =>
      obtain ⟨hplus, hminus⟩ := hb c rfl
      exact if_neg (not_or.mpr ⟨hplus, hminus⟩)
  | some c => exact if_pos (hsign c rfl)

def splitExp (b : Bytes) : Option Exponent × Bytes :=
  match b with
  | [] => (none, [])
  | mark :: b =>
    if h : mark = 0x65 ∨ mark = 0x45 then
      (some ⟨mark, (splitSign b).1, (splitSign b).2.takeWhile isDigit, h, splitSign_eq b,
        fun _ hc => List.mem_takeWhile_imp hc⟩, (splitSign b).2.dropWhile isDigit)
    else (none, mark :: b)

/-- The numeral with this text. -/
def ofBytes? (b : Bytes) : Option Numeral :=
  let s := splitSign b
  let f := splitFrac (s.2.dropWhile isDigit)
  let e := splitExp f.2
  if e.2 = [] then
    some {
      sign := s.1
      int := s.2.takeWhile isDigit
      frac := f.1
      exp := e.1
      sign_eq := splitSign_eq b
      int_digits := fun _ hc => List.mem_takeWhile_imp hc
      frac_digits := by
        intro ds hds c hc
        simp only [f, splitFrac] at hds
        split at hds
        · obtain rfl := Option.some.inj hds
          exact List.mem_takeWhile_imp hc
        · cases hds }
  else none

theorem splitFrac_text (b : Bytes) :
    (splitFrac b).1.elim [] (0x2E :: ·) ++ (splitFrac b).2 = b := by
  unfold splitFrac
  split
  next h =>
    cases b with
    | nil => cases h
    | cons c b =>
      obtain rfl := Option.some.inj h
      exact congrArg (0x2E :: ·) (List.takeWhile_append_dropWhile)
  next => rfl

theorem splitExp_text (b : Bytes) : (splitExp b).1.elim [] Exponent.text ++ (splitExp b).2 = b := by
  cases b with
  | nil => rfl
  | cons mark b =>
    rw [splitExp]
    split
    next h =>
      have hdigits : (splitSign b).2.takeWhile isDigit ++ (splitSign b).2.dropWhile isDigit =
          (splitSign b).2 := List.takeWhile_append_dropWhile
      simp only [Option.elim_some, Exponent.text, List.cons_append, List.append_assoc]
      rw [hdigits, splitSign_text]
    next => rfl

theorem text_of_ofBytes? {b : Bytes} {n : Numeral} (h : ofBytes? b = some n) : n.text = b := by
  unfold ofBytes? at h
  dsimp only at h
  split at h
  next hend =>
    have hexp := splitExp_text (splitFrac ((splitSign b).2.dropWhile isDigit)).2
    rw [hend, List.append_nil] at hexp
    obtain rfl := Option.some.inj h
    simp only [text, fracText, expText]
    rw [hexp, splitFrac_text, List.takeWhile_append_dropWhile, splitSign_text]
  next => cases h

theorem splitFrac_append (n : Numeral) {rest : Bytes} (hrest : NoDigit rest)
    (hdot : ∀ c ∈ rest.head?, c ≠ 0x2E) :
    splitFrac (n.fracText ++ (n.expText ++ rest)) = (n.frac, n.expText ++ rest) := by
  have hexp := n.noDigit_expText hrest
  rw [fracText]
  cases hfrac : n.frac with
  | none =>
    refine if_neg fun hhead => ?_
    rw [Option.elim_none, List.nil_append, expText] at hhead
    cases he : n.exp with
    | none =>
      rw [he] at hhead
      exact hdot _ hhead rfl
    | some e =>
      rw [he] at hhead
      obtain h | h := e.mark_eq <;> exact absurd (h.symm.trans (Option.some.inj hhead)) (by decide)
  | some ds =>
    obtain ⟨htake, hdrop⟩ := takeWhile_digits (n.frac_digits ds hfrac) hexp
    refine (if_pos rfl).trans ?_
    rw [Option.elim_some, List.cons_append, List.tail_cons, htake, hdrop]

theorem splitExp_append (n : Numeral) {rest : Bytes} (hrest : NoDigit rest)
    (hmark : ∀ c ∈ rest.head?, c ≠ 0x65 ∧ c ≠ 0x45)
    (hsign : ∀ c ∈ rest.head?, c ≠ 0x2B ∧ c ≠ 0x2D) :
    splitExp (n.expText ++ rest) = (n.exp, rest) := by
  rw [expText]
  cases n.exp with
  | none =>
    cases rest with
    | nil => rfl
    | cons c rest =>
      obtain ⟨hlow, hhigh⟩ := hmark c rfl
      exact dif_neg (not_or.mpr ⟨hlow, hhigh⟩)
  | some e =>
    have hhead : ∀ c ∈ (e.digits ++ rest).head?, c ≠ 0x2B ∧ c ≠ 0x2D := by
      cases hd : e.digits with
      | nil => exact hsign
      | cons d ds =>
        rintro _ ⟨⟩
        have hdigit := e.all_digits d (hd ▸ List.mem_cons_self)
        constructor <;> rintro rfl <;> exact absurd hdigit (by decide)
    have hsplit : splitSign (e.sign.toList ++ (e.digits ++ rest)) = (e.sign, e.digits ++ rest) :=
      splitSign_append e.sign_eq hhead
    obtain ⟨htake, hdrop⟩ := takeWhile_digits e.all_digits hrest
    rw [Option.elim_some, Exponent.text, List.cons_append, List.append_assoc, splitExp,
      dif_pos e.mark_eq]
    simp only [hsplit, htake, hdrop]

theorem head_body (n : Numeral) {rest : Bytes} (hsign : ∀ c ∈ rest.head?, c ≠ 0x2B ∧ c ≠ 0x2D) :
    ∀ c ∈ (n.int ++ (n.fracText ++ (n.expText ++ rest))).head?, c ≠ 0x2B ∧ c ≠ 0x2D := by
  cases hint : n.int with
  | cons d ds =>
    rintro _ ⟨⟩
    have hdigit := n.int_digits d (hint ▸ List.mem_cons_self)
    constructor <;> rintro rfl <;> exact absurd hdigit (by decide)
  | nil =>
    rw [fracText, expText]
    cases n.frac with
    | some ds =>
      rintro _ ⟨⟩
      decide
    | none =>
      cases n.exp with
      | none => exact hsign
      | some e =>
        rintro _ ⟨⟩
        obtain h | h := e.mark_eq <;> rw [h] <;> decide

theorem ofBytes?_text (n : Numeral) : ofBytes? n.text = some n := by
  have hnil : NoDigit [] := forall_head_nil
  have hsign : splitSign n.text = (n.sign, n.int ++ (n.fracText ++ n.expText)) := by
    have hhead := n.head_body forall_head_nil
    rw [List.append_nil] at hhead
    exact splitSign_append n.sign_eq hhead
  have hfrac := n.splitFrac_append hnil forall_head_nil
  have hexp := n.splitExp_append hnil forall_head_nil forall_head_nil
  obtain ⟨htake, hdrop⟩ := takeWhile_digits n.int_digits (n.noDigit_fracText hnil)
  rw [List.append_nil] at hfrac hexp htake hdrop
  unfold ofBytes?
  simp only [hsign, htake, hdrop, hfrac, hexp, if_true]

end Numeral
