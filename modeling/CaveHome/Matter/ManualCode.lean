import CaveHome.Lib.CheckDigits
import CaveHome.Matter.SetupPayload
import Mathlib.Data.Fin.VecNotation
import Mathlib.GroupTheory.SpecificGroups.Dihedral

/-!
# Manual pairing codes

A setup payload as 11 or 21 decimal digits, the last of which is a check digit.  The table of the
check digit is the multiplication of a dihedral group, and its permutations go round every eight
places from the right.
-/

namespace CaveHome.Matter

open CheckDigits

/-! ## The check digit -/

def VERHOEFF_D : Fin 10 → Fin 10 → Fin 10 :=
  ![![0, 1, 2, 3, 4, 5, 6, 7, 8, 9],
    ![1, 2, 3, 4, 0, 6, 7, 8, 9, 5],
    ![2, 3, 4, 0, 1, 7, 8, 9, 5, 6],
    ![3, 4, 0, 1, 2, 8, 9, 5, 6, 7],
    ![4, 0, 1, 2, 3, 9, 5, 6, 7, 8],
    ![5, 9, 8, 7, 6, 0, 4, 3, 2, 1],
    ![6, 5, 9, 8, 7, 1, 0, 4, 3, 2],
    ![7, 6, 5, 9, 8, 2, 1, 0, 4, 3],
    ![8, 7, 6, 5, 9, 3, 2, 1, 0, 4],
    ![9, 8, 7, 6, 5, 4, 3, 2, 1, 0]]

def VERHOEFF_P : Fin 8 → Fin 10 → Fin 10 :=
  ![![0, 1, 2, 3, 4, 5, 6, 7, 8, 9],
    ![1, 5, 7, 6, 2, 8, 3, 0, 9, 4],
    ![5, 8, 0, 3, 7, 9, 6, 1, 4, 2],
    ![8, 9, 1, 6, 0, 4, 3, 5, 2, 7],
    ![9, 4, 5, 3, 1, 2, 6, 8, 7, 0],
    ![4, 2, 8, 6, 5, 7, 3, 9, 0, 1],
    ![2, 7, 9, 3, 8, 0, 6, 4, 1, 5],
    ![7, 0, 4, 6, 9, 1, 3, 2, 5, 8]]

def VERHOEFF_INV : Fin 10 → Fin 10 := ![0, 4, 3, 2, 1, 5, 6, 7, 8, 9]

/-- The loop over the digits from the right, the first of which is at place `i`. -/
def verhoeffLoop : Nat → Fin 10 → List (Fin 10) → Fin 10
  | _, c, [] => c
  | i, c, d :: digits =>
    let permuted := VERHOEFF_P (Fin.ofNat 8 (i + 1)) d
    verhoeffLoop (i + 1) (VERHOEFF_D c permuted) digits

/-- The check digit of a text of digits. -/
def verhoeffComputeCheck (s : List (Fin 10)) : Fin 10 :=
  VERHOEFF_INV (verhoeffLoop 0 0 s.reverse)

/-! ## Reading a code -/

def digitOf (c : Char) : Option (Fin 10) :=
  if h : 48 ≤ c.toNat ∧ c.toNat ≤ 57 then some ⟨c.toNat - 48, by omega⟩ else none

/-- The number that digits stand for. -/
def decimal (ds : List (Fin 10)) : Nat := ds.foldl (fun n d => n * 10 + d.val) 0

/-- A number of 16 bits. -/
def parseU16 (message : String) (ds : List (Fin 10)) : Except MatterError UInt16 :=
  if decimal ds ≤ 65535 then .ok (UInt16.ofNat (decimal ds))
  else .error (.setupPayloadParse message)

def MANUAL_SHORT_LEN : Nat := 11

def MANUAL_LONG_LEN : Nat := 21

/-- The payload of the digits without the check digit. -/
def manualPayload (long : Bool) (body : List (Fin 10)) : Except MatterError SetupPayload := do
  let d1 := decimal (body.take 1)
  let d2 := decimal ((body.drop 1).take 5)
  let d3 := decimal ((body.drop 6).take 4)
  let discMsb3 := d1 &&& 0x7
  let passcodeLow14 := (d2 >>> 1) &&& 0x3FFF
  let discLsb1 := d2 &&& 0x1
  let passcodeHigh13 := d3 &&& 0x1FFF
  let discriminator := (discMsb3 <<< 1) ||| discLsb1
  let passcode := ((passcodeHigh13 <<< 14) ||| passcodeLow14) &&& 0x07FFFFFF
  let vendorId ← if long then parseU16 "bad VID chunk" ((body.drop 10).take 5) else pure 0
  let productId ← if long then parseU16 "bad PID chunk" ((body.drop 15).take 5) else pure 0
  let payload : SetupPayload := {
    version := 0
    vendorId
    productId
    commissioningFlow := .standard
    rendezvousInformation := 0b10
    -- a code of digits has only four bits of the discriminator
    discriminator := UInt16.ofNat (discriminator &&& 0x0F)
    passcode := UInt32.ofNat passcode }
  payload.validate
  return payload

def parseManualPairingCode (code : String) : Except MatterError SetupPayload :=
  match code.toList.mapM digitOf with
  | none => .error (.setupPayloadParse "manual code must be ASCII digits")
  | some digits =>
    if digits.length ≠ MANUAL_SHORT_LEN ∧ digits.length ≠ MANUAL_LONG_LEN then
      .error (.setupPayloadParse
        ("manual code must be 11 or 21 digits, got " ++ toString digits.length))
    else
      let body := digits.dropLast
      let providedCheck := digits.getLast?.getD 0
      let expectedCheck := verhoeffComputeCheck body
      if providedCheck ≠ expectedCheck then
        .error (.setupPayloadParse ("Verhoeff check failed: expected " ++
          toString expectedCheck ++ ", got " ++ toString providedCheck))
      else manualPayload (digits.length = MANUAL_LONG_LEN) body

/-! ## The group of the table -/

/-- The digits as rotations and reflections. -/
def element (d : Fin 10) : DihedralGroup 5 :=
  if d.val < 5 then .r (d.val : ZMod 5) else .sr (-(d.val : ZMod 5))

theorem element_mul (a b : Fin 10) : element (VERHOEFF_D a b) = element a * element b := by
  revert a b
  decide

theorem element_inv (a : Fin 10) : element (VERHOEFF_INV a) = (element a)⁻¹ := by
  revert a
  decide

theorem element_injective : Function.Injective element := by
  unfold Function.Injective
  decide

theorem element_zero : element 0 = 1 := rfl

/-- What a digit contributes at place `i` from the right. -/
def value (i : ℕ) (d : Fin 10) : DihedralGroup 5 := element (VERHOEFF_P (Fin.ofNat 8 i) d)

theorem value_injective (i : ℕ) : Function.Injective (value i) := by
  have hrow : ∀ (k : Fin 8) (a b : Fin 10), VERHOEFF_P k a = VERHOEFF_P k b → a = b := by
    decide
  exact fun a b h => hrow _ a b (element_injective h)

theorem eq_of_value_swap {i : ℕ} {a b : Fin 10}
    (h : value i a * value (i + 1) b = value i b * value (i + 1) a) : a = b := by
  have hrows : ∀ (k : Fin 8) (a b : Fin 10),
      VERHOEFF_D (VERHOEFF_P k a) (VERHOEFF_P (k + 1) b) =
        VERHOEFF_D (VERHOEFF_P k b) (VERHOEFF_P (k + 1) a) → a = b := by
    decide
  have hnext : Fin.ofNat 8 (i + 1) = Fin.ofNat 8 i + 1 := by
    apply Fin.ext
    simp [Fin.val_add]
  refine hrows (Fin.ofNat 8 i) a b (element_injective ?_)
  rw [element_mul, element_mul, ← hnext]
  exact h

theorem element_verhoeffLoop (i : ℕ) (c : Fin 10) (ds : List (Fin 10)) :
    element (verhoeffLoop i c ds) = element c * weighted value (i + 1) ds := by
  induction ds generalizing i c with
  | nil => rw [verhoeffLoop, weighted, mul_one]
  | cons d ds ih =>
    rw [verhoeffLoop, ih, element_mul, weighted, mul_assoc]
    rfl

theorem eq_verhoeffComputeCheck_iff {body : List (Fin 10)} {c : Fin 10} :
    c = verhoeffComputeCheck body ↔ weighted value 0 (body ++ [c]).reverse = 1 := by
  have hfirst : value 0 c = element c := by
    revert c
    decide
  rw [List.reverse_append, List.reverse_singleton, List.singleton_append, weighted, hfirst,
    mul_eq_one_iff_eq_inv, ← element_injective.eq_iff, verhoeffComputeCheck, element_inv,
    element_verhoeffLoop, element_zero, one_mul]

/-! ## Errors in digits -/

/-- One letter was replaced, or two neighbours were exchanged. -/
inductive OneError {α : Type} : List α → List α → Prop
  | replaced (front back : List α) {a b : α} (h : a ≠ b) :
    OneError (front ++ a :: back) (front ++ b :: back)
  | swapped (front back : List α) {a b : α} (h : a ≠ b) :
    OneError (front ++ a :: b :: back) (front ++ b :: a :: back)

theorem OneError.weighted_ne {s t : List (Fin 10)} (h : OneError s t) :
    weighted value 0 s.reverse ≠ weighted value 0 t.reverse := by
  cases h with
  | replaced front back hne =>
    rw [List.reverse_append, List.reverse_append, List.reverse_cons, List.reverse_cons,
      List.append_assoc, List.append_assoc]
    exact fun heq => hne ((weighted_change_iff (value_injective _)).mp heq)
  | @swapped front back a b hne =>
    rw [List.reverse_append, List.reverse_append, List.reverse_cons, List.reverse_cons,
      List.reverse_cons, List.reverse_cons, List.append_assoc, List.append_assoc, List.append_assoc,
      List.append_assoc]
    exact fun heq => hne (eq_of_value_swap ((weighted_swap_iff rfl).mp heq)).symm

/-- The text ends with the check digit of the rest. -/
def Checks (t : List (Fin 10)) : Prop := t.getLast? = some (verhoeffComputeCheck t.dropLast)

theorem checks_iff {t : List (Fin 10)} :
    Checks t ↔ t ≠ [] ∧ weighted value 0 t.reverse = 1 := by
  unfold Checks
  rcases List.eq_nil_or_concat t with rfl | ⟨body, c, rfl⟩
  · simp
  · rw [List.concat_eq_append, List.getLast?_concat, List.dropLast_concat, Option.some.injEq,
      eq_verhoeffComputeCheck_iff]
    simp

theorem OneError.not_checks {s t : List (Fin 10)} (h : OneError s t) (hs : Checks s) :
    ¬ Checks t :=
  fun ht => h.weighted_ne ((checks_iff.mp hs).2.trans (checks_iff.mp ht).2.symm)

theorem checks_of_parse {code : String} {p : SetupPayload}
    (h : parseManualPairingCode code = .ok p) :
    ∃ digits, code.toList.mapM digitOf = some digits ∧ Checks digits := by
  unfold parseManualPairingCode at h
  split at h
  · cases h
  next digits hdigits =>
    refine ⟨digits, hdigits, ?_⟩
    split at h
    · cases h
    next hlength =>
      dsimp only at h
      split at h
      · cases h
      next hcheck =>
        unfold Checks
        rw [← not_not.mp hcheck]
        have hne : digits ≠ [] := by
          rintro rfl
          exact hlength ⟨by decide, by decide⟩
        rw [List.getLast?_eq_some_getLast hne]
        rfl

theorem digitOf_injective {a b : Char} {d : Fin 10} (ha : digitOf a = some d)
    (hb : digitOf b = some d) : a = b := by
  unfold digitOf at ha hb
  split at ha
  · split at hb
    · have hval := congrArg Fin.val (Option.some.inj (ha.trans hb.symm))
      dsimp only at hval
      exact Char.toNat_inj.mp (by omega)
    · cases hb
  · cases ha

theorem OneError.mapM {α β : Type} {f : α → Option β}
    (hf : ∀ a b x, f a = some x → f b = some x → a = b) {s t : List α} (h : OneError s t)
    {s' t' : List β} (hs : s.mapM f = some s') (ht : t.mapM f = some t') : OneError s' t' := by
  cases h with
  | @replaced front back a b hne =>
    rw [List.mapM_append, List.mapM_cons] at hs ht
    simp only [Option.bind_eq_bind, Option.bind_eq_some_iff, Option.pure_def,
      Option.some.injEq] at hs ht
    obtain ⟨front', hfront, _, ⟨x, hx, back', hback, rfl⟩, rfl⟩ := hs
    obtain ⟨front'', hfront', _, ⟨y, hy, back'', hback', rfl⟩, rfl⟩ := ht
    obtain rfl := Option.some.inj (hfront.symm.trans hfront')
    obtain rfl := Option.some.inj (hback.symm.trans hback')
    exact .replaced front' back' fun heq => hne (hf a b x hx (heq ▸ hy))
  | @swapped front back a b hne =>
    rw [List.mapM_append, List.mapM_cons, List.mapM_cons] at hs ht
    simp only [Option.bind_eq_bind, Option.bind_eq_some_iff, Option.pure_def,
      Option.some.injEq] at hs ht
    obtain ⟨front', hfront, _, ⟨x, hx, _, ⟨y, hy, back', hback, rfl⟩, rfl⟩, rfl⟩ := hs
    obtain ⟨front'', hfront', _, ⟨y', hy', _, ⟨x', hx', back'', hback', rfl⟩, rfl⟩, rfl⟩ := ht
    obtain rfl := Option.some.inj (hfront.symm.trans hfront')
    obtain rfl := Option.some.inj (hback.symm.trans hback')
    obtain rfl := Option.some.inj (hx.symm.trans hx')
    obtain rfl := Option.some.inj (hy.symm.trans hy')
    exact .swapped front' back' fun heq => hne (hf a b x hx (heq ▸ hy))

/-- At every length the check digit finds a digit that was replaced and two different neighbours
that were exchanged, and so two codes that are accepted do not differ in such a way. -/
theorem verhoeff_detects (s : List (Fin 10)) :
    (∀ t, OneError (s ++ [verhoeffComputeCheck s]) t →
      t.getLast? ≠ some (verhoeffComputeCheck t.dropLast)) ∧
    ∀ code code' p p', parseManualPairingCode code = .ok p →
      parseManualPairingCode code' = .ok p' → ¬ OneError code.toList code'.toList := by
  constructor
  · intro t h
    refine h.not_checks ?_
    unfold Checks
    rw [List.getLast?_concat, List.dropLast_concat]
  · intro code code' p p' hcode hcode' h
    obtain ⟨digits, hdigits, hchecks⟩ := checks_of_parse hcode
    obtain ⟨digits', hdigits', hchecks'⟩ := checks_of_parse hcode'
    exact (h.mapM (fun a b x => digitOf_injective) hdigits hdigits').not_checks hchecks hchecks'

/-- The check digit of 236 is 3, and 4 is not. -/
theorem verhoeff_detects_four :
    ([2, 3, 6, 4] : List (Fin 10)).getLast? ≠
      some (verhoeffComputeCheck ([2, 3, 6, 4] : List (Fin 10)).dropLast) := by
  have hcheck : verhoeffComputeCheck [2, 3, 6] = 3 := by decide
  refine (verhoeff_detects [2, 3, 6]).1 [2, 3, 6, 4] ?_
  rw [hcheck]
  exact .replaced [2, 3, 6] [] (by decide)

end CaveHome.Matter
