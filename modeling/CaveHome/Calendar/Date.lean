import CaveHome.Lib.Gregorian
import CaveHome.Lib.MachineData
import Mathlib.Data.Int.Interval
import Mathlib.Data.Prod.Lex

/-!
# Dates

A date has a year of 32 bits, a month and a day of it.  Dates are counted in days and in months, and
what the arithmetic of the source computes is said in terms of these counts.  Where a number leaves
the range of its type, or a conversion to a smaller type changes it, there is no result.
-/

namespace CaveHome.Calendar

open Gregorian

/-! ## Numbers in range -/

/-- A signed number of 64 bits. -/
def checkI64 (x : Int) : Option Int := if I64.minValue ≤ x ∧ x ≤ I64.maxValue then some x else none

theorem checkI64_of_mem {x : Int} (h : -9223372036854775808 ≤ x ∧ x ≤ 9223372036854775807) :
    checkI64 x = some x := if_pos h

/-- The signed numbers of 32 bits. -/
abbrev I32Val := {x : Int // -2147483648 ≤ x ∧ x ≤ 2147483647}

def checkI32 (x : Int) : Option I32Val :=
  if h : -2147483648 ≤ x ∧ x ≤ 2147483647 then some ⟨x, h⟩ else none

theorem checkI32_eq_some_iff {x : Int} {y : I32Val} : checkI32 x = some y ↔ y.1 = x := by
  unfold checkI32
  constructor
  · intro h
    split at h
    · rw [← Option.some.inj h]
    · cases h
  · rintro rfl
    rw [dif_pos y.2]

/-! ## Weekdays -/

inductive Weekday
  | monday
  | tuesday
  | wednesday
  | thursday
  | friday
  | saturday
  | sunday
deriving DecidableEq

namespace Weekday

def indexFromMonday : Weekday → Nat
  | monday => 0
  | tuesday => 1
  | wednesday => 2
  | thursday => 3
  | friday => 4
  | saturday => 5
  | sunday => 6

def fromIndexFromMonday (i : Int) : Weekday :=
  match (i % 7).toNat with
  | 0 => monday
  | 1 => tuesday
  | 2 => wednesday
  | 3 => thursday
  | 4 => friday
  | 5 => saturday
  | _ => sunday

theorem indexFromMonday_lt (w : Weekday) : w.indexFromMonday < 7 := by cases w <;> decide

theorem indexFromMonday_injective {v w : Weekday}
    (h : v.indexFromMonday = w.indexFromMonday) : v = w := by
  cases v <;> cases w <;> first | rfl | cases h

theorem indexFromMonday_fromIndex (i : Int) :
    ((fromIndexFromMonday i).indexFromMonday : Int) = i % 7 := by
  have hfin : ∀ k : Fin 7, (fromIndexFromMonday k.val).indexFromMonday = k.val := by decide
  obtain ⟨k, hk⟩ : ∃ k : Fin 7, (k.val : Int) = i % 7 := ⟨⟨(i % 7).toNat, by omega⟩, by
    dsimp only
    omega⟩
  have hmod : fromIndexFromMonday i = fromIndexFromMonday k.val := by
    unfold fromIndexFromMonday
    rw [hk, Int.emod_emod]
  rw [hmod, hfin k, hk]

end Weekday

/-! ## Dates -/

/-- The lengths of the months of a year without a leap day, from index 1 on. -/
def MONTH_LENGTHS : List Nat := [0, 31, 28, 31, 30, 31, 30, 31, 31, 30, 31, 30, 31]

def isLeapYear (year : Int) : Bool :=
  (year.tmod 4 == 0 && year.tmod 100 != 0) || year.tmod 400 == 0

def daysInMonth (year : Int) (month : Nat) : Nat :=
  if month = 0 ∨ 12 < month then 0
  else if month = 2 ∧ isLeapYear year = true then 29
  else MONTH_LENGTHS.getD month 0

theorem isLeapYear_iff (year : Int) : isLeapYear year = true ↔ IsLeap year := by
  unfold isLeapYear IsLeap
  simp only [Bool.or_eq_true, Bool.and_eq_true, beq_iff_eq, bne_iff_ne, ne_eq,
    ← Int.dvd_iff_tmod_eq_zero]
  omega

theorem daysInMonth_eq (year : Int) {month : Nat} (h₁ : 1 ≤ month) (h : month ≤ 12) :
    daysInMonth year month = Gregorian.daysInMonth year month := by
  have hleap := isLeapYear_iff year
  unfold daysInMonth Gregorian.daysInMonth
  rw [if_neg (by omega)]
  by_cases h2 : month = 2
  · subst h2
    by_cases hyear : IsLeap year
    · rw [if_pos ⟨rfl, hleap.mpr hyear⟩, if_pos rfl, if_pos hyear]
    · rw [if_neg fun hc => hyear (hleap.mp hc.2), if_pos rfl, if_neg hyear]
      rfl
  · rw [if_neg fun hc => h2 hc.1, if_neg h2]
    have hall : ∀ m ≤ 12, 1 ≤ m → m ≠ 2 → MONTH_LENGTHS.getD m 0 =
        if m = 4 ∨ m = 6 ∨ m = 9 ∨ m = 11 then 30 else 31 := by decide
    exact hall month h h₁ h2

inductive DateError
  | monthOutOfRange
  | dayOutOfRange
  | timeOutOfRange
deriving DecidableEq

/-- A month of a year and a day of that month. -/
structure Date where
  year : I32Val
  month : Nat
  day : Nat
  month_mem : 1 ≤ month ∧ month ≤ 12
  day_mem : 1 ≤ day ∧ day ≤ daysInMonth year.1 month
deriving DecidableEq

namespace Date

def new (year : I32Val) (month day : Nat) : Except DateError Date :=
  if hmonth : month = 0 ∨ 12 < month then .error .monthOutOfRange
  else if hday : day = 0 ∨ daysInMonth year.1 month < day then .error .dayOutOfRange
  else .ok ⟨year, month, day, by omega, by omega⟩

/-- The number of days since the first of January 1970. -/
def daysFromEpoch (date : Date) : Int :=
  let y : Int := if date.month ≤ 2 then date.year.1 - 1 else date.year.1
  let era := (if 0 ≤ y then y else y - 399).tdiv 400
  let yoe := y - era * 400
  let m : Int := date.month
  let d : Int := date.day
  let doy := (153 * (if 2 < m then m - 3 else m + 9) + 2) / 5 + d - 1
  let doe := yoe * 365 + yoe / 4 - yoe / 100 + doy
  era * 146097 + doe - 719468

def fromDaysFromEpoch (z : Int) : Option Date := do
  let z ← checkI64 (z + 719468)
  let era := (if 0 ≤ z then z else z - 146096).tdiv 146097
  let doe := z - era * 146097
  let yoe := (doe - doe / 1460 + doe / 36524 - doe / 146096) / 365
  let y := yoe + era * 400
  let doy := doe - (365 * yoe + yoe / 4 - yoe / 100)
  let mp := (5 * doy + 2) / 153
  let d := doy - (153 * mp + 2) / 5 + 1
  let m := if mp < 10 then mp + 3 else mp - 9
  let year ← checkI32 (if m ≤ 2 then y + 1 else y)
  (new year m.toNat d.toNat).toOption

def weekday (date : Date) : Weekday := .fromIndexFromMonday ((date.daysFromEpoch + 3) % 7)

def addDays (date : Date) (n : Int) : Option Date :=
  (checkI64 (date.daysFromEpoch + n)).bind fromDaysFromEpoch

theorem one_le_daysInMonth (year : Int) {month : Nat} (h : 1 ≤ month ∧ month ≤ 12) :
    1 ≤ daysInMonth year month := by
  have hmem := Gregorian.daysInMonth_mem year month
  rw [daysInMonth_eq year h.1 h.2]
  omega

/-- The same day of another month, or the last one of that month. -/
def clamped (date : Date) (year : I32Val) (month : Nat) (h : 1 ≤ month ∧ month ≤ 12) : Date :=
  let max := daysInMonth year.1 month
  ⟨year, month, if max < date.day then max else date.day, h, by
    have hone := one_le_daysInMonth year.1 h
    have hday := date.day_mem.1
    split <;> omega⟩

def addMonthsClamped (date : Date) (months : Int) : Option Date := do
  let zeroBased ← checkI64 (date.year.1 * 12 + (date.month - 1) + months)
  let year ← checkI32 (zeroBased / 12)
  return date.clamped year (zeroBased % 12 + 1).toNat (by omega)

def addYearsClamped (date : Date) (years : I32Val) : Option Date := do
  let year ← checkI32 (date.year.1 + years.1)
  return date.clamped year date.month date.month_mem

/-! ## Counting days and months -/

/-- The number of the month, counted from January of the year 0. -/
def monthIndex (date : Date) : Int := date.year.1 * 12 + (date.month - 1)

theorem monthIndex_div (date : Date) : date.monthIndex / 12 = date.year.1 := by
  have hmonth := date.month_mem
  unfold monthIndex
  omega

theorem monthIndex_mod (date : Date) : (date.monthIndex % 12 + 1).toNat = date.month := by
  have hmonth := date.month_mem
  unfold monthIndex
  omega

theorem monthLength_monthIndex (date : Date) :
    monthLength date.monthIndex = daysInMonth date.year.1 date.month := by
  rw [monthLength, date.monthIndex_div, date.monthIndex_mod,
    daysInMonth_eq _ date.month_mem.1 date.month_mem.2]

theorem daysFromEpoch_eq (date : Date) :
    date.daysFromEpoch = monthFirst date.monthIndex + date.day - 1 := by
  have hmonth := date.month_mem
  have hyear : (if date.month ≤ 2 then date.year.1 - 1 else date.year.1) =
      (date.monthIndex - 2) / 12 := by
    unfold monthIndex
    split <;> omega
  have hmp : (if 2 < (date.month : Int) then (date.month : Int) - 3 else (date.month : Int) + 9) =
      (date.monthIndex - 2) % 12 := by
    unfold monthIndex
    split <;> omega
  have hnumber := number_eq ((date.monthIndex - 2) / 12) ((date.monthIndex - 2) % 12) date.day
  unfold number at hnumber
  dsimp only at hnumber
  unfold daysFromEpoch
  dsimp only
  rw [hyear, hmp]
  exact hnumber

theorem ext_monthIndex {d d' : Date} (hmonth : d.monthIndex = d'.monthIndex)
    (hday : d.day = d'.day) : d = d' := by
  have hyear : d.year = d'.year := by
    apply Subtype.ext
    rw [← d.monthIndex_div, ← d'.monthIndex_div, hmonth]
  have hnumber : d.month = d'.month := by
    rw [← d.monthIndex_mod, ← d'.monthIndex_mod, hmonth]
  cases d
  cases d'
  cases hyear
  cases hnumber
  cases hday
  rfl

theorem daysFromEpoch_lt_iff {d d' : Date} : d.daysFromEpoch < d'.daysFromEpoch ↔
    d.monthIndex < d'.monthIndex ∨ d.monthIndex = d'.monthIndex ∧ d.day < d'.day := by
  have hlast : ∀ {d d' : Date}, d.monthIndex < d'.monthIndex →
      d.daysFromEpoch < d'.daysFromEpoch := by
    intro d d' hlt
    have hday := d.day_mem
    have hday' := d'.day_mem
    have hsucc := monthFirst_succ d.monthIndex
    have hmono := monthFirst_strictMono.monotone (Int.add_one_le_of_lt hlt)
    have hlen := d.monthLength_monthIndex
    rw [d.daysFromEpoch_eq, d'.daysFromEpoch_eq]
    omega
  rcases Int.lt_trichotomy d.monthIndex d'.monthIndex with hlt | heq | hgt
  · exact iff_of_true (hlast hlt) (.inl hlt)
  · rw [d.daysFromEpoch_eq, d'.daysFromEpoch_eq, heq]
    omega
  · exact iff_of_false (Int.not_lt.mpr (Int.le_of_lt (hlast hgt))) (by omega)

theorem daysFromEpoch_injective : Function.Injective daysFromEpoch := by
  intro d d' h
  have hlt := @daysFromEpoch_lt_iff d d'
  have hgt := @daysFromEpoch_lt_iff d' d
  exact ext_monthIndex (by omega) (by omega)

instance : LinearOrder Date :=
  LinearOrder.lift' (fun d => toLex (d.year.1, toLex (d.month, d.day))) fun d d' h => by
    have h : (d.year.1, toLex (d.month, d.day)) = (d'.year.1, toLex (d'.month, d'.day)) :=
      toLex.injective h
    have hrest : (d.month, d.day) = (d'.month, d'.day) :=
      toLex.injective (congrArg Prod.snd h)
    have hyear : d.year.1 = d'.year.1 := congrArg Prod.fst h
    have hmonth : d.month = d'.month := congrArg Prod.fst hrest
    refine ext_monthIndex ?_ (congrArg Prod.snd hrest)
    rw [monthIndex, monthIndex, hyear, hmonth]

theorem lt_iff {d d' : Date} : d < d' ↔ d.daysFromEpoch < d'.daysFromEpoch := by
  have hmonth := d.month_mem
  have hmonth' := d'.month_mem
  have hlex : d < d' ↔ d.year.1 < d'.year.1 ∨ d.year.1 = d'.year.1 ∧
      (d.month < d'.month ∨ d.month = d'.month ∧ d.day < d'.day) := by
    change toLex (d.year.1, toLex (d.month, d.day)) <
      toLex (d'.year.1, toLex (d'.month, d'.day)) ↔ _
    rw [Prod.Lex.toLex_lt_toLex, Prod.Lex.toLex_lt_toLex]
  rw [hlex, daysFromEpoch_lt_iff]
  unfold monthIndex
  omega

theorem le_iff {d d' : Date} : d ≤ d' ↔ d.daysFromEpoch ≤ d'.daysFromEpoch := by
  rw [← not_lt, lt_iff, Int.not_lt]

/-- The first and the last day that are those of a date. -/
def firstDay : Int := -784353015833

def lastDay : Int := 784351576776

theorem firstDay_le (d : Date) : firstDay ≤ d.daysFromEpoch := by
  have hfirst : monthFirst (-2147483648 * 12) = firstDay := by decide
  have hyear := d.year.2
  have hmonth := d.month_mem
  have hday := d.day_mem
  have hmono := monthFirst_strictMono.monotone
    (show -2147483648 * 12 ≤ d.monthIndex by unfold monthIndex; omega)
  rw [d.daysFromEpoch_eq]
  omega

theorem le_lastDay (d : Date) : d.daysFromEpoch ≤ lastDay := by
  have hlast : monthFirst (2147483648 * 12) = lastDay + 1 := by decide
  have hyear := d.year.2
  have hmonth := d.month_mem
  have hday := d.day_mem
  have hlen := d.monthLength_monthIndex
  have hsucc := monthFirst_succ d.monthIndex
  have hmono := monthFirst_strictMono.monotone
    (show d.monthIndex + 1 ≤ 2147483648 * 12 by unfold monthIndex; omega)
  rw [d.daysFromEpoch_eq]
  omega

theorem exists_daysFromEpoch_eq {z : Int} (h₀ : firstDay ≤ z) (h : z ≤ lastDay) :
    ∃ d : Date, d.daysFromEpoch = z := by
  have hfirst : monthFirst (-2147483648 * 12) = firstDay := by decide
  have hlast : monthFirst (2147483648 * 12) = lastDay + 1 := by decide
  obtain ⟨m, hm, hlt⟩ := exists_month z
  have hlow : -2147483648 * 12 ≤ m := by
    by_contra hm'
    have hmono := monthFirst_strictMono.monotone
      (show m + 1 ≤ -2147483648 * 12 by omega)
    omega
  have hhigh : m < 2147483648 * 12 := by
    by_contra hm'
    have hmono := monthFirst_strictMono.monotone (show 2147483648 * 12 ≤ m by omega)
    omega
  have hsucc := monthFirst_succ m
  have hmonth : 1 ≤ (m % 12 + 1).toNat ∧ (m % 12 + 1).toNat ≤ 12 := by omega
  have hlen : daysInMonth (m / 12) (m % 12 + 1).toNat = monthLength m :=
    daysInMonth_eq _ hmonth.1 hmonth.2
  refine ⟨⟨⟨m / 12, by omega⟩, (m % 12 + 1).toNat, (z - monthFirst m + 1).toNat, hmonth, ?_⟩, ?_⟩
  · rw [hlen]
    omega
  · rw [daysFromEpoch_eq]
    have hindex : m / 12 * 12 + (((m % 12 + 1).toNat : Int) - 1) = m := by omega
    unfold monthIndex
    dsimp only
    rw [hindex]
    omega

/-! ## What the arithmetic computes -/

/-- The date that is written with the year from March, its month and the day of the month. -/
def ofFields (f : Int × Int × Int) : Option Date := do
  let m := if f.2.1 < 10 then f.2.1 + 3 else f.2.1 - 9
  let year ← checkI32 (if m ≤ 2 then f.1 + 1 else f.1)
  (new year m.toNat f.2.2.toNat).toOption

theorem fromDaysFromEpoch_eq (z : Int) :
    fromDaysFromEpoch z = (checkI64 (z + 719468)).bind fun _ => ofFields (fields z) := by
  unfold fromDaysFromEpoch checkI64
  split <;> rfl

theorem toOption_new_eq_some_iff {year : I32Val} {month day : Nat} {d : Date} :
    (new year month day).toOption = some d ↔ d.year = year ∧ d.month = month ∧ d.day = day := by
  constructor
  · intro h
    unfold new at h
    split_ifs at h
    · cases h
    · cases h
    · rw [← Option.some.inj h]
      exact ⟨rfl, rfl, rfl⟩
  · rintro ⟨rfl, rfl, rfl⟩
    have hmonth := d.month_mem
    have hday := d.day_mem
    unfold new
    rw [dif_neg (by omega), dif_neg (by omega)]
    rfl

theorem monthFirst_march {y mp : Int} (hmp : 0 ≤ mp ∧ mp ≤ 11) :
    monthFirst (12 * y + mp + 2) = monthStart y mp := by
  rw [monthFirst, show (12 * y + mp + 2 - 2) / 12 = y by omega,
    show (12 * y + mp + 2 - 2) % 12 = mp by omega]

theorem monthIndex_eq_of_inMonth {d : Date} {y mp : Int} (hin : InMonth d.daysFromEpoch y mp) :
    d.monthIndex = 12 * y + mp + 2 ∧ (d.day : Int) = d.daysFromEpoch - monthStart y mp + 1 := by
  have hmp := hin.month
  have hstart := hin.start_le
  have hend := hin.lt_end
  have hdays := d.daysFromEpoch_eq
  have hday := d.day_mem
  have hlen := d.monthLength_monthIndex
  have hsucc := monthFirst_succ d.monthIndex
  have hfirst := monthFirst_march (y := y) hmp
  have hnext : monthFirst (12 * y + mp + 2 + 1) = monthEnd y mp := by
    rw [monthFirst_eq_monthEnd, show (12 * y + mp + 2 - 2) / 12 = y by omega,
      show (12 * y + mp + 2 - 2) % 12 = mp by omega]
  have hle : d.monthIndex < 12 * y + mp + 2 + 1 :=
    monthFirst_strictMono.lt_iff_lt.mp (by omega)
  have hge : 12 * y + mp + 2 < d.monthIndex + 1 :=
    monthFirst_strictMono.lt_iff_lt.mp (by omega)
  have hindex : d.monthIndex = 12 * y + mp + 2 := by omega
  refine ⟨hindex, ?_⟩
  rw [hindex, hfirst] at hdays
  omega

theorem ofFields_eq_some_iff {z : Int} {d : Date} :
    ofFields (fields z) = some d ↔ d.daysFromEpoch = z := by
  obtain ⟨y, mp, hin⟩ := exists_inMonth z
  have hmp := hin.month
  have hstart := hin.start_le
  have hof : ofFields (fields z) =
      (checkI32 (if (if mp < 10 then mp + 3 else mp - 9) ≤ 2 then y + 1 else y)).bind fun year =>
        (new year (if mp < 10 then mp + 3 else mp - 9).toNat
          (z - monthStart y mp + 1).toNat).toOption := by
    rw [fields_eq hin]
    rfl
  rw [hof, Option.bind_eq_some_iff]
  constructor
  · rintro ⟨year, hyear, hnew⟩
    have hcheck := checkI32_eq_some_iff.mp hyear
    obtain ⟨rfl, hmonth, hday⟩ := toOption_new_eq_some_iff.mp hnew
    have hindex : d.monthIndex = 12 * y + mp + 2 := by
      unfold monthIndex
      rw [hcheck, hmonth]
      split_ifs <;> omega
    rw [daysFromEpoch_eq, hindex, monthFirst_march hmp, hday]
    omega
  · rintro rfl
    obtain ⟨hindex, hday⟩ := monthIndex_eq_of_inMonth hin
    have hmonth := d.month_mem
    have hyear : checkI32 (if (if mp < 10 then mp + 3 else mp - 9) ≤ 2 then y + 1 else y) =
        some d.year := by
      rw [checkI32_eq_some_iff]
      unfold monthIndex at hindex
      split_ifs <;> omega
    refine ⟨d.year, hyear, toOption_new_eq_some_iff.mpr ⟨rfl, ?_, ?_⟩⟩
    · unfold monthIndex at hindex
      split_ifs <;> omega
    · omega

theorem fromDaysFromEpoch_eq_some_iff {z : Int} {d : Date} :
    fromDaysFromEpoch z = some d ↔ d.daysFromEpoch = z := by
  rw [fromDaysFromEpoch_eq, Option.bind_eq_some_iff]
  constructor
  · rintro ⟨-, -, h⟩
    exact ofFields_eq_some_iff.mp h
  · rintro rfl
    have hfirst := firstDay_le d
    have hlast := le_lastDay d
    unfold firstDay at hfirst
    unfold lastDay at hlast
    exact ⟨_, checkI64_of_mem (by omega), ofFields_eq_some_iff.mpr rfl⟩

theorem fromDaysFromEpoch_isSome_iff {z : Int} :
    (fromDaysFromEpoch z).isSome = true ↔ firstDay ≤ z ∧ z ≤ lastDay := by
  rw [Option.isSome_iff_exists]
  constructor
  · rintro ⟨d, hd⟩
    rw [← fromDaysFromEpoch_eq_some_iff.mp hd]
    exact ⟨firstDay_le d, le_lastDay d⟩
  · rintro ⟨hfirst, hlast⟩
    obtain ⟨d, hd⟩ := exists_daysFromEpoch_eq hfirst hlast
    exact ⟨d, fromDaysFromEpoch_eq_some_iff.mpr hd⟩

theorem addDays_eq_some_iff {d d' : Date} {n : Int} :
    d.addDays n = some d' ↔ d'.daysFromEpoch = d.daysFromEpoch + n := by
  unfold addDays
  rw [Option.bind_eq_some_iff]
  constructor
  · rintro ⟨z, hz, h⟩
    unfold checkI64 at hz
    split at hz
    · rw [fromDaysFromEpoch_eq_some_iff.mp h, ← Option.some.inj hz]
    · cases hz
  · intro h
    have hfirst := firstDay_le d'
    have hlast := le_lastDay d'
    unfold firstDay at hfirst
    unfold lastDay at hlast
    exact ⟨_, checkI64_of_mem (by omega), fromDaysFromEpoch_eq_some_iff.mpr h⟩

theorem addDays_isSome_iff {d : Date} {n : Int} : (d.addDays n).isSome = true ↔
    firstDay ≤ d.daysFromEpoch + n ∧ d.daysFromEpoch + n ≤ lastDay := by
  rw [Option.isSome_iff_exists]
  constructor
  · rintro ⟨d', hd'⟩
    rw [← addDays_eq_some_iff.mp hd']
    exact ⟨firstDay_le d', le_lastDay d'⟩
  · rintro ⟨hfirst, hlast⟩
    obtain ⟨d', hd'⟩ := exists_daysFromEpoch_eq hfirst hlast
    exact ⟨d', addDays_eq_some_iff.mpr hd'⟩

theorem day_clamped (d : Date) (year : I32Val) (month : Nat) (h : 1 ≤ month ∧ month ≤ 12) :
    (d.clamped year month h).day = min d.day (daysInMonth year.1 month) := by
  unfold clamped
  dsimp only
  split <;> omega

theorem addMonthsClamped_eq_some_iff {d d' : Date} {n : Int} :
    d.addMonthsClamped n = some d' ↔ d'.monthIndex = d.monthIndex + n ∧
      d'.day = min d.day (daysInMonth d'.year.1 d'.month) := by
  constructor
  · intro h
    obtain ⟨zeroBased, hzero, h⟩ := Option.bind_eq_some_iff.mp h
    obtain ⟨year, hyear, h⟩ := Option.bind_eq_some_iff.mp h
    have hindex : zeroBased = d.monthIndex + n := by
      unfold checkI64 at hzero
      split at hzero
      · exact (Option.some.inj hzero).symm
      · cases hzero
    have hcheck := checkI32_eq_some_iff.mp hyear
    obtain rfl := Option.some.inj h
    refine ⟨?_, day_clamped d _ _ _⟩
    change year.1 * 12 + (((zeroBased % 12 + 1).toNat : Int) - 1) = _
    omega
  · rintro ⟨hindex, hday⟩
    have hyear := d'.year.2
    have hmonth := d'.month_mem
    have hdiv := d'.monthIndex_div
    have hmod := d'.monthIndex_mod
    have hzero : checkI64 (d.year.1 * 12 + (d.month - 1) + n) = some d'.monthIndex := by
      have heq : d.year.1 * 12 + (d.month - 1) + n = d'.monthIndex := hindex.symm
      rw [heq]
      exact checkI64_of_mem (by unfold monthIndex; omega)
    have hcheck : checkI32 (d'.monthIndex / 12) = some d'.year :=
      checkI32_eq_some_iff.mpr hdiv.symm
    unfold addMonthsClamped
    refine (congrArg (Option.bind · _) hzero).trans ((congrArg (Option.bind · _) hcheck).trans ?_)
    refine congrArg some (ext_monthIndex ?_ ?_)
    · change d'.year.1 * 12 + (((d'.monthIndex % 12 + 1).toNat : Int) - 1) = d'.monthIndex
      omega
    · rw [day_clamped, hday, hmod]

theorem addYearsClamped_eq_some_iff {d d' : Date} {years : I32Val} :
    d.addYearsClamped years = some d' ↔ d'.year.1 = d.year.1 + years.1 ∧ d'.month = d.month ∧
      d'.day = min d.day (daysInMonth d'.year.1 d'.month) := by
  constructor
  · intro h
    obtain ⟨year, hyear, h⟩ := Option.bind_eq_some_iff.mp h
    have hcheck := checkI32_eq_some_iff.mp hyear
    obtain rfl := Option.some.inj h
    exact ⟨hcheck, rfl, day_clamped d _ _ _⟩
  · rintro ⟨hyear, hmonth, hday⟩
    have hcheck : checkI32 (d.year.1 + years.1) = some d'.year := checkI32_eq_some_iff.mpr hyear
    unfold addYearsClamped
    refine (congrArg (Option.bind · _) hcheck).trans ?_
    refine congrArg some (ext_monthIndex ?_ ?_)
    · change d'.year.1 * 12 + ((d.month : Int) - 1) = d'.monthIndex
      rw [← hmonth]
      rfl
    · rw [day_clamped, hday, hmonth]

theorem exists_monthIndex_eq {m : Int} (h₀ : -2147483648 * 12 ≤ m) (h : m < 2147483648 * 12)
    {day : Nat} (hday : 1 ≤ day) :
    ∃ d : Date, d.monthIndex = m ∧ d.day = min day (daysInMonth d.year.1 d.month) := by
  have hmonth : 1 ≤ (m % 12 + 1).toNat ∧ (m % 12 + 1).toNat ≤ 12 := by omega
  have hone := one_le_daysInMonth (m / 12) hmonth
  refine ⟨⟨⟨m / 12, by omega⟩, (m % 12 + 1).toNat,
    min day (daysInMonth (m / 12) (m % 12 + 1).toNat), hmonth, by dsimp only; omega⟩, ?_, rfl⟩
  change m / 12 * 12 + (((m % 12 + 1).toNat : Int) - 1) = m
  omega

theorem addMonthsClamped_isSome_iff {d : Date} {n : Int} :
    (d.addMonthsClamped n).isSome = true ↔
      -2147483648 * 12 ≤ d.monthIndex + n ∧ d.monthIndex + n < 2147483648 * 12 := by
  rw [Option.isSome_iff_exists]
  constructor
  · rintro ⟨d', hd'⟩
    rw [← (addMonthsClamped_eq_some_iff.mp hd').1]
    have hyear := d'.year.2
    have hmonth := d'.month_mem
    unfold monthIndex
    omega
  · rintro ⟨hlow, hhigh⟩
    obtain ⟨d', hindex, hday⟩ := exists_monthIndex_eq hlow hhigh d.day_mem.1
    exact ⟨d', addMonthsClamped_eq_some_iff.mpr ⟨hindex, hday⟩⟩

theorem addYearsClamped_isSome_iff {d : Date} {years : I32Val} :
    (d.addYearsClamped years).isSome = true ↔
      -2147483648 ≤ d.year.1 + years.1 ∧ d.year.1 + years.1 ≤ 2147483647 := by
  unfold addYearsClamped checkI32
  split
  next h => exact iff_of_true rfl h
  next h => exact iff_of_false (by exact Bool.false_ne_true) h

theorem weekday_eq_iff {d : Date} {w : Weekday} :
    d.weekday = w ↔ (d.daysFromEpoch + 3) % 7 = w.indexFromMonday := by
  have hindex := Weekday.indexFromMonday_fromIndex ((d.daysFromEpoch + 3) % 7)
  rw [Int.emod_emod] at hindex
  constructor
  · rintro rfl
    exact hindex.symm
  · intro h
    exact Weekday.indexFromMonday_injective (Int.ofNat.inj (hindex.trans h))

instance : Finite Date :=
  Finite.of_injective (fun d : Date => (⟨d.daysFromEpoch, firstDay_le d, le_lastDay d⟩ :
    Set.Icc firstDay lastDay)) fun _ _ h => daysFromEpoch_injective (congrArg Subtype.val h)

end Date

end CaveHome.Calendar
