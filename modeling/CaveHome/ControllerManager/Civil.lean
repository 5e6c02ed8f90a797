import CaveHome.Lib.Gregorian
import CaveHome.Lib.MachineData

/-!
# Dates

The date and the time of day of a second of the epoch, in UTC, and the second at which the next day
and the next month begin.  Every fact about dates is read off the month from March that a day lies
in.
-/

namespace CaveHome.ControllerManager

open Gregorian

/-- A number as a byte, or the fallback where it does not fit. -/
def byteOr (x : Int) (fallback : Nat) : Nat := if 0 ≤ x ∧ x ≤ 255 then x.toNat else fallback

/-- The year, the month and the day of the month of a day of the epoch. -/
def civilFromDays (days : Int) : Int × Nat × Nat :=
  let z := days + 719468
  let era := (if 0 ≤ z then z else z - 146096).tdiv 146097
  let doe := z - era * 146097
  let yoe := (doe - doe / 1460 + doe / 36524 - doe / 146096) / 365
  let y := yoe + era * 400
  let doy := doe - (365 * yoe + yoe / 4 - yoe / 100)
  let mp := (5 * doy + 2) / 153
  let d := byteOr (doy - (153 * mp + 2) / 5 + 1) 1
  let m := byteOr (if mp < 10 then mp + 3 else mp - 9) 1
  (if m ≤ 2 then y + 1 else y, m, d)

/-- The day of the epoch of a date. -/
def daysFromCivil (year : Int) (month day : Nat) : Int :=
  let y := if month ≤ 2 then year - 1 else year
  let era := (if 0 ≤ y then y else y - 399).tdiv 400
  let yoe := y - era * 400
  let m : Int := month
  let d : Int := day
  let doy := (153 * (if 2 < m then m - 3 else m + 9) + 2) / 5 + d - 1
  let doe := yoe * 365 + yoe / 4 - yoe / 100 + doy
  era * 146097 + doe - 719468

/-- A date and a time of day, with the day of the week, where Sunday is 0. -/
structure Civil where
  year : Int
  month : Nat
  day : Nat
  hour : Nat
  minute : Nat
  second : Nat
  weekday : Nat
  deriving DecidableEq

namespace Civil

def fromEpoch (epoch : Int) : Civil :=
  let days := epoch / 86400
  let secsOfDay := epoch % 86400
  let (year, month, day) := civilFromDays days
  { year, month, day
    hour := byteOr (secsOfDay / 3600) 0
    minute := byteOr (secsOfDay % 3600 / 60) 0
    second := byteOr (secsOfDay % 60) 0
    -- the first day of the epoch was a Thursday
    weekday := byteOr ((days % 7 + 4) % 7) 0 }

def startOfDayEpoch (dt : Civil) : Int := I64.wrap (daysFromCivil dt.year dt.month dt.day * 86400)

end Civil

def startOfNextDay (dt : Civil) : Int := I64.wrap (dt.startOfDayEpoch + 86400)

def startOfNextMonth (dt : Civil) : Int :=
  let (y, m) := if dt.month = 12 then (dt.year + 1, 1) else (dt.year, dt.month + 1)
  I64.wrap (daysFromCivil y m 1 * 86400)

theorem byteOr_eq {x : Int} (h₀ : 0 ≤ x) (h : x ≤ 255) (fallback : Nat) :
    byteOr x fallback = x.toNat := if_pos ⟨h₀, h⟩

theorem civilFromDays_eq {days y mp : Int} (h : InMonth days y mp) :
    civilFromDays days =
      (if mp < 10 then y else y + 1, (if mp < 10 then mp + 3 else mp - 9).toNat,
        (days - monthStart y mp + 1).toNat) := by
  obtain ⟨hmp, hstart, -⟩ := id h
  have hlen := h.length_le
  have hlt := h.lt_end
  have hday : byteOr (days - monthStart y mp + 1) 1 = (days - monthStart y mp + 1).toNat :=
    byteOr_eq (by omega) (by omega) 1
  have hnumber : byteOr (if mp < 10 then mp + 3 else mp - 9) 1 =
      (if mp < 10 then mp + 3 else mp - 9).toNat :=
    byteOr_eq (by split <;> omega) (by split <;> omega) _
  have hfields : civilFromDays days =
      (if byteOr (if (fields days).2.1 < 10 then (fields days).2.1 + 3 else (fields days).2.1 - 9) 1
          ≤ 2 then (fields days).1 + 1 else (fields days).1,
        byteOr (if (fields days).2.1 < 10 then (fields days).2.1 + 3 else (fields days).2.1 - 9) 1,
        byteOr (fields days).2.2 1) := rfl
  rw [hfields, fields_eq h]
  dsimp only
  rw [hnumber, hday]
  refine Prod.ext ?_ rfl
  dsimp only
  split_ifs <;> omega

theorem daysFromCivil_eq (y mp : Int) (h : 0 ≤ mp ∧ mp ≤ 11) (day : Nat) :
    daysFromCivil (if mp < 10 then y else y + 1) (if mp < 10 then mp + 3 else mp - 9).toNat day =
      monthStart y mp + day - 1 := by
  have hyear : (if (if mp < 10 then mp + 3 else mp - 9).toNat ≤ 2 then
      (if mp < 10 then y else y + 1) - 1 else if mp < 10 then y else y + 1) = y := by
    split_ifs <;> omega
  have hmonth : (if 2 < ((if mp < 10 then mp + 3 else mp - 9).toNat : Int) then
      ((if mp < 10 then mp + 3 else mp - 9).toNat : Int) - 3
      else ((if mp < 10 then mp + 3 else mp - 9).toNat : Int) + 9) = mp := by
    split_ifs <;> omega
  rw [← number_eq]
  unfold daysFromCivil number
  simp only [hyear, hmonth]

/-! ## The next day and the next month -/

/-- Is the second so far from the ends of its range that the next month begins in it? -/
def WellWithin (t : Int) : Prop := I64.minValue + 86400 ≤ t ∧ t ≤ I64.maxValue - 32 * 86400

section Next

variable {t u y mp : Int}

theorem startOfNextDay_fromEpoch (h : WellWithin t) :
    startOfNextDay (Civil.fromEpoch t) = (t / 86400 + 1) * 86400 := by
  obtain ⟨y, mp, hin⟩ := exists_inMonth (t / 86400)
  have hdays : daysFromCivil (Civil.fromEpoch t).year (Civil.fromEpoch t).month
      (Civil.fromEpoch t).day = t / 86400 := by
    have hstart := hin.start_le
    simp only [Civil.fromEpoch, civilFromDays_eq hin, daysFromCivil_eq y mp hin.month]
    omega
  have hmin : I64.minValue = -9223372036854775808 := rfl
  have hmax : I64.maxValue = 9223372036854775807 := rfl
  obtain ⟨hlow, hhigh⟩ := h
  have hday : I64.wrap (t / 86400 * 86400) = t / 86400 * 86400 :=
    I64.wrap_eq (by omega) (by omega)
  rw [startOfNextDay, Civil.startOfDayEpoch, hdays, hday, I64.wrap_eq (by omega) (by omega)]
  omega

theorem startOfNextMonth_fromEpoch (hin : InMonth (t / 86400) y mp) (h : WellWithin t) :
    startOfNextMonth (Civil.fromEpoch t) = monthEnd y mp * 86400 := by
  have hnext : (if (Civil.fromEpoch t).month = 12 then
      daysFromCivil ((Civil.fromEpoch t).year + 1) 1 1
      else daysFromCivil (Civil.fromEpoch t).year ((Civil.fromEpoch t).month + 1) 1) =
      monthEnd y mp := by
    have hmp := hin.month
    simp only [Civil.fromEpoch, civilFromDays_eq hin, monthEnd]
    by_cases hlast : mp < 11
    · have hday := daysFromCivil_eq y (mp + 1) (by omega) 1
      rw [if_pos hlast]
      rcases Int.lt_trichotomy mp 9 with hlt | rfl | hgt
      · have hmonth : (mp + 1 + 3).toNat = (mp + 3).toNat + 1 := by omega
        rw [if_pos (by omega), if_pos (by omega), hmonth] at hday
        have hthis : (if mp < 10 then mp + 3 else mp - 9) = mp + 3 := if_pos (by omega)
        have hyear : (if mp < 10 then y else y + 1) = y := if_pos (by omega)
        rw [hthis, hyear, if_neg (by omega), hday]
        omega
      · exact hday.trans (by omega)
      · obtain rfl : mp = 10 := by omega
        exact hday.trans (by omega)
    · obtain rfl : mp = 11 := by omega
      have hday := daysFromCivil_eq (y + 1) 0 (by decide) 1
      rw [monthStart] at hday
      exact hday.trans (by omega)
  have hlen := hin.length_le
  have hmin : I64.minValue = -9223372036854775808 := rfl
  have hmax : I64.maxValue = 9223372036854775807 := rfl
  obtain ⟨hlow, hhigh⟩ := h
  have hlt := hin.lt_end
  have hle := hin.start_le
  rw [startOfNextMonth]
  split at hnext
  next h12 =>
    simp only [h12, if_true, hnext]
    exact I64.wrap_eq (by omega) (by omega)
  next h12 =>
    simp only [h12, if_false, hnext]
    exact I64.wrap_eq (by omega) (by omega)

theorem lt_startOfNextMonth (h : WellWithin t) : t < startOfNextMonth (Civil.fromEpoch t) := by
  obtain ⟨y, mp, hin⟩ := exists_inMonth (t / 86400)
  have hlt := hin.lt_end
  rw [startOfNextMonth_fromEpoch hin h]
  omega

theorem startOfNextMonth_emod (h : WellWithin t) :
    startOfNextMonth (Civil.fromEpoch t) % 86400 = 0 := by
  obtain ⟨y, mp, hin⟩ := exists_inMonth (t / 86400)
  rw [startOfNextMonth_fromEpoch hin h]
  omega

theorem month_eq_of_lt (h : WellWithin t) (hle : t ≤ u)
    (hlt : u < startOfNextMonth (Civil.fromEpoch t)) :
    (Civil.fromEpoch u).month = (Civil.fromEpoch t).month := by
  obtain ⟨y, mp, hin⟩ := exists_inMonth (t / 86400)
  rw [startOfNextMonth_fromEpoch hin h] at hlt
  have hstart := hin.start_le
  have hin' : InMonth (u / 86400) y mp := ⟨hin.month, by omega, by omega⟩
  simp only [Civil.fromEpoch, civilFromDays_eq hin, civilFromDays_eq hin']

end Next

/-! ## The calendar -/

/-- The date after a date. -/
def tomorrow (date : Int × Nat × Nat) : Int × Nat × Nat :=
  let (year, month, day) := date
  if day < daysInMonth year month then (year, month, day + 1)
  else if month < 12 then (year, month + 1, 1)
  else (year + 1, 1, 1)

theorem civilFromDays_succ (days : Int) :
    civilFromDays (days + 1) = tomorrow (civilFromDays days) := by
  obtain ⟨y, mp, hin⟩ := exists_inMonth days
  have hlen := daysInMonth_eq y hin.month
  have hmp := hin.month
  have hstart := hin.start_le
  have hend := hin.lt_end
  rw [civilFromDays_eq hin, tomorrow]
  simp only [hlen]
  by_cases hlast : days + 1 < monthEnd y mp
  · have hday : (days - monthStart y mp + 1).toNat < (monthEnd y mp - monthStart y mp).toNat := by
      omega
    have hin' : InMonth (days + 1) y mp := ⟨hmp, by omega, hlast⟩
    rw [civilFromDays_eq hin', if_pos hday]
    refine Prod.ext rfl (Prod.ext rfl ?_)
    dsimp only
    omega
  · have hday : ¬ (days - monthStart y mp + 1).toNat < (monthEnd y mp - monthStart y mp).toNat := by
      omega
    rw [if_neg hday]
    by_cases hyear : mp < 11
    · have hnext : monthEnd y mp = monthStart y (mp + 1) := if_pos hyear
      have hin' : InMonth (days + 1) y (mp + 1) := by
        refine ⟨by omega, by omega, ?_⟩
        rw [monthEnd, monthStart, marchFirst_succ]
        rw [monthStart] at hnext
        split_ifs <;> omega
      have hone : (days + 1 - monthStart y (mp + 1) + 1).toNat = 1 := by omega
      rw [civilFromDays_eq hin', hone]
      split_ifs
      all_goals first | omega | refine Prod.ext ?_ (Prod.ext ?_ rfl)
      all_goals first | rfl | (dsimp only; omega)
    · obtain rfl : mp = 11 := by omega
      have hnext : monthEnd y 11 = marchFirst (y + 1) := if_neg (by decide)
      have hstart' : monthStart (y + 1) 0 = marchFirst (y + 1) := Int.add_zero _
      have hin' : InMonth (days + 1) (y + 1) 0 := by
        refine ⟨by omega, by omega, ?_⟩
        rw [monthEnd, monthStart]
        omega
      have hone : (days + 1 - monthStart (y + 1) 0 + 1).toNat = 1 := by omega
      rw [civilFromDays_eq hin', hone]
      rfl

theorem civil_valid (t : Int) :
    (1 ≤ (Civil.fromEpoch t).month ∧ (Civil.fromEpoch t).month ≤ 12) ∧
      1 ≤ (Civil.fromEpoch t).day ∧
      (Civil.fromEpoch t).day ≤ daysInMonth (Civil.fromEpoch t).year (Civil.fromEpoch t).month := by
  obtain ⟨y, mp, hin⟩ := exists_inMonth (t / 86400)
  have hlen := daysInMonth_eq y hin.month
  have hstart := hin.start_le
  have hend := hin.lt_end
  have hmp := hin.month
  simp only [Civil.fromEpoch, civilFromDays_eq hin, hlen]
  split_ifs <;> omega

example : civilFromDays 0 = (1970, 1, 1) := by decide

end CaveHome.ControllerManager
