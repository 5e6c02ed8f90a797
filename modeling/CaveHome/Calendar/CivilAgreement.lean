import CaveHome.Calendar.Date
import CaveHome.ControllerManager.Civil

/-!
# The two calendars

The calendar and the scheduler of cron jobs each compute dates of their own.  They agree, and they
number the days of the Gregorian calendar one after the other.
-/

namespace CaveHome.Calendar.Date

open Gregorian ControllerManager

/-- The date without the range of its parts. -/
def parts (date : Date) : Int × Nat × Nat := (date.year.1, date.month, date.day)

theorem daysFromCivil_parts (date : Date) :
    daysFromCivil date.year.1 date.month date.day = date.daysFromEpoch := rfl

theorem civilFromDays_daysFromEpoch (date : Date) :
    civilFromDays date.daysFromEpoch = date.parts := by
  obtain ⟨y, mp, hin⟩ := exists_inMonth date.daysFromEpoch
  obtain ⟨hindex, hday⟩ := monthIndex_eq_of_inMonth hin
  have hmp := hin.month
  have hmonth := date.month_mem
  unfold monthIndex at hindex
  rw [civilFromDays_eq hin, parts]
  refine Prod.ext ?_ (Prod.ext ?_ ?_)
  · dsimp only
    split_ifs <;> omega
  · dsimp only
    split_ifs <;> omega
  · dsimp only
    omega

/-- What a date has to do with the number of its day. -/
structure IsDay (date : Date) (n : Int) : Prop where
  month_mem : 1 ≤ date.month ∧ date.month ≤ 12
  day_mem : 1 ≤ date.day ∧ date.day ≤ Gregorian.daysInMonth date.year.1 date.month
  days : date.daysFromEpoch = n
  /-- The next day is that of the next date. -/
  next : ∀ date', fromDaysFromEpoch (n + 1) = some date' → date'.parts = tomorrow date.parts
  /-- The scheduler has the same date and the same number. -/
  civil : civilFromDays n = date.parts
  civilDays : daysFromCivil date.year.1 date.month date.day = n

theorem isDay_of_fromDaysFromEpoch {date : Date} {n : Int}
    (h : fromDaysFromEpoch n = some date) : IsDay date n := by
  obtain rfl := fromDaysFromEpoch_eq_some_iff.mp h
  have hday := date.day_mem
  rw [daysInMonth_eq _ date.month_mem.1 date.month_mem.2] at hday
  refine ⟨date.month_mem, hday, rfl, fun date' h' => ?_, civilFromDays_daysFromEpoch date,
    daysFromCivil_parts date⟩
  have hnext := civilFromDays_succ date.daysFromEpoch
  rwa [← fromDaysFromEpoch_eq_some_iff.mp h', civilFromDays_daysFromEpoch,
    civilFromDays_daysFromEpoch] at hnext

/-- The days between the first and the last one are the dates, in their order. -/
theorem civilDays_bijective :
    (∀ n, firstDay ≤ n ∧ n ≤ lastDay ↔ ∃ date, fromDaysFromEpoch n = some date) ∧
    (∀ n date, fromDaysFromEpoch n = some date → IsDay date n) ∧
    (∀ date : Date, fromDaysFromEpoch date.daysFromEpoch = some date) ∧
    ∀ date date' : Date, date < date' ↔ date.daysFromEpoch < date'.daysFromEpoch :=
  ⟨fun n => by rw [← fromDaysFromEpoch_isSome_iff, Option.isSome_iff_exists],
    fun _ _ => isDay_of_fromDaysFromEpoch, fun _ => fromDaysFromEpoch_eq_some_iff.mpr rfl,
    fun _ _ => lt_iff⟩

/-- The common range reaches from the first to the last year of 32 bits. -/
example : civilFromDays firstDay = (-2147483648, 1, 1) ∧
    civilFromDays lastDay = (2147483647, 12, 31) := by decide

end CaveHome.Calendar.Date
