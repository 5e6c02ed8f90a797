import Mathlib.Data.Int.ConditionallyCompleteOrder
import Mathlib.Order.Monotone.Basic
import Mathlib.Tactic.IntervalCases
import Mathlib.Tactic.Linarith

/-!
# The Gregorian calendar

Days are numbered from the first of January 1970.  The year is counted from the first of March, so
that the leap day comes last; `InMonth` says which month of such a year a day lies in.  Months are
then numbered one after the other from January of the year 0, and each begins where the one before
it ends.
-/

namespace CaveHome.Gregorian

/-! ## The years of an era -/

theorem tdiv_floor {b : Int} (hb : 0 < b) (z : Int) :
    (if 0 ≤ z then z else z - (b - 1)).tdiv b = z / b := by
  split
  next h => exact Int.tdiv_eq_ediv_of_nonneg h
  next h =>
    have hz : b - 1 - z = b - 1 - z % b + b * -(z / b) := by
      have := Int.emod_add_mul_ediv z b
      linarith
    have hlt := Int.emod_lt_of_pos z hb
    have hnonneg := Int.emod_nonneg z hb.ne'
    calc (z - (b - 1)).tdiv b = -((b - 1 - z) / b) := by
          rw [← Int.neg_sub, Int.neg_tdiv, Int.tdiv_eq_ediv_of_nonneg (by omega)]
      _ = z / b := by
          rw [hz, Int.add_mul_ediv_left _ _ hb.ne', Int.ediv_eq_zero_of_lt (by omega) (by omega)]
          omega

/-- A day of an era of 400 years by its century, its four years, its year of these and its day. -/
structure YearOfEra (doe c k j d : Int) : Prop where
  eq : doe = 36524 * c + 1461 * k + 365 * j + d
  century : 0 ≤ c ∧ c ≤ 3
  fourYears : 0 ≤ k ∧ k ≤ 24
  year : 0 ≤ j ∧ j ≤ 3
  day : 0 ≤ d ∧ d ≤ 365
  leap : d = 365 → j = 3 ∧ (k = 24 → c = 3)

theorem exists_yearOfEra (doe : Int) (h₀ : 0 ≤ doe) (h : doe ≤ 146096) :
    ∃ c k j d, YearOfEra doe c k j d := by
  -- the last century, and the last year of four, may be one day longer than the others
  let c := min (doe / 36524) 3
  let r := doe - 36524 * c
  let k := r / 1461
  let s := r - 1461 * k
  let j := min (s / 365) 3
  have hr : 0 ≤ r ∧ r ≤ 36524 ∧ (r = 36524 → c = 3) := by omega
  have hs : 0 ≤ s ∧ s ≤ 1460 ∧ 0 ≤ k ∧ k ≤ 24 := by omega
  refine ⟨c, k, j, s - 365 * j, ?_⟩
  constructor <;> omega

theorem YearOfEra.year_eq {doe c k j d : Int} (h : YearOfEra doe c k j d) :
    (doe - doe / 1460 + doe / 36524 - doe / 146096) / 365 = 100 * c + 4 * k + j := by
  obtain ⟨heq, hc, hk, hj, hd, hleap⟩ := h
  have hquarter : (doe / 1460 = 25 * c + k ∧ d < 365) ∨ (doe / 1460 = 25 * c + k + 1 ∧ 0 < d) := by
    omega
  have hlast : 1461 * k + 365 * j + d < 36524 ∨ doe = 146096 ∧ c = 3 := by
    by_cases hd : d = 365
    · have := hleap hd
      omega
    · omega
  have hcentury : doe / 36524 - doe / 146096 = c := by
    rcases hlast with hlt | ⟨rfl, rfl⟩
    · have hfirst : doe / 36524 = c := by omega
      have hsecond : doe / 146096 = 0 := by omega
      omega
    · decide
  omega

/-! ## The months of a year -/

/-- The day of the epoch on which March of a year begins. -/
def marchFirst (y : Int) : Int := 365 * y + y / 4 - y / 100 + y / 400 - 719468

/-- The day of the epoch on which a month of a year from March begins. -/
def monthStart (y mp : Int) : Int := marchFirst y + (153 * mp + 2) / 5

/-- The day after the last one of a month. -/
def monthEnd (y mp : Int) : Int := if mp < 11 then monthStart y (mp + 1) else marchFirst (y + 1)

/-- The day lies in the month. -/
structure InMonth (days y mp : Int) : Prop where
  month : 0 ≤ mp ∧ mp ≤ 11
  start_le : monthStart y mp ≤ days
  lt_end : days < monthEnd y mp

def IsLeap (year : Int) : Prop := year % 4 = 0 ∧ (year % 100 ≠ 0 ∨ year % 400 = 0)

instance (year : Int) : Decidable (IsLeap year) := inferInstanceAs (Decidable (_ ∧ _))

theorem marchFirst_succ (y : Int) :
    marchFirst (y + 1) = marchFirst y + 365 + if IsLeap (y + 1) then 1 else 0 := by
  have h₄ : (y + 1) / 4 = y / 4 + if (y + 1) % 4 = 0 then 1 else 0 := by omega
  have h₁₀₀ : (y + 1) / 100 = y / 100 + if (y + 1) % 100 = 0 then 1 else 0 := by omega
  have h₄₀₀ : (y + 1) / 400 = y / 400 + if (y + 1) % 400 = 0 then 1 else 0 := by omega
  rw [marchFirst, marchFirst, h₄, h₁₀₀, h₄₀₀]
  unfold IsLeap
  split_ifs <;> omega

section Era

variable {e c k j d doe : Int}

theorem marchFirst_eq (h : YearOfEra doe c k j d) :
    marchFirst (400 * e + (100 * c + 4 * k + j)) = 146097 * e + doe - d - 719468 := by
  obtain ⟨heq, hc, hk, hj, -, -⟩ := h
  have h₄ : (400 * e + (100 * c + 4 * k + j)) / 4 = 100 * e + 25 * c + k := by omega
  have h₁₀₀ : (400 * e + (100 * c + 4 * k + j)) / 100 = 4 * e + c := by omega
  have h₄₀₀ : (400 * e + (100 * c + 4 * k + j)) / 400 = e := by omega
  rw [marchFirst, h₄, h₁₀₀, h₄₀₀]
  omega

theorem isLeap_succ_iff (h : YearOfEra doe c k j d) :
    IsLeap (400 * e + (100 * c + 4 * k + j) + 1) ↔ j = 3 ∧ (k = 24 → c = 3) := by
  obtain ⟨-, hc, hk, hj, -, -⟩ := h
  unfold IsLeap
  omega

end Era

theorem exists_inMonth (days : Int) : ∃ y mp, InMonth days y mp := by
  let e := (days + 719468) / 146097
  obtain ⟨c, k, j, d, h⟩ :=
    exists_yearOfEra (days + 719468 - 146097 * e) (by omega) (by omega)
  have hfirst := marchFirst_eq (e := e) h
  have hday := h.day
  refine ⟨400 * e + (100 * c + 4 * k + j), (5 * d + 2) / 153, by omega, ?_, ?_⟩
  · rw [monthStart]
    omega
  · rw [monthEnd, monthStart, marchFirst_succ]
    split
    · omega
    · by_cases hlast : d = 365
      · rw [if_pos ((isLeap_succ_iff h).mpr (h.leap hlast))]
        omega
      · split <;> omega

/-- The year from March, its month and the day of the month. -/
def fields (days : Int) : Int × Int × Int :=
  let z := days + 719468
  let era := (if 0 ≤ z then z else z - 146096).tdiv 146097
  let doe := z - era * 146097
  let yoe := (doe - doe / 1460 + doe / 36524 - doe / 146096) / 365
  let doy := doe - (365 * yoe + yoe / 4 - yoe / 100)
  let mp := (5 * doy + 2) / 153
  (yoe + era * 400, mp, doy - (153 * mp + 2) / 5 + 1)

/-- The number of the day with a year from March, its month and the day of the month. -/
def number (y mp d : Int) : Int :=
  let era := (if 0 ≤ y then y else y - 399).tdiv 400
  let yoe := y - era * 400
  let doy := (153 * mp + 2) / 5 + d - 1
  let doe := yoe * 365 + yoe / 4 - yoe / 100 + doy
  era * 146097 + doe - 719468

theorem fields_eq {days y mp : Int} (h : InMonth days y mp) :
    fields days = (y, mp, days - monthStart y mp + 1) := by
  obtain ⟨hmp, hstart, hend⟩ := h
  rw [monthStart] at hstart
  let e := y / 400
  let d := days - marchFirst y
  have hlast : d < 365 + if IsLeap (y + 1) then 1 else 0 := by
    rw [monthEnd, monthStart, marchFirst_succ] at hend
    split_ifs at hend ⊢ <;> omega
  have hmonth : (5 * d + 2) / 153 = mp := by
    rw [monthEnd, monthStart] at hend
    split at hend
    · omega
    · split at hlast <;> omega
  have hera : YearOfEra (days + 719468 - 146097 * e) (y % 400 / 100) (y % 100 / 4) (y % 4) d := by
    have hfirst : d = days - (365 * y + y / 4 - y / 100 + y / 400 - 719468) := rfl
    refine ⟨by omega, by omega, by omega, by omega, ?_, fun hd => ?_⟩
    · split at hlast <;> omega
    · by_cases hleap : IsLeap (y + 1)
      · unfold IsLeap at hleap
        omega
      · rw [if_neg hleap] at hlast
        omega
  have hyear : 100 * (y % 400 / 100) + 4 * (y % 100 / 4) + y % 4 = y % 400 := by omega
  have hdoe : 0 ≤ days + 719468 - 146097 * e ∧ days + 719468 - 146097 * e ≤ 146096 := by
    obtain ⟨heq, hc, hk, hj, hd, -⟩ := hera
    omega
  have he : (if 0 ≤ days + 719468 then days + 719468 else days + 719468 - 146096).tdiv 146097 =
      e := (tdiv_floor (b := 146097) (by decide) _).trans (by omega)
  have hdoy : days + 719468 - 146097 * e -
      (365 * (y % 400) + y % 400 / 4 - y % 400 / 100) = d := by
    have hfirst : d = days - (365 * y + y / 4 - y / 100 + y / 400 - 719468) := rfl
    omega
  have hday : d - (153 * mp + 2) / 5 + 1 = days - monthStart y mp + 1 := by
    rw [monthStart]
    omega
  unfold fields
  simp only [he, mul_comm e, hera.year_eq, hyear, hdoy, hmonth, hday]
  refine Prod.ext ?_ rfl
  dsimp only
  omega

theorem number_eq (y mp d : Int) : number y mp d = monthStart y mp + d - 1 := by
  have he : (if 0 ≤ y then y else y - 399).tdiv 400 = y / 400 :=
    (tdiv_floor (b := 400) (by decide) y).trans rfl
  unfold number
  simp only [he]
  rw [monthStart, marchFirst]
  omega

theorem InMonth.length_le {u y mp : Int} (h : InMonth u y mp) :
    monthStart y mp < monthEnd y mp ∧ monthEnd y mp ≤ monthStart y mp + 31 := by
  obtain ⟨hmp, -, -⟩ := h
  rw [monthEnd, monthStart, monthStart, marchFirst_succ]
  split_ifs <;> omega

/-! ## The months of the calendar -/

/-- The number of days of a month. -/
def daysInMonth (year : Int) (month : Nat) : Nat :=
  if month = 2 then if IsLeap year then 29 else 28
  else if month = 4 ∨ month = 6 ∨ month = 9 ∨ month = 11 then 30
  else 31

theorem daysInMonth_eq (y : Int) {mp : Int} (h : 0 ≤ mp ∧ mp ≤ 11) :
    daysInMonth (if mp < 10 then y else y + 1) (if mp < 10 then mp + 3 else mp - 9).toNat =
      (monthEnd y mp - monthStart y mp).toNat := by
  obtain ⟨h₀, h₁₁⟩ := h
  rw [monthEnd, monthStart, monthStart, marchFirst_succ]
  by_cases hleap : IsLeap (y + 1)
  · simp only [hleap, if_true, daysInMonth]
    interval_cases mp <;> simp [hleap]
    omega
  · simp only [hleap, if_false, daysInMonth]
    interval_cases mp <;> simp [hleap]

theorem daysInMonth_mem (year : Int) (month : Nat) :
    28 ≤ daysInMonth year month ∧ daysInMonth year month ≤ 31 := by
  unfold daysInMonth
  split_ifs <;> decide

/-- The first day of a month, where months are counted from January of the year 0. -/
def monthFirst (m : Int) : Int := monthStart ((m - 2) / 12) ((m - 2) % 12)

def monthLength (m : Int) : Nat := daysInMonth (m / 12) (m % 12 + 1).toNat

theorem monthFirst_eq_monthEnd (m : Int) :
    monthFirst (m + 1) = monthEnd ((m - 2) / 12) ((m - 2) % 12) := by
  unfold monthFirst monthEnd
  split
  next => rw [show (m + 1 - 2) / 12 = (m - 2) / 12 by omega,
    show (m + 1 - 2) % 12 = (m - 2) % 12 + 1 by omega]
  next =>
    rw [show (m + 1 - 2) / 12 = (m - 2) / 12 + 1 by omega, show (m + 1 - 2) % 12 = 0 by omega]
    exact Int.add_zero _

theorem monthFirst_succ (m : Int) : monthFirst (m + 1) = monthFirst m + monthLength m := by
  let y := (m - 2) / 12
  let mp := (m - 2) % 12
  have hmp : 0 ≤ mp ∧ mp ≤ 11 := by omega
  have hyear : (if mp < 10 then y else y + 1) = m / 12 := by split <;> omega
  have hmonth : (if mp < 10 then mp + 3 else mp - 9).toNat = (m % 12 + 1).toNat := by
    split <;> omega
  have hlen := daysInMonth_eq y hmp
  have hmem := daysInMonth_mem (m / 12) (m % 12 + 1).toNat
  rw [hyear, hmonth] at hlen
  have hfirst : monthFirst m = monthStart y mp := rfl
  have hend : monthFirst (m + 1) = monthEnd y mp := monthFirst_eq_monthEnd m
  rw [hend, hfirst, monthLength]
  omega

theorem monthLength_mem (m : Int) : 28 ≤ monthLength m ∧ monthLength m ≤ 31 :=
  daysInMonth_mem _ _

theorem monthFirst_strictMono : StrictMono monthFirst := by
  refine strictMono_int_of_lt_succ fun m => ?_
  have hlen := monthLength_mem m
  rw [monthFirst_succ]
  omega

theorem exists_month (days : Int) : ∃ m, monthFirst m ≤ days ∧ days < monthFirst (m + 1) := by
  obtain ⟨y, mp, hmp, hstart, hend⟩ := exists_inMonth days
  have hyear : (12 * y + mp + 2 - 2) / 12 = y := by omega
  have hmonth : (12 * y + mp + 2 - 2) % 12 = mp := by omega
  refine ⟨12 * y + mp + 2, ?_, ?_⟩
  · rw [monthFirst, hyear, hmonth]
    exact hstart
  · rw [monthFirst_eq_monthEnd, hyear, hmonth]
    exact hend

end CaveHome.Gregorian
