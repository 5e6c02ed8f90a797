import CaveHome.Calendar.RRule
import Mathlib.Tactic.Positivity

/-!
# The dates of a period

A rule divides the days into periods that follow each other, and selects dates in some of them.  The
candidates of a period are these dates, in order, as long as the period lies in the years of 32 bits
and no ordinal is the smallest number of 8 bits; then and only then is there a result.
-/

namespace CaveHome.Calendar

open Ranks

/-! ## Lists -/

section Lists

variable {α β : Type}

theorem mem_dedup_sortUnstable {d : Date} {dates : List Date} :
    d ∈ dedup (sortUnstable dates) ↔ d ∈ dates := by
  rw [mem_dedup]
  exact List.mem_insertionSort _

theorem pairwise_dedup_sortUnstable (dates : List Date) :
    (dedup (sortUnstable dates)).Pairwise (· < ·) :=
  pairwise_dedup (List.pairwise_insertionSort _ _)

theorem mapM_isSome_iff {f : α → Option β} {l : List α} :
    (l.mapM f).isSome = true ↔ ∀ a ∈ l, (f a).isSome = true := by
  induction l with
  | nil => exact iff_of_true rfl fun _ ha => absurd ha List.not_mem_nil
  | cons a l ih =>
    rw [List.mapM_cons, List.forall_mem_cons, ← ih]
    cases f a with
    | none => simp
    | some b =>
      cases l.mapM f with
      | none => simp
      | some bs => simp

theorem mem_of_mapM_eq_some {f : α → Option β} {l : List α} {bs : List β}
    (h : l.mapM f = some bs) {b : β} : b ∈ bs ↔ ∃ a ∈ l, f a = some b := by
  induction l generalizing bs with
  | nil =>
    obtain rfl := Option.some.inj h
    simp
  | cons a l ih =>
    rw [List.mapM_cons] at h
    obtain ⟨c, hc, h⟩ := Option.bind_eq_some_iff.mp h
    obtain ⟨cs, hcs, h⟩ := Option.bind_eq_some_iff.mp h
    obtain rfl := Option.some.inj h
    have hhead : b = c ↔ f a = some b := by
      rw [hc]
      exact ⟨fun h => h ▸ rfl, fun h => (Option.some.inj h).symm⟩
    simp only [List.mem_cons, exists_eq_or_imp, ih hcs, hhead]

end Lists

/-! ## The weekdays of a month -/

theorem filter_range'_mod {f : Nat} (hf : 1 ≤ f ∧ f ≤ 7) (n : Nat) :
    (List.range' 1 n).filter (fun k => k % 7 = f % 7) =
      (List.range ((n + 7 - f) / 7)).map fun i => f + 7 * i := by
  induction n with
  | zero =>
    rw [show (0 + 7 - f) / 7 = 0 by omega]
    rfl
  | succ n ih =>
    rw [List.range'_1_concat, List.filter_append, ih]
    by_cases h : (1 + n) % 7 = f % 7
    · obtain ⟨i, hi⟩ : ∃ i, 1 + n = f + 7 * i := ⟨(1 + n - f) / 7, by omega⟩
      rw [show (n + 1 + 7 - f) / 7 = i + 1 by omega, show (n + 7 - f) / 7 = i by omega,
        List.range_succ, List.map_append, List.filter_cons_of_pos (by simpa using h)]
      simp [hi]
    · rw [show (n + 1 + 7 - f) / 7 = (n + 7 - f) / 7 by omega,
        List.filter_cons_of_neg (by simpa using h), List.filter_nil, List.append_nil]

/-- A date of the month, with the day put into it. -/
def monthDate (year : I32Val) (month : Nat) (h : 1 ≤ month ∧ month ≤ 12) (k : Nat) : Date :=
  ⟨year, month, max 1 (min k (daysInMonth year.1 month)), h, by
    have hone := Date.one_le_daysInMonth year.1 h
    omega⟩

section Month

variable {year : I32Val} {month : Nat} (h : 1 ≤ month ∧ month ≤ 12)
include h

theorem day_monthDate {k : Nat} (hk : 1 ≤ k ∧ k ≤ daysInMonth year.1 month) :
    (monthDate year month h k).day = k := by
  change max 1 (min k (daysInMonth year.1 month)) = k
  omega

theorem toOption_new {k : Nat} (hk : 1 ≤ k ∧ k ≤ daysInMonth year.1 month) :
    (Date.new year month k).toOption = some (monthDate year month h k) :=
  Date.toOption_new_eq_some_iff.mpr ⟨rfl, rfl, day_monthDate h hk⟩

theorem eq_monthDate_iff {k : Nat} (hk : 1 ≤ k ∧ k ≤ daysInMonth year.1 month) {d : Date} :
    d = monthDate year month h k ↔ d.year = year ∧ d.month = month ∧ d.day = k := by
  rw [← Date.toOption_new_eq_some_iff, toOption_new h hk, Option.some.injEq, eq_comm]

theorem exists_first (year : I32Val) (w : Weekday) : ∃ f, (1 ≤ f ∧ f ≤ 7) ∧
    ∀ d : Date, d.year = year → d.month = month → (d.weekday = w ↔ d.day % 7 = f % 7) := by
  let base := Gregorian.monthFirst (year.1 * 12 + (month - 1)) + 2
  refine ⟨((w.indexFromMonday - base + 6) % 7 + 1).toNat, by omega, ?_⟩
  rintro d rfl rfl
  have hw := w.indexFromMonday_lt
  have hdays := d.daysFromEpoch_eq
  have hbase : base = Gregorian.monthFirst d.monthIndex + 2 := rfl
  rw [Date.weekday_eq_iff]
  omega

theorem matching_eq {f : Nat} (hf : 1 ≤ f ∧ f ≤ 7) {w : Weekday}
    (hw : ∀ d : Date, d.year = year → d.month = month → (d.weekday = w ↔ d.day % 7 = f % 7)) :
    ((List.range' 1 (daysInMonth year.1 month)).filterMap fun day =>
        (Date.new year month day).toOption).filter (fun d => d.weekday = w) =
      (List.range ((daysInMonth year.1 month + 7 - f) / 7)).map fun i =>
        monthDate year month h (f + 7 * i) := by
  have hdays : (List.range' 1 (daysInMonth year.1 month)).filterMap
      (fun day => (Date.new year month day).toOption) =
      (List.range' 1 (daysInMonth year.1 month)).map (monthDate year month h) := by
    rw [← List.filterMap_eq_map]
    refine List.filterMap_congr fun k hk => ?_
    rw [List.mem_range'_1] at hk
    exact toOption_new h (by omega)
  rw [hdays, List.filter_map, ← Function.comp_def, ← List.map_map, ← filter_range'_mod hf]
  congr 1
  refine List.filter_congr fun k hk => ?_
  rw [List.mem_range'_1] at hk
  have hday := @day_monthDate year month h k (by omega)
  have hiff := hw (monthDate year month h k) rfl rfl
  rw [hday] at hiff
  exact decide_eq_decide.mpr hiff

end Month

/-! ## What the parts of a rule select -/

/-- The date falls on the weekday, and it is the one of the month that the ordinal says, counted
from the end of the month when the ordinal is not positive. -/
def ByDay.Matches (bd : ByDay) (d : Date) : Prop :=
  d.weekday = bd.weekday ∧ ∀ k ∈ bd.ordinal,
    if 0 < k then (((d.day - 1) / 7 + 1 : Nat) : Int) = k
    else (((daysInMonth d.year.1 d.month - d.day) / 7 + 1 : Nat) : Int) = -k

/-- The date is the day of its month that the number says, counted from the end when it is
negative. -/
def MatchesMonthDay (n : Int) (d : Date) : Prop :=
  if 0 < n then (d.day : Int) = n else (d.day : Int) = daysInMonth d.year.1 d.month + 1 + n

/-- The ordinal is a number of 8 bits and has a negation of 8 bits. -/
def ByDay.Negatable (bd : ByDay) : Prop := ∀ k ∈ bd.ordinal, -127 ≤ k ∧ k ≤ 127

instance (bd : ByDay) : Decidable bd.Negatable :=
  decidable_of_iff (∀ k ∈ bd.ordinal.toList, -127 ≤ k ∧ k ≤ 127) (by simp [ByDay.Negatable])

theorem collectBydayInMonth_eq_none {year : I32Val} {month : Nat} {bd : ByDay}
    (hbd : ∀ k ∈ bd.ordinal, -128 ≤ k ∧ k ≤ 127)
    (hneg : ¬ bd.Negatable) : collectBydayInMonth year month bd = none := by
  obtain ⟨k, hk, hlow⟩ : ∃ k, bd.ordinal = some k ∧ ¬ (-127 ≤ k ∧ k ≤ 127) := by
    by_contra hall
    exact hneg fun k hk => by_contra fun hlow => hall ⟨k, hk, hlow⟩
  have hmem := hbd k hk
  have hcheck : checkI8 (-k) = none := if_neg (by omega)
  unfold collectBydayInMonth
  dsimp only
  rw [hk]
  dsimp only
  rw [if_neg (by omega), hcheck]
  rfl

section Month

variable (year : I32Val) {month : Nat} (h : 1 ≤ month ∧ month ≤ 12) {bd : ByDay}
include h

theorem collectBydayInMonth_spec (hbd : bd.Negatable) :
    ∃ dates, collectBydayInMonth year month bd = some dates ∧
      ∀ d, d ∈ dates ↔ (d.year = year ∧ d.month = month) ∧ bd.Matches d := by
  obtain ⟨f, hf, hw⟩ := exists_first h year bd.weekday
  have hmatching := matching_eq h hf hw
  have hdim : ∀ d : Date, d.year = year → d.month = month →
      1 ≤ d.day ∧ d.day ≤ daysInMonth year.1 month := by
    rintro d rfl rfl
    exact d.day_mem
  have hlen : 28 ≤ daysInMonth year.1 month := by
    rw [daysInMonth_eq _ h.1 h.2]
    exact (Gregorian.daysInMonth_mem _ _).1
  -- the dates with the weekday, by their places
  have hplace : ∀ d : Date, ∀ i, (d = monthDate year month h (f + 7 * i) ∧
      i < (daysInMonth year.1 month + 7 - f) / 7) ↔
      (d.year = year ∧ d.month = month) ∧ d.weekday = bd.weekday ∧ (d.day - 1) / 7 = i := by
    intro d i
    constructor
    · rintro ⟨hd, hi⟩
      obtain ⟨hyear, hmonth, hday⟩ := (eq_monthDate_iff h (by omega)).mp hd
      exact ⟨⟨hyear, hmonth⟩, (hw d hyear hmonth).mpr (by omega), by omega⟩
    · rintro ⟨⟨hyear, hmonth⟩, hweekday, hi⟩
      have hmod := (hw d hyear hmonth).mp hweekday
      have hday := hdim d hyear hmonth
      exact ⟨(eq_monthDate_iff h (by omega)).mpr ⟨hyear, hmonth, by omega⟩, by omega⟩
  unfold collectBydayInMonth
  dsimp only
  rw [hmatching]
  cases hord : bd.ordinal with
  | none =>
    refine ⟨_, rfl, fun d => ?_⟩
    rw [List.mem_map]
    constructor
    · rintro ⟨i, hi, rfl⟩
      obtain ⟨hmem, hweekday, -⟩ := (hplace _ i).mp ⟨rfl, List.mem_range.mp hi⟩
      exact ⟨hmem, hweekday, fun k hk => absurd (hord ▸ hk) nofun⟩
    · rintro ⟨hmem, hweekday, -⟩
      obtain ⟨hd, hi⟩ := (hplace d _).mpr ⟨hmem, hweekday, rfl⟩
      exact ⟨_, List.mem_range.mpr hi, hd.symm⟩
  | some k =>
    have hk := hbd k hord
    have hmatches : ∀ d, bd.Matches d ↔ d.weekday = bd.weekday ∧
        if 0 < k then (((d.day - 1) / 7 + 1 : Nat) : Int) = k
        else (((daysInMonth d.year.1 d.month - d.day) / 7 + 1 : Nat) : Int) = -k := by
      intro d
      unfold ByDay.Matches
      rw [hord]
      simp
    -- the date at a place, when there is one
    have hget : ∀ d i, d ∈ (((List.range ((daysInMonth year.1 month + 7 - f) / 7)).map
        fun i => monthDate year month h (f + 7 * i))[i]?).toList ↔
        d = monthDate year month h (f + 7 * i) ∧
          i < (daysInMonth year.1 month + 7 - f) / 7 := by
      intro d i
      rw [List.getElem?_map, Option.mem_toList]
      by_cases hi : i < (daysInMonth year.1 month + 7 - f) / 7
      · rw [List.getElem?_range hi]
        exact ⟨fun hd => ⟨(Option.some.inj hd).symm, hi⟩, fun hd => hd.1 ▸ rfl⟩
      · rw [List.getElem?_eq_none (by rw [List.length_range]; omega)]
        exact iff_of_false nofun fun hd => hi hd.2
    by_cases hpos : 0 < k
    · refine ⟨_, if_pos hpos, fun d => ?_⟩
      rw [hget, hplace, hmatches, if_pos hpos]
      refine and_congr_right fun _ => and_congr_right fun _ => ?_
      omega
    · have hcheck : checkI8 (-k) = some (-k) := if_pos (by omega)
      have hlast : ∀ d : Date, d.year = year ∧ d.month = month → d.weekday = bd.weekday →
          (d.day - 1) / 7 + ((daysInMonth d.year.1 d.month - d.day) / 7 + 1) =
            (daysInMonth year.1 month + 7 - f) / 7 := by
        rintro d ⟨hyear, hmonth⟩ hweekday
        have hmod := (hw d hyear hmonth).mp hweekday
        have hday := hdim d hyear hmonth
        rw [hyear, hmonth]
        omega
      dsimp only
      rw [if_neg hpos, hcheck]
      by_cases hin : 1 ≤ (-k).toNat ∧ (-k).toNat ≤ (daysInMonth year.1 month + 7 - f) / 7
      · refine ⟨_, if_pos (by rwa [List.length_map, List.length_range]), fun d => ?_⟩
        rw [hget, List.length_map, List.length_range, hplace, hmatches, if_neg hpos]
        refine and_congr_right fun hmem => and_congr_right fun hweekday => ?_
        have hsum := hlast d hmem hweekday
        omega
      · refine ⟨[], if_neg (by rwa [List.length_map, List.length_range]), fun d => ?_⟩
        rw [hmatches, if_neg hpos]
        refine iff_of_false List.not_mem_nil ?_
        rintro ⟨hmem, hweekday, heq⟩
        have hsum := hlast d hmem hweekday
        omega

theorem monthdaysInMonth_spec {ns : List Int} (hns : ∀ n ∈ ns, n ≠ 0 ∧ -31 ≤ n ∧ n ≤ 31) :
    ∃ dates, monthdaysInMonth year month ns = some dates ∧
      ∀ d, d ∈ dates ↔ (d.year = year ∧ d.month = month) ∧ ∃ n ∈ ns, MatchesMonthDay n d := by
  have hresolve : ∀ n ∈ ns, ∃ day, resolveMonthday n (daysInMonth year.1 month) = some day ∧
      ∀ d : Date, d.year = year → d.month = month →
        (day = some d.day ↔ MatchesMonthDay n d) := by
    intro n hn
    obtain ⟨hzero, hmem⟩ := hns n hn
    unfold resolveMonthday MatchesMonthDay
    by_cases hpos : 0 < n
    · refine ⟨_, if_pos hpos, ?_⟩
      rintro d rfl rfl
      have hday := d.day_mem
      rw [if_pos hpos]
      split
      · rw [Option.some.injEq]
        omega
      · exact iff_of_false nofun (by omega)
    · have hcheck : checkI8 (-n) = some (-n) := if_pos (by omega)
      rw [if_neg hpos, hcheck]
      refine ⟨_, rfl, ?_⟩
      rintro d rfl rfl
      have hday := d.day_mem
      rw [if_neg hpos]
      split
      · rw [Option.some.injEq]
        omega
      · exact iff_of_false nofun (by omega)
  have hsome : (ns.mapM fun n => resolveMonthday n (daysInMonth year.1 month)).isSome = true := by
    refine mapM_isSome_iff.mpr fun n hn => ?_
    obtain ⟨day, hday, -⟩ := hresolve n hn
    rw [hday]
    rfl
  obtain ⟨days, hdays⟩ := Option.isSome_iff_exists.mp hsome
  unfold monthdaysInMonth
  rw [hdays]
  refine ⟨_, rfl, fun d => ?_⟩
  have hnew : ∀ day : Option Nat, (day.bind fun day => (Date.new year month day).toOption) = some d ↔
      (d.year = year ∧ d.month = month) ∧ day = some d.day := by
    intro day
    cases day with
    | none => exact iff_of_false (by simp) fun hd => absurd hd.2 (by simp)
    | some k =>
      rw [Option.bind_some, Date.toOption_new_eq_some_iff, Option.some.injEq, and_assoc]
      exact and_congr_right fun _ => and_congr_right fun _ => eq_comm
  rw [List.mem_filterMap]
  simp only [hnew, mem_of_mapM_eq_some hdays]
  constructor
  · rintro ⟨day, ⟨n, hn, hday⟩, ⟨hyear, hmonth⟩, rfl⟩
    obtain ⟨day', hday', hmatches⟩ := hresolve n hn
    obtain rfl := Option.some.inj (hday.symm.trans hday')
    exact ⟨⟨hyear, hmonth⟩, n, hn, (hmatches d hyear hmonth).mp rfl⟩
  · rintro ⟨⟨hyear, hmonth⟩, n, hn, hmatch⟩
    obtain ⟨day, hday, hmatches⟩ := hresolve n hn
    exact ⟨day, ⟨n, hn, hday⟩, ⟨hyear, hmonth⟩, (hmatches d hyear hmonth).mpr hmatch⟩

end Month

namespace RRule

/-- What holds of the rules that are read from text. -/
structure WellFormed (rule : RRule) : Prop where
  interval : 1 ≤ rule.interval ∧ rule.interval ≤ 4294967295
  ordinals : ∀ bd ∈ rule.byDay, ∀ k ∈ bd.ordinal, -128 ≤ k ∧ k ≤ 127
  monthDays : ∀ n ∈ rule.byMonthDay, n ≠ 0 ∧ -31 ≤ n ∧ n ≤ 31
  months : ∀ m ∈ rule.byMonth, 1 ≤ m ∧ m ≤ 12
  limit : ∀ u, rule.limit = .until u → 0 ≤ u.year.1 ∧ u.year.1 ≤ 9999

/-- What the parts about days select in a month: weekdays go before days of the month, and without
either it is the plain date. -/
def SelectsDay (rule : RRule) (plain : Prop) (d : Date) : Prop :=
  if rule.byDay ≠ [] then ∃ bd ∈ rule.byDay, bd.Matches d
  else if rule.byMonthDay ≠ [] then ∃ n ∈ rule.byMonthDay, MatchesMonthDay n d
  else plain

/-- Every ordinal has a negation of 8 bits. -/
def Negatable (rule : RRule) : Prop := ∀ bd ∈ rule.byDay, bd.Negatable

/-- What the rule selects in a period, apart from the months. -/
def Picks (rule : RRule) (start d : Date) : Prop :=
  match rule.freq with
  | .daily => True
  | .weekly =>
    if rule.byDay = [] then d.weekday = start.weekday else ∃ bd ∈ rule.byDay, d.weekday = bd.weekday
  | .monthly => rule.SelectsDay (d.day = min start.day (daysInMonth d.year.1 d.month)) d
  | .yearly => (rule.byMonth = [] → d.month = start.month) ∧ rule.SelectsDay
    (d.day = min (min start.day (daysInMonth d.year.1 start.month))
      (daysInMonth d.year.1 d.month)) d

/-- The date has one of the months of the rule, when it has some. -/
def AllowsMonth (rule : RRule) (d : Date) : Prop := rule.byMonth = [] ∨ d.month ∈ rule.byMonth

/-- The dates that a rule selects in its periods. -/
def Selects (rule : RRule) (start d : Date) : Prop := rule.AllowsMonth d ∧ rule.Picks start d

/-- The number of the day, the week, the month or the year of a date. -/
def periodIndex (rule : RRule) (d : Date) : Int :=
  match rule.freq with
  | .daily => d.daysFromEpoch
  | .weekly => (d.daysFromEpoch + 3 - rule.weekStart.indexFromMonday) / 7
  | .monthly => d.monthIndex
  | .yearly => d.year.1

/-- The number of a period of the rule. -/
def periodNumber (rule : RRule) (start : Date) (n : Nat) : Int :=
  rule.periodIndex start + rule.interval * n

/-- The date lies in a period of the rule. -/
def InPeriod (rule : RRule) (start : Date) (n : Nat) (d : Date) : Prop :=
  rule.periodIndex d = rule.periodNumber start n

/-- The period lies in the years of 32 bits, and the ordinals that are looked up in it have
negations. -/
def Fits (rule : RRule) (start : Date) (n : Nat) : Prop :=
  match rule.freq with
  | .daily => rule.periodNumber start n ≤ Date.lastDay
  | .weekly =>
    Date.firstDay ≤ 7 * rule.periodNumber start n - 3 + rule.weekStart.indexFromMonday ∧
      7 * rule.periodNumber start n + 3 + rule.weekStart.indexFromMonday ≤ Date.lastDay
  | .monthly => rule.periodNumber start n < 2147483648 * 12 ∧ rule.Negatable
  | .yearly => (rule.interval * n : Int) ≤ 2147483647 ∧
    rule.periodNumber start n ≤ 2147483647 ∧ rule.Negatable

variable {rule : RRule} {start : Date}

/-! ## Candidates -/

theorem WellFormed.daysOfMonth_spec (hwf : rule.WellFormed) (hneg : rule.Negatable)
    {year : I32Val} {month : Nat} (h : 1 ≤ month ∧ month ≤ 12) {plain : List Date}
    {P : Date → Prop}
    (hplain : ∀ d, d ∈ plain ↔ (d.year = year ∧ d.month = month) ∧ P d) :
    ∃ dates, rule.daysOfMonth year month plain = some dates ∧
      ∀ d, d ∈ dates ↔ (d.year = year ∧ d.month = month) ∧ rule.SelectsDay (P d) d := by
  unfold daysOfMonth SelectsDay
  by_cases hday : rule.byDay ≠ []
  · rw [if_pos hday]
    have hsome : (rule.byDay.mapM (collectBydayInMonth year month)).isSome = true := by
      refine mapM_isSome_iff.mpr fun bd hbd => ?_
      obtain ⟨dates, hdates, -⟩ := collectBydayInMonth_spec year h (hneg bd hbd)
      rw [hdates]
      rfl
    obtain ⟨lists, hlists⟩ := Option.isSome_iff_exists.mp hsome
    rw [hlists]
    refine ⟨_, rfl, fun d => ?_⟩
    rw [if_pos hday, List.mem_flatten]
    simp only [mem_of_mapM_eq_some hlists]
    constructor
    · rintro ⟨dates, ⟨bd, hbd, hdates⟩, hd⟩
      obtain ⟨dates', hdates', hmem⟩ := collectBydayInMonth_spec year h (hneg bd hbd)
      obtain rfl := Option.some.inj (hdates.symm.trans hdates')
      exact ⟨((hmem d).mp hd).1, bd, hbd, ((hmem d).mp hd).2⟩
    · rintro ⟨hmonth, bd, hbd, hmatch⟩
      obtain ⟨dates, hdates, hmem⟩ := collectBydayInMonth_spec year h (hneg bd hbd)
      exact ⟨dates, ⟨bd, hbd, hdates⟩, (hmem d).mpr ⟨hmonth, hmatch⟩⟩
  · rw [if_neg hday]
    by_cases hmonthday : rule.byMonthDay ≠ []
    · rw [if_pos hmonthday]
      obtain ⟨dates, hdates, hmem⟩ := monthdaysInMonth_spec year h hwf.monthDays
      refine ⟨dates, hdates, fun d => ?_⟩
      rw [if_neg hday, if_pos hmonthday]
      exact hmem d
    · rw [if_neg hmonthday]
      refine ⟨plain, rfl, fun d => ?_⟩
      rw [if_neg hday, if_neg hmonthday]
      exact hplain d

theorem WellFormed.daysOfMonth_eq_none (hwf : rule.WellFormed) (hneg : ¬ rule.Negatable)
    {year : I32Val} {month : Nat} {plain : List Date} :
    rule.daysOfMonth year month plain = none := by
  obtain ⟨bd, hbd, hbad⟩ : ∃ bd ∈ rule.byDay, ¬ bd.Negatable := by
    by_contra hall
    exact hneg fun bd hbd => by_contra fun hbad => hall ⟨bd, hbd, hbad⟩
  have hnone : rule.byDay.mapM (collectBydayInMonth year month) = none := by
    rw [← Option.not_isSome_iff_eq_none, mapM_isSome_iff]
    intro hall
    have hsome := hall bd hbd
    rw [collectBydayInMonth_eq_none (hwf.ordinals bd hbd) hbad] at hsome
    cases hsome
  unfold daysOfMonth
  rw [if_pos (List.ne_nil_of_mem hbd), hnone]
  rfl

theorem step_mem (hwf : rule.WellFormed) {n : Nat} (hn : n ≤ MAX_PERIODS) :
    0 ≤ (rule.interval * n : Int) ∧ (rule.interval * n : Int) ≤ 4294967295000000 := by
  have hle : rule.interval * n ≤ 4294967295 * 1000000 := Nat.mul_le_mul hwf.interval.2 hn
  constructor
  · positivity
  · exact_mod_cast hle

theorem periodBase_eq (hwf : rule.WellFormed) {n : Nat} (hn : n ≤ MAX_PERIODS) :
    rule.periodBase start n = match rule.freq with
      | .daily => start.addDays (rule.interval * n)
      | .weekly => start.addDays (rule.interval * n * 7)
      | .monthly => start.addMonthsClamped (rule.interval * n)
      | .yearly => (checkI32 (rule.interval * n)).bind start.addYearsClamped := by
  have hmem := step_mem hwf hn
  have hstep : checkI64 (rule.interval * n) = some (rule.interval * n : Int) :=
    checkI64_of_mem (by omega)
  have hweek : checkI64 (rule.interval * n * 7) = some (rule.interval * n * 7 : Int) :=
    checkI64_of_mem (by omega)
  unfold periodBase
  rw [hstep]
  cases rule.freq with
  | daily => rfl
  | weekly => exact congrArg (Option.bind · start.addDays) hweek
  | monthly => rfl
  | yearly => rfl

/-- The dates that the parts about days select. -/
def rawCandidates (rule : RRule) (start base : Date) : Option (List Date) :=
  match rule.freq with
  | .daily => some [base]
  | .weekly => rule.weeklyCandidates start base
  | .monthly => rule.monthlyCandidates base
  | .yearly => rule.yearlyCandidates base

theorem candidatesForPeriod_eq (n : Nat) : rule.candidatesForPeriod start n =
    (rule.periodBase start n).bind fun base => (rule.rawCandidates start base).bind fun dates =>
      some (dedup (sortUnstable
        (if rule.byMonth = [] then dates else dates.filter fun d => d.month ∈ rule.byMonth))) := by
  unfold candidatesForPeriod rawCandidates
  cases rule.freq <;> rfl

/-- The base of a period and its candidates. -/
structure PeriodDates (rule : RRule) (start : Date) (n : Nat) (base : Date)
    (dates : List Date) : Prop where
  base_eq : rule.periodBase start n = some base
  base_mem : rule.InPeriod start n base
  candidates : rule.candidatesForPeriod start n = some dates
  sorted : dates.Pairwise (· < ·)
  mem : ∀ d, d ∈ dates ↔ rule.InPeriod start n d ∧ rule.Selects start d

theorem exists_periodDates_of_raw {n : Nat} {base : Date} {dates : List Date}
    (hbase : rule.periodBase start n = some base) (hin : rule.InPeriod start n base)
    (hraw : rule.rawCandidates start base = some dates)
    (hmem : ∀ d, rule.AllowsMonth d →
      (d ∈ dates ↔ rule.InPeriod start n d ∧ rule.Picks start d)) :
    ∃ base dates, rule.PeriodDates start n base dates := by
  have hcandidates : rule.candidatesForPeriod start n = some (dedup (sortUnstable
      (if rule.byMonth = [] then dates else dates.filter fun d => d.month ∈ rule.byMonth))) := by
    rw [candidatesForPeriod_eq, hbase, Option.bind_some, hraw]
    rfl
  refine ⟨base, _, hbase, hin, hcandidates, pairwise_dedup_sortUnstable _, fun d => ?_⟩
  rw [mem_dedup_sortUnstable]
  have hfilter : (d ∈ if rule.byMonth = [] then dates
      else dates.filter fun d => d.month ∈ rule.byMonth) ↔ rule.AllowsMonth d ∧ d ∈ dates := by
    unfold AllowsMonth
    split
    next h => simp [h]
    next h => simp [h, and_comm]
  rw [hfilter, Selects]
  constructor
  · rintro ⟨hmonth, hd⟩
    obtain ⟨hperiod, hpicks⟩ := (hmem d hmonth).mp hd
    exact ⟨hperiod, hmonth, hpicks⟩
  · rintro ⟨hperiod, hmonth, hpicks⟩
    exact ⟨hmonth, (hmem d hmonth).mpr ⟨hperiod, hpicks⟩⟩

theorem candidates_eq_none_of_raw {n : Nat}
    (h : ∀ base, rule.periodBase start n = some base → rule.rawCandidates start base = none) :
    rule.candidatesForPeriod start n = none := by
  rw [candidatesForPeriod_eq]
  cases hbase : rule.periodBase start n with
  | none => rfl
  | some base =>
    rw [Option.bind_some, h base hbase]
    rfl

section Frequencies

variable (hwf : rule.WellFormed) {n : Nat} (hn : n ≤ MAX_PERIODS)
include hwf hn

theorem exists_periodDates_daily (hfreq : rule.freq = .daily) (h : rule.Fits start n) :
    ∃ base dates, rule.PeriodDates start n base dates := by
  have hfirst := start.firstDay_le
  have hmem := step_mem hwf hn
  have hnumber : rule.periodNumber start n = start.daysFromEpoch + rule.interval * n := by
    rw [periodNumber, periodIndex, hfreq]
  have hin : ∀ d, rule.InPeriod start n d ↔
      d.daysFromEpoch = start.daysFromEpoch + rule.interval * n := by
    intro d
    rw [InPeriod, hnumber, periodIndex, hfreq]
  rw [Fits, hfreq] at h
  dsimp only at h
  obtain ⟨base, hbase⟩ := Option.isSome_iff_exists.mp
    (Date.addDays_isSome_iff.mpr ⟨by omega, hnumber ▸ h⟩)
  have hdays := Date.addDays_eq_some_iff.mp hbase
  have hperiod : rule.periodBase start n = some base := by
    rw [periodBase_eq hwf hn, hfreq]
    exact hbase
  have hraw : rule.rawCandidates start base = some [base] := by rw [rawCandidates, hfreq]
  refine exists_periodDates_of_raw hperiod ((hin base).mpr hdays) hraw fun d _ => ?_
  rw [List.mem_singleton, hin d, Picks, hfreq]
  constructor
  · rintro rfl
    exact ⟨hdays, trivial⟩
  · rintro ⟨hd, -⟩
    exact Date.daysFromEpoch_injective (hd.trans hdays.symm)

theorem candidates_eq_none_daily (hfreq : rule.freq = .daily) (h : ¬ rule.Fits start n) :
    rule.candidatesForPeriod start n = none := by
  refine candidates_eq_none_of_raw fun base hbase => absurd ?_ h
  rw [periodBase_eq hwf hn, hfreq] at hbase
  rw [Fits, hfreq, periodNumber, periodIndex, hfreq]
  exact (Date.addDays_isSome_iff.mp (Option.isSome_of_eq_some hbase)).2

omit hwf hn in
theorem inPeriod_weekly_iff (hfreq : rule.freq = .weekly) {d : Date} :
    rule.InPeriod start n d ↔
      7 * rule.periodNumber start n - 3 + rule.weekStart.indexFromMonday ≤ d.daysFromEpoch ∧
        d.daysFromEpoch ≤ 7 * rule.periodNumber start n + 3 + rule.weekStart.indexFromMonday := by
  rw [InPeriod, periodIndex, hfreq]
  dsimp only
  omega

omit hwf hn in
theorem weekStart_days (hfreq : rule.freq = .weekly) {base : Date}
    (hbase : base.daysFromEpoch = start.daysFromEpoch + rule.interval * n * 7) :
    base.daysFromEpoch +
        -(((base.weekday.indexFromMonday : Int) - rule.weekStart.indexFromMonday) % 7) =
      7 * rule.periodNumber start n - 3 + rule.weekStart.indexFromMonday := by
  have hindex := Weekday.indexFromMonday_fromIndex ((base.daysFromEpoch + 3) % 7)
  rw [Int.emod_emod] at hindex
  change (base.weekday.indexFromMonday : Int) = _ at hindex
  rw [hindex, periodNumber, periodIndex, hfreq]
  dsimp only
  omega

omit hwf hn in
theorem weeklyCandidates_spec (hfreq : rule.freq = .weekly) {base : Date}
    (hbase : base.daysFromEpoch = start.daysFromEpoch + rule.interval * n * 7)
    (h : rule.Fits start n) : ∃ dates, rule.weeklyCandidates start base = some dates ∧
      ∀ d, d ∈ dates ↔ rule.InPeriod start n d ∧ rule.Picks start d := by
  have hstart := weekStart_days hfreq hbase
  rw [Fits, hfreq] at h
  obtain ⟨hfirst, hlast⟩ := h
  obtain ⟨ws, hws⟩ := Option.isSome_iff_exists.mp
    (Date.addDays_isSome_iff.mpr ⟨hstart ▸ hfirst, by rw [hstart]; omega⟩)
  have hdays := (Date.addDays_eq_some_iff.mp hws).trans hstart
  have hsome : ((List.range 7).mapM fun offset : Nat => ws.addDays offset).isSome = true := by
    refine mapM_isSome_iff.mpr fun o ho => Date.addDays_isSome_iff.mpr ?_
    have ho := List.mem_range.mp ho
    omega
  obtain ⟨days, hweek⟩ := Option.isSome_iff_exists.mp hsome
  unfold weeklyCandidates
  dsimp only
  rw [hws]
  refine ⟨_, (congrArg (Option.bind · _) hweek).trans rfl, fun d => ?_⟩
  have hmem : d ∈ days ↔ rule.InPeriod start n d := by
    rw [mem_of_mapM_eq_some hweek, inPeriod_weekly_iff hfreq]
    constructor
    · rintro ⟨o, ho, hd⟩
      have ho := List.mem_range.mp ho
      have hd := Date.addDays_eq_some_iff.mp hd
      omega
    · intro hd
      exact ⟨(d.daysFromEpoch - ws.daysFromEpoch).toNat, List.mem_range.mpr (by omega),
        Date.addDays_eq_some_iff.mpr (by omega)⟩
  have htarget : (d.weekday ∈ if rule.byDay = [] then [start.weekday]
      else rule.byDay.map (·.weekday)) ↔ rule.Picks start d := by
    unfold Picks
    rw [hfreq]
    dsimp only
    split
    · exact List.mem_singleton
    · rw [List.mem_map]
      simp only [eq_comm]
  rw [List.mem_filter, decide_eq_true_eq, hmem, htarget]

omit hwf hn in
theorem weeklyCandidates_eq_none (hfreq : rule.freq = .weekly) {base : Date}
    (hbase : base.daysFromEpoch = start.daysFromEpoch + rule.interval * n * 7)
    (h : ¬ rule.Fits start n) : rule.weeklyCandidates start base = none := by
  have hstart := weekStart_days hfreq hbase
  rw [Fits, hfreq] at h
  dsimp only at h
  unfold weeklyCandidates
  dsimp only
  cases hws : base.addDays
      (-(((base.weekday.indexFromMonday : Int) - rule.weekStart.indexFromMonday) % 7)) with
  | none => rfl
  | some ws =>
    have hdays := (Date.addDays_eq_some_iff.mp hws).trans hstart
    have hfirst := ws.firstDay_le
    have hnone : ((List.range 7).mapM fun offset : Nat => ws.addDays offset) = none := by
      rw [← Option.not_isSome_iff_eq_none, mapM_isSome_iff]
      intro hall
      have hlast := Date.addDays_isSome_iff.mp (hall 6 (by decide))
      omega
    exact (congrArg (Option.bind · _) hnone).trans rfl

theorem exists_periodDates_weekly (hfreq : rule.freq = .weekly) (h : rule.Fits start n) :
    ∃ base dates, rule.PeriodDates start n base dates := by
  have hbounds := h
  rw [Fits, hfreq] at hbounds
  dsimp only at hbounds
  have hnumber : rule.periodNumber start n =
      (start.daysFromEpoch + 3 - rule.weekStart.indexFromMonday) / 7 + rule.interval * n := by
    rw [periodNumber, periodIndex, hfreq]
  have hw := rule.weekStart.indexFromMonday_lt
  have hsome : (start.addDays (rule.interval * n * 7)).isSome = true :=
    Date.addDays_isSome_iff.mpr (by omega)
  obtain ⟨base, hadd⟩ := Option.isSome_iff_exists.mp hsome
  have hdays := Date.addDays_eq_some_iff.mp hadd
  have hperiod : rule.periodBase start n = some base := by
    rw [periodBase_eq hwf hn, hfreq]
    exact hadd
  obtain ⟨dates, hdates, hmem⟩ := weeklyCandidates_spec hfreq hdays h
  refine exists_periodDates_of_raw hperiod ?_ (by rw [rawCandidates, hfreq]; exact hdates)
    fun d _ => hmem d
  rw [inPeriod_weekly_iff hfreq]
  omega

theorem candidates_eq_none_weekly (hfreq : rule.freq = .weekly) (h : ¬ rule.Fits start n) :
    rule.candidatesForPeriod start n = none := by
  refine candidates_eq_none_of_raw fun base hbase => ?_
  rw [periodBase_eq hwf hn, hfreq] at hbase
  rw [rawCandidates, hfreq]
  exact weeklyCandidates_eq_none hfreq (Date.addDays_eq_some_iff.mp hbase) h

omit hwf hn in
theorem inPeriod_monthly_iff (hfreq : rule.freq = .monthly) {base : Date}
    (hbase : base.monthIndex = rule.periodNumber start n) {d : Date} :
    rule.InPeriod start n d ↔ d.year = base.year ∧ d.month = base.month := by
  rw [InPeriod, periodIndex, hfreq, ← hbase]
  dsimp only
  constructor
  · intro h
    constructor
    · apply Subtype.ext
      rw [← d.monthIndex_div, ← base.monthIndex_div, h]
    · rw [← d.monthIndex_mod, ← base.monthIndex_mod, h]
  · rintro ⟨hyear, hmonth⟩
    rw [Date.monthIndex, Date.monthIndex, hyear, hmonth]

theorem exists_periodDates_monthly (hfreq : rule.freq = .monthly) (h : rule.Fits start n) :
    ∃ base dates, rule.PeriodDates start n base dates := by
  have hmem := step_mem hwf hn
  have hyear := start.year.2
  have hmonth := start.month_mem
  have hnumber : rule.periodNumber start n = start.monthIndex + rule.interval * n := by
    rw [periodNumber, periodIndex, hfreq]
  rw [Fits, hfreq] at h
  obtain ⟨hlast, hneg⟩ := h
  have hsome : (start.addMonthsClamped (rule.interval * n)).isSome = true := by
    refine Date.addMonthsClamped_isSome_iff.mpr ⟨?_, hnumber ▸ hlast⟩
    unfold Date.monthIndex
    omega
  obtain ⟨base, hadd⟩ := Option.isSome_iff_exists.mp hsome
  obtain ⟨hindex, hday⟩ := Date.addMonthsClamped_eq_some_iff.mp hadd
  have hin := @inPeriod_monthly_iff rule start n hfreq base (hindex.trans hnumber.symm)
  have hperiod : rule.periodBase start n = some base := by
    rw [periodBase_eq hwf hn, hfreq]
    exact hadd
  have hplain : ∀ d, d ∈ [base] ↔ (d.year = base.year ∧ d.month = base.month) ∧
      d.day = min start.day (daysInMonth d.year.1 d.month) := by
    intro d
    rw [List.mem_singleton]
    constructor
    · rintro rfl
      exact ⟨⟨rfl, rfl⟩, hday⟩
    · rintro ⟨⟨hyear, hmonth⟩, hd⟩
      refine Date.ext_monthIndex ?_ ?_
      · rw [Date.monthIndex, Date.monthIndex, hyear, hmonth]
      · rw [hd, hday, hyear, hmonth]
  obtain ⟨dates, hdates, hdmem⟩ :=
    hwf.daysOfMonth_spec hneg base.month_mem hplain
  refine exists_periodDates_of_raw hperiod (hin.mpr ⟨rfl, rfl⟩)
    (by rw [rawCandidates, hfreq]; exact hdates) fun d _ => ?_
  rw [hdmem, hin, Picks, hfreq]

theorem candidates_eq_none_monthly (hfreq : rule.freq = .monthly) (h : ¬ rule.Fits start n) :
    rule.candidatesForPeriod start n = none := by
  refine candidates_eq_none_of_raw fun base hbase => ?_
  rw [periodBase_eq hwf hn, hfreq] at hbase
  have hlast := (Date.addMonthsClamped_isSome_iff.mp (Option.isSome_of_eq_some hbase)).2
  rw [rawCandidates, hfreq]
  refine hwf.daysOfMonth_eq_none fun hneg => h ?_
  rw [Fits, hfreq, periodNumber, periodIndex, hfreq]
  exact ⟨hlast, hneg⟩

omit hn in
theorem yearlyCandidates_spec (hneg : rule.Negatable) {base : Date} {first : Nat}
    (hfirst : base.day = min first (daysInMonth base.year.1 base.month)) :
    ∃ dates, rule.yearlyCandidates base = some dates ∧ ∀ d, d ∈ dates ↔ d.year = base.year ∧
      (if rule.byMonth = [] then d.month = base.month else d.month ∈ rule.byMonth) ∧
      rule.SelectsDay (d.day = min (min first (daysInMonth d.year.1 base.month))
        (daysInMonth d.year.1 d.month)) d := by
  have hmonths : ∀ m ∈ (if rule.byMonth = [] then [base.month] else rule.byMonth),
      1 ≤ m ∧ m ≤ 12 := by
    split
    · simpa using base.month_mem
    · exact hwf.months
  have hspec : ∀ m ∈ (if rule.byMonth = [] then [base.month] else rule.byMonth),
      ∃ dates, rule.daysOfMonth base.year m
        (Date.new base.year m (min base.day (daysInMonth base.year.1 m))).toOption.toList =
          some dates ∧ ∀ d, d ∈ dates ↔ (d.year = base.year ∧ d.month = m) ∧
        rule.SelectsDay (d.day = min (min first (daysInMonth d.year.1 base.month))
          (daysInMonth d.year.1 d.month)) d := by
    intro m hm
    refine hwf.daysOfMonth_spec hneg (hmonths m hm) fun d => ?_
    rw [Option.mem_toList, Date.toOption_new_eq_some_iff, and_assoc]
    refine and_congr_right fun hyear => and_congr_right fun hmonth => ?_
    rw [hyear, hmonth, hfirst]
  have hsome : ((if rule.byMonth = [] then [base.month] else rule.byMonth).mapM fun m =>
      rule.daysOfMonth base.year m
        (Date.new base.year m (min base.day (daysInMonth base.year.1 m))).toOption.toList).isSome =
          true := by
    refine mapM_isSome_iff.mpr fun m hm => ?_
    obtain ⟨dates, hdates, -⟩ := hspec m hm
    rw [hdates]
    rfl
  obtain ⟨lists, hlists⟩ := Option.isSome_iff_exists.mp hsome
  refine ⟨lists.flatten, (congrArg (Option.bind · _) hlists).trans rfl, fun d => ?_⟩
  have hmem : (if rule.byMonth = [] then d.month = base.month else d.month ∈ rule.byMonth) ↔
      d.month ∈ (if rule.byMonth = [] then [base.month] else rule.byMonth) := by
    split
    · exact List.mem_singleton.symm
    · rfl
  rw [hmem, List.mem_flatten]
  simp only [mem_of_mapM_eq_some hlists]
  constructor
  · rintro ⟨dates, ⟨m, hm, hdates⟩, hd⟩
    obtain ⟨dates', hdates', hdmem⟩ := hspec m hm
    obtain rfl := Option.some.inj (hdates.symm.trans hdates')
    obtain ⟨⟨hyear, hmonth⟩, hselects⟩ := (hdmem d).mp hd
    exact ⟨hyear, hmonth ▸ hm, hselects⟩
  · rintro ⟨hyear, hm, hselects⟩
    obtain ⟨dates, hdates, hdmem⟩ := hspec d.month hm
    exact ⟨dates, ⟨d.month, hm, hdates⟩, (hdmem d).mpr ⟨⟨hyear, rfl⟩, hselects⟩⟩

theorem exists_periodDates_yearly (hfreq : rule.freq = .yearly) (h : rule.Fits start n) :
    ∃ base dates, rule.PeriodDates start n base dates := by
  have hmem := step_mem hwf hn
  have hyear := start.year.2
  have hnumber : rule.periodNumber start n = start.year.1 + rule.interval * n := by
    rw [periodNumber, periodIndex, hfreq]
  rw [Fits, hfreq] at h
  obtain ⟨hstep, hlast, hneg⟩ := h
  have hcheck : checkI32 (rule.interval * n) = some ⟨rule.interval * n, by omega, hstep⟩ :=
    checkI32_eq_some_iff.mpr rfl
  have hsome : (start.addYearsClamped ⟨rule.interval * n, by omega, hstep⟩).isSome = true :=
    Date.addYearsClamped_isSome_iff.mpr ⟨by dsimp only; omega, hnumber ▸ hlast⟩
  obtain ⟨base, hadd⟩ := Option.isSome_iff_exists.mp hsome
  obtain ⟨hbase, hmonth, hday⟩ := Date.addYearsClamped_eq_some_iff.mp hadd
  have hin : ∀ d, rule.InPeriod start n d ↔ d.year = base.year := by
    intro d
    rw [InPeriod, periodIndex, hfreq, hnumber, ← Subtype.val_inj, hbase]
  have hperiod : rule.periodBase start n = some base := by
    rw [periodBase_eq hwf hn, hfreq]
    exact (congrArg (Option.bind · _) hcheck).trans hadd
  obtain ⟨dates, hdates, hdmem⟩ := yearlyCandidates_spec hwf hneg hday
  refine exists_periodDates_of_raw hperiod ((hin base).mpr rfl)
    (by rw [rawCandidates, hfreq]; exact hdates) fun d hallows => ?_
  have hmonths : (if rule.byMonth = [] then d.month = base.month else d.month ∈ rule.byMonth) ↔
      (rule.byMonth = [] → d.month = start.month) := by
    split
    next hnil => rw [hmonth]; exact ⟨fun h _ => h, fun h => h hnil⟩
    next hnil => exact iff_of_true (hallows.resolve_left hnil) fun h => absurd h hnil
  rw [hdmem, hin, Picks, hfreq, hmonths, hmonth]

theorem candidates_eq_none_yearly (hfreq : rule.freq = .yearly) (h : ¬ rule.Fits start n) :
    rule.candidatesForPeriod start n = none := by
  refine candidates_eq_none_of_raw fun base hbase => ?_
  rw [periodBase_eq hwf hn, hfreq] at hbase
  obtain ⟨years, hyears, hadd⟩ := Option.bind_eq_some_iff.mp hbase
  have hcheck := checkI32_eq_some_iff.mp hyears
  have hlast := (Date.addYearsClamped_isSome_iff.mp (Option.isSome_of_eq_some hadd)).2
  have hneg : ¬ rule.Negatable := by
    intro hneg
    refine h ?_
    rw [Fits, hfreq, periodNumber, periodIndex, hfreq]
    exact ⟨hcheck ▸ years.2.2, hcheck ▸ hlast, hneg⟩
  have hnone (months : List Nat) (hmonths : months ≠ []) : (months.mapM fun month =>
      rule.daysOfMonth base.year month
        (Date.new base.year month (min base.day (daysInMonth base.year.1 month))).toOption.toList) =
      none := by
    obtain ⟨m, hm⟩ := List.exists_mem_of_ne_nil months hmonths
    rw [← Option.not_isSome_iff_eq_none, mapM_isSome_iff]
    intro hall
    have hsome := hall m hm
    rw [hwf.daysOfMonth_eq_none hneg] at hsome
    cases hsome
  rw [rawCandidates, hfreq]
  refine (congrArg (Option.bind · _) (hnone _ ?_)).trans rfl
  split
  · exact List.cons_ne_nil _ _
  · assumption

theorem exists_periodDates (h : rule.Fits start n) :
    ∃ base dates, rule.PeriodDates start n base dates := by
  cases hfreq : rule.freq with
  | daily => exact exists_periodDates_daily hwf hn hfreq h
  | weekly => exact exists_periodDates_weekly hwf hn hfreq h
  | monthly => exact exists_periodDates_monthly hwf hn hfreq h
  | yearly => exact exists_periodDates_yearly hwf hn hfreq h

theorem candidates_eq_none (h : ¬ rule.Fits start n) :
    rule.candidatesForPeriod start n = none := by
  cases hfreq : rule.freq with
  | daily => exact candidates_eq_none_daily hwf hn hfreq h
  | weekly => exact candidates_eq_none_weekly hwf hn hfreq h
  | monthly => exact candidates_eq_none_monthly hwf hn hfreq h
  | yearly => exact candidates_eq_none_yearly hwf hn hfreq h

end Frequencies

theorem periodIndex_mono {d d' : Date} (h : d ≤ d') : rule.periodIndex d ≤ rule.periodIndex d' := by
  have hdays := Date.le_iff.mp h
  unfold periodIndex
  cases rule.freq with
  | daily => exact hdays
  | weekly => dsimp only; omega
  | monthly =>
    have hlt := @Date.daysFromEpoch_lt_iff d' d
    dsimp only
    omega
  | yearly =>
    have hlt := @Date.daysFromEpoch_lt_iff d' d
    have hdiv := d.monthIndex_div
    have hdiv' := d'.monthIndex_div
    dsimp only
    omega

theorem WellFormed.periodNumber_lt (hwf : rule.WellFormed) {m n : Nat} (h : m < n) :
    rule.periodNumber start m < rule.periodNumber start n := by
  have hlt : rule.interval * m < rule.interval * n :=
    Nat.mul_lt_mul_of_pos_left h hwf.interval.1
  unfold periodNumber
  exact_mod_cast Int.add_lt_add_left (Int.ofNat_lt.mpr hlt) _

theorem WellFormed.lt_of_inPeriod (hwf : rule.WellFormed) {m n : Nat} (h : m < n) {d d' : Date}
    (hd : rule.InPeriod start m d) (hd' : rule.InPeriod start n d') : d < d' := by
  by_contra hle
  have hmono : rule.periodIndex d' ≤ rule.periodIndex d := periodIndex_mono (not_lt.mp hle)
  have hlt : rule.periodNumber start m < rule.periodNumber start n := hwf.periodNumber_lt h
  rw [InPeriod] at hd hd'
  omega

end RRule

end CaveHome.Calendar
