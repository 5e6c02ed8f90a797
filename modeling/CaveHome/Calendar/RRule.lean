import CaveHome.Calendar.Date
import CaveHome.Lib.Ranks
import CaveHome.Lib.Text
import Mathlib.Data.List.Sort

/-!
# Recurrence rules

A rule is read from text and expanded into the dates on which an appointment takes place.  Functions
that may cut a text inside a character or leave the range of a number have no result then.
-/

namespace CaveHome.Calendar

/-! ## Text -/

def toAsciiUppercase (s : List Char) : String := String.ofList (s.map Char.toUpper)

def isAsciiDigit (c : Char) : Bool := '0' ≤ c && c ≤ '9'

def parseU32 (s : List Char) : Option Nat :=
  (Text.parseU64 (String.ofList s)).filter (· ≤ 4294967295)

def parseU8 (s : List Char) : Option Nat := (Text.parseU64 (String.ofList s)).filter (· ≤ 255)

def parseI8 (s : List Char) : Option Int :=
  (Text.parseI32 (String.ofList s)).filter fun n => -128 ≤ n ∧ n ≤ 127

/-- Cut a text after so many bytes, which must not be inside a character. -/
def splitAt : Nat → List Char → Option (List Char × List Char)
  | 0, s => some ([], s)
  | _ + 1, [] => none
  | n + 1, c :: s =>
    if c.utf8Size ≤ n + 1 then (splitAt (n + 1 - c.utf8Size) s).map fun p => (c :: p.1, p.2)
    else none

/-- The number of bytes of a text. -/
def byteLen (s : List Char) : Nat := (s.map Char.utf8Size).sum

def Weekday.fromIcalCode (code : List Char) : Option Weekday :=
  match toAsciiUppercase code with
  | "MO" => some .monday
  | "TU" => some .tuesday
  | "WE" => some .wednesday
  | "TH" => some .thursday
  | "FR" => some .friday
  | "SA" => some .saturday
  | "SU" => some .sunday
  | _ => none

/-! ## Values of dates -/

structure DateTime where
  date : Date
  hour : Nat
  minute : Nat
  second : Nat
  time_mem : hour ≤ 23 ∧ minute ≤ 59 ∧ second ≤ 60
deriving DecidableEq

namespace DateTime

def new (date : Date) (hour minute second : Nat) : Except DateError DateTime :=
  if h : 23 < hour ∨ 59 < minute ∨ 60 < second then .error .timeOutOfRange
  else .ok ⟨date, hour, minute, second, by omega⟩

def atMidnight (date : Date) : DateTime := ⟨date, 0, 0, 0, by decide⟩

end DateTime

inductive IcalError
  | badDateValue (value : String)
  | badDate (e : DateError)
deriving DecidableEq

/-- A whole day or a time of a day. -/
inductive DateValue
  | day (date : Date)
  | moment (dt : DateTime)
deriving DecidableEq

def DateValue.date : DateValue → Date
  | day date => date
  | moment dt => dt.date

/-- The date that eight digits stand for. -/
def parseYmd (bad : IcalError) (d : List Char) : Except IcalError Date := do
  if d.length ≠ 8 ∨ ¬ d.all isAsciiDigit then throw bad
  let year ← ((Text.parseI32 (String.ofList (d.take 4))).bind checkI32).elim (throw bad) pure
  let month ← (parseU8 ((d.drop 4).take 2)).elim (throw bad) pure
  let day ← (parseU8 (d.drop 6)).elim (throw bad) pure
  (Date.new year month day).mapError .badDate

/-- `YYYYMMDD` or `YYYYMMDDTHHMMSS`, perhaps with a `Z` at the end. -/
def parseDateValue (raw : List Char) : Except IcalError DateValue := do
  let s := Text.trim raw
  let bad : IcalError := .badDateValue (String.ofList raw)
  match Text.splitOnce ['T'] s with
  | some (datepart, timepart) =>
    let date ← parseYmd bad datepart
    let t := if timepart.getLast? = some 'Z' then timepart.dropLast else timepart
    if t.length ≠ 6 ∨ ¬ t.all isAsciiDigit then throw bad
    let hour ← (parseU8 (t.take 2)).elim (throw bad) pure
    let minute ← (parseU8 ((t.drop 2).take 2)).elim (throw bad) pure
    let second ← (parseU8 (t.drop 4)).elim (throw bad) pure
    let dt ← (DateTime.new date hour minute second).mapError .badDate
    return .moment dt
  | none => return .day (← parseYmd bad s)

/-! ## Rules -/

inductive Freq
  | daily
  | weekly
  | monthly
  | yearly
deriving DecidableEq

def Freq.parse (s : List Char) : Option Freq :=
  match toAsciiUppercase s with
  | "DAILY" => some .daily
  | "WEEKLY" => some .weekly
  | "MONTHLY" => some .monthly
  | "YEARLY" => some .yearly
  | _ => none

/-- A weekday, and perhaps which one of the month. -/
structure ByDay where
  ordinal : Option Int
  weekday : Weekday
deriving DecidableEq

/-- How a recurrence ends. -/
inductive Limit
  | forever
  | count (c : Nat)
  | until (date : Date)
deriving DecidableEq

structure RRule where
  freq : Freq
  interval : Nat
  limit : Limit
  byDay : List ByDay
  byMonthDay : List Int
  byMonth : List Nat
  weekStart : Weekday
deriving DecidableEq

/-- A day such as `MO`, `1FR` or `-1SU`.  The last two bytes are cut off without looking where a
character ends. -/
def parseByday (tok : List Char) : Option (Option ByDay) :=
  let t := Text.trim tok
  if byteLen t < 2 then some none
  else do
    let (num, code) ← splitAt (byteLen t - 2) t
    match Weekday.fromIcalCode code with
    | none => return none
    | some weekday =>
      if num = [] then return some ⟨none, weekday⟩
      else return (parseI8 num).map fun n => ⟨some n, weekday⟩

/-- What has been read of a rule. -/
structure Parts where
  freq : Option Freq
  interval : Nat
  limit : Limit
  byDay : List ByDay
  byMonthDay : List Int
  byMonth : List Nat
  weekStart : Weekday

/-- The pieces between the commas that are not empty. -/
def tokens (val : List Char) : List (List Char) := (val.splitOn ',').filter (· ≠ [])

/-- An error or a result, or a panic. -/
abbrev Outcome := ExceptT IcalError Option

/-- A day of a list, which may panic. -/
def bydayToken (bad : IcalError) (tok : List Char) : Outcome ByDay :=
  (parseByday tok).map fun b => b.elim (.error bad) .ok

def monthDayToken (bad : IcalError) (tok : List Char) : Outcome Int :=
  match parseI8 (Text.trim tok) with
  | none => throw bad
  | some n => if n = 0 ∨ ¬ (-31 ≤ n ∧ n ≤ 31) then throw bad else return n

def monthToken (bad : IcalError) (tok : List Char) : Outcome Nat :=
  match parseU8 (Text.trim tok) with
  | none => throw bad
  | some m => if m = 0 ∨ 12 < m then throw bad else return m

def parsePart (bad : IcalError) (acc : Parts) (part : List Char) : Outcome Parts :=
  match Text.splitOnce ['='] part with
  | none => throw bad
  | some (key, val) =>
    match toAsciiUppercase (Text.trim key) with
    | "FREQ" => (Freq.parse val).elim (throw bad) fun f => return { acc with freq := some f }
    | "INTERVAL" => (parseU32 (Text.trim val)).elim (throw bad) fun n =>
      if n = 0 then throw bad else return { acc with interval := n }
    | "COUNT" => (parseU32 (Text.trim val)).elim (throw bad) fun c =>
      return { acc with limit := .count c }
    | "UNTIL" => do
      let d ← (parseDateValue (Text.trim val) : Except IcalError DateValue)
      return { acc with limit := .until d.date }
    | "BYDAY" => do
      let days ← (tokens val).mapM (bydayToken bad)
      return { acc with byDay := acc.byDay ++ days }
    | "BYMONTHDAY" => do
      let days ← (tokens val).mapM (monthDayToken bad)
      return { acc with byMonthDay := acc.byMonthDay ++ days }
    | "BYMONTH" => do
      let months ← (tokens val).mapM (monthToken bad)
      return { acc with byMonth := acc.byMonth ++ months }
    | "WKST" => (Weekday.fromIcalCode (Text.trim val)).elim (throw bad) fun w =>
      return { acc with weekStart := w }
    | _ => return acc

def Parts.none : Parts := ⟨.none, 1, .forever, [], [], [], .monday⟩

def RRule.parse (value : String) : Outcome RRule := do
  let bad : IcalError := .badDateValue value
  let parts := (value.toList.splitOn ';').filter (· ≠ [])
  let acc ← parts.foldlM (parsePart bad) Parts.none
  match acc.freq with
  | .none => throw bad
  | some freq =>
    return ⟨freq, acc.interval, acc.limit, acc.byDay, acc.byMonthDay, acc.byMonth, acc.weekStart⟩

end CaveHome.Calendar

/-!
## The expansion of a rule

A rule is expanded period by period, from the one of its first date on: the dates of a period that
the rule selects are put in order, those before the first date are left out, and so is what comes
after the end of the rule.
-/

namespace CaveHome.Calendar

open Ranks

def sortUnstable (dates : List Date) : List Date := dates.insertionSort (· ≤ ·)

def checkI8 (x : Int) : Option Int := if -128 ≤ x ∧ x ≤ 127 then some x else none

/-- The dates of a month that one entry of a list of weekdays stands for. -/
def collectBydayInMonth (year : I32Val) (month : Nat) (bd : ByDay) : Option (List Date) := do
  let dim := daysInMonth year.1 month
  let days := (List.range' 1 dim).filterMap fun day => (Date.new year month day).toOption
  let matching := days.filter fun d => d.weekday = bd.weekday
  match bd.ordinal with
  | none => return matching
  | some ord =>
    if 0 < ord then return (matching[ord.toNat - 1]?).toList
    else
      -- counted from the end; the smallest number has no negation
      let fromEnd ← checkI8 (-ord)
      if 1 ≤ fromEnd.toNat ∧ fromEnd.toNat ≤ matching.length then
        return (matching[matching.length - fromEnd.toNat]?).toList
      else return []

/-- A day of the month, counted from the end when it is negative. -/
def resolveMonthday (n : Int) (dim : Nat) : Option (Option Nat) :=
  if 0 < n then some (if n.toNat ≤ dim then some n.toNat else none)
  else do
    let fromEnd ← checkI8 (-n)
    return if fromEnd.toNat ≤ dim then some (dim - fromEnd.toNat + 1) else none

def monthdaysInMonth (year : I32Val) (month : Nat) (ns : List Int) : Option (List Date) := do
  let days ← ns.mapM fun n => resolveMonthday n (daysInMonth year.1 month)
  return days.filterMap fun day => day.bind fun day => (Date.new year month day).toOption

namespace RRule

/-! ## Periods -/

/-- The date of a period that the parts of the rule start from. -/
def periodBase (rule : RRule) (start : Date) (n : Nat) : Option Date := do
  let step ← checkI64 (rule.interval * n)
  match rule.freq with
  | .daily => start.addDays step
  | .weekly => start.addDays (← checkI64 (step * 7))
  | .monthly => start.addMonthsClamped step
  | .yearly => start.addYearsClamped (← checkI32 step)

def weeklyCandidates (rule : RRule) (start base : Date) : Option (List Date) := do
  let wkst : Int := rule.weekStart.indexFromMonday
  let baseIdx : Int := base.weekday.indexFromMonday
  let back := (baseIdx - wkst) % 7
  let weekStartDate ← base.addDays (-back)
  let targetDays := if rule.byDay = [] then [start.weekday] else rule.byDay.map (·.weekday)
  let days ← (List.range 7).mapM fun offset => weekStartDate.addDays offset
  return days.filter fun d => d.weekday ∈ targetDays

/-- What the parts about days select in a month, or the one date when there are none. -/
def daysOfMonth (rule : RRule) (year : I32Val) (month : Nat) (plain : List Date) :
    Option (List Date) :=
  if rule.byDay ≠ [] then
    (rule.byDay.mapM (collectBydayInMonth year month)).map List.flatten
  else if rule.byMonthDay ≠ [] then monthdaysInMonth year month rule.byMonthDay
  else some plain

def monthlyCandidates (rule : RRule) (base : Date) : Option (List Date) :=
  rule.daysOfMonth base.year base.month [base]

def yearlyCandidates (rule : RRule) (base : Date) : Option (List Date) := do
  let year := base.year
  let months := if rule.byMonth = [] then [base.month] else rule.byMonth
  let dates ← months.mapM fun month =>
    rule.daysOfMonth year month
      (Date.new year month (min base.day (daysInMonth year.1 month))).toOption.toList
  return dates.flatten

/-- The dates of a period that the rule selects, in order. -/
def candidatesForPeriod (rule : RRule) (start : Date) (n : Nat) : Option (List Date) := do
  let base ← rule.periodBase start n
  let dates ← match rule.freq with
    | .daily => some [base]
    | .weekly => rule.weeklyCandidates start base
    | .monthly => rule.monthlyCandidates base
    | .yearly => rule.yearlyCandidates base
  let dates := if rule.byMonth = [] then dates else dates.filter fun d => d.month ∈ rule.byMonth
  return dedup (sortUnstable dates)

/-! ## The loop -/

/-- Is the date after the last one that the rule allows? -/
def pastUntil (rule : RRule) (date : Date) : Bool :=
  match rule.limit with
  | .until u => u < date
  | _ => false

/-- Have enough dates been emitted? -/
def countReached (rule : RRule) (emitted : Nat) : Bool :=
  match rule.limit with
  | .count c => c ≤ emitted
  | _ => false

/-- What the loop over the periods keeps. -/
structure Progress where
  out : List Date
  emitted : Nat
  allPastUntil : Bool

/-- The loop over the dates of a period, and whether it ended the expansion. -/
def emit (rule : RRule) (start windowStart windowEnd : Date) : List Date → Progress →
    Progress × Bool
  | [], p => (p, false)
  | date :: dates, p =>
    if date < start then emit rule start windowStart windowEnd dates p
    else if rule.pastUntil date then
      emit rule start windowStart windowEnd dates { p with allPastUntil := true }
    else
      let p : Progress :=
        { p with
          out := if windowStart ≤ date ∧ date ≤ windowEnd then p.out ++ [date] else p.out
          emitted := p.emitted + 1 }
      if rule.countReached p.emitted then (p, true)
      else emit rule start windowStart windowEnd dates p

/-- Does the expansion end after a period with this base? -/
def ended (rule : RRule) (windowEnd base : Date) (allPastUntil : Bool) : Bool :=
  match rule.limit with
  | .until u => u < base && allPastUntil
  | _ => windowEnd < base

/-- The loop over so many periods from one on. -/
def expand (rule : RRule) (start windowStart windowEnd : Date) :
    Nat → Nat → List Date → Nat → Option (List Date)
  | 0, _, out, _ => some (dedup (sortUnstable out))
  | k + 1, period, out, emitted => do
    let candidates ← rule.candidatesForPeriod start period
    let (p, full) := rule.emit start windowStart windowEnd candidates
      ⟨out, emitted, candidates.isEmpty⟩
    if full then return dedup (sortUnstable p.out)
    let base ← rule.periodBase start period
    if rule.ended windowEnd base p.allPastUntil then return dedup (sortUnstable p.out)
    expand rule start windowStart windowEnd k (period + 1) p.out p.emitted

def MAX_PERIODS : Nat := 1000000

def occurrences (rule : RRule) (start windowStart windowEnd : Date) : Option (List Date) :=
  if windowEnd < windowStart then some []
  else rule.expand start windowStart windowEnd MAX_PERIODS 0 [] 0

end RRule

end CaveHome.Calendar
