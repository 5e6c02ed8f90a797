import CaveHome.Calendar.Expansion

/-!
# How long an appointment takes

A duration is read from text, and the end of an appointment is computed from it.  The numbers of a
duration are not bounded by anything but their type, so that the sums may leave it.
-/

namespace CaveHome.Calendar

/-! ## Durations -/

/-- A length of time. -/
structure Duration where
  days : Int
  seconds : Int
deriving DecidableEq

namespace Duration

def totalSeconds (dur : Duration) : Option Int := do
  let days ← checkI64 (dur.days * 86400)
  checkI64 (days + dur.seconds)

end Duration

/-- A number of digits; the source also reads a sign, which there is none of here. -/
def parseI64 (num : List Char) : Option Int :=
  if num = [] then none
  else (Text.digits num 0).bind fun n => if n ≤ 9223372036854775807 then some (n : Int) else none

/-- What has been read of a duration. -/
structure DurationRead where
  days : Int
  seconds : Int
  inTime : Bool
  num : List Char
  sawAny : Bool

/-- How many days or seconds a unit has. -/
def unitFactor (inTime : Bool) (unit : Char) : Option Int :=
  match inTime, unit with
  | false, 'W' => some 7
  | false, 'D' => some 1
  | true, 'H' => some 3600
  | true, 'M' => some 60
  | true, 'S' => some 1
  | _, _ => none

/-- A result that a number leaving the range of its type takes away. -/
def Outcome.checked {α : Type} (x : Option α) : Outcome α := x.map .ok

/-- One character of a duration. -/
def durationChar (bad : IcalError) (r : DurationRead) (ch : Char) : Outcome DurationRead :=
  if ch = 'T' then return { r with inTime := true }
  else if isAsciiDigit ch then return { r with num := r.num ++ [ch] }
  else match parseI64 r.num with
    | none => throw bad
    | some n =>
      match unitFactor r.inTime ch with
      | none => throw bad
      | some factor => do
        let amount ← Outcome.checked (checkI64 (n * factor))
        if r.inTime then
          let seconds ← Outcome.checked (checkI64 (r.seconds + amount))
          return { r with seconds, num := [], sawAny := true }
        else
          let days ← Outcome.checked (checkI64 (r.days + amount))
          return { r with days, num := [], sawAny := true }

/-- Whether the duration is negative, and the text after the sign. -/
def durationSign : List Char → Int × List Char
  | '-' :: rest => (-1, rest)
  | '+' :: rest => (1, rest)
  | s => (1, s)

def parseDuration (raw : String) : Outcome Duration :=
  let bad : IcalError := .badDateValue raw
  let (sign, s) := durationSign (Text.trim raw.toList)
  match s with
  | 'P' :: s => do
    let r ← s.foldlM (durationChar bad) ⟨0, 0, false, [], false⟩
    if r.num ≠ [] ∨ r.sawAny = false then throw bad
    let days ← Outcome.checked (checkI64 (sign * r.days))
    let seconds ← Outcome.checked (checkI64 (sign * r.seconds))
    return ⟨days, seconds⟩
  | _ => throw bad

def DateTime.floatingUnixSeconds (dt : DateTime) : Option Int := do
  let days ← checkI64 (dt.date.daysFromEpoch * 86400)
  let hours ← checkI64 (days + dt.hour * 3600)
  let minutes ← checkI64 (hours + dt.minute * 60)
  checkI64 (minutes + dt.second)

def addDuration (dt : DateTime) (dur : Duration) : Option DateTime := do
  let start ← dt.floatingUnixSeconds
  let length ← dur.totalSeconds
  let total ← checkI64 (start + length)
  let date ← Date.fromDaysFromEpoch (total / 86400)
  let rem := total % 86400
  let hour := (rem / 3600).toNat
  let minute := (rem % 3600 / 60).toNat
  let second := (rem % 60).toNat
  return (DateTime.new date hour minute second).toOption.getD (.atMidnight date)

def DateValue.asDatetime : DateValue → DateTime
  | day date => .atMidnight date
  | moment dt => dt

/-- The end of an appointment, from the values of its properties. -/
def eventEnd (start : DateTime) (allDay : Bool) (dtend duration : Option String) :
    Outcome DateTime :=
  match dtend, duration with
  | some value, _ => do
    let d ← (parseDateValue value.toList : Except IcalError DateValue)
    return d.asDatetime
  | none, some value => do
    let dur ← parseDuration value
    Outcome.checked (addDuration start dur)
  | none, none => do
    if allDay then
      let next ← Outcome.checked (start.date.addDays 1)
      return .atMidnight next
    else return start

/-! ## Sums of units -/

/-- The amounts of a duration up to the first one that is malformed, and whether they are in
seconds. -/
def amounts : Bool → List Char → List Char → List (Bool × Int)
  | _, _, [] => []
  | inTime, num, ch :: s =>
    if ch = 'T' then amounts true num s
    else if isAsciiDigit ch then amounts inTime (num ++ [ch]) s
    else match parseI64 num, unitFactor inTime ch with
      | some n, some factor => (inTime, n * factor) :: amounts inTime [] s
      | _, _ => []

/-- The sum of the amounts in days or of those in seconds. -/
def total (inSeconds : Bool) (l : List (Bool × Int)) : Int :=
  ((l.filter fun p => p.1 = inSeconds).map Prod.snd).sum

theorem total_cons_same (b : Bool) (x : Int) (l : List (Bool × Int)) :
    total b ((b, x) :: l) = x + total b l := by
  rw [total, List.filter_cons_of_pos (by simp), List.map_cons, List.sum_cons]
  rfl

theorem total_cons_other {b c : Bool} (h : c ≠ b) (x : Int) (l : List (Bool × Int)) :
    total b ((c, x) :: l) = total b l := by
  rw [total, List.filter_cons_of_neg (by simpa using h)]
  rfl

theorem parseI64_nonneg {num : List Char} {n : Int} (h : parseI64 num = some n) :
    0 ≤ n ∧ n ≤ 9223372036854775807 := by
  unfold parseI64 at h
  split at h
  · cases h
  obtain ⟨m, -, h⟩ := Option.bind_eq_some_iff.mp h
  split at h
  · obtain rfl := Option.some.inj h
    omega
  · cases h

theorem unitFactor_pos {inTime : Bool} {unit : Char} {factor : Int}
    (h : unitFactor inTime unit = some factor) : 1 ≤ factor := by
  unfold unitFactor at h
  split at h <;> cases h <;> decide

theorem amounts_nonneg (inTime : Bool) (num s : List Char) :
    ∀ p ∈ amounts inTime num s, 0 ≤ p.2 := by
  fun_induction amounts inTime num s with
  | case1 => exact fun p hp => absurd hp List.not_mem_nil
  | case2 _ _ _ ih => exact ih
  | case3 _ _ _ _ _ _ ih => exact ih
  | case4 inTime num ch s _ _ n factor hfactor hn ih =>
    refine List.forall_mem_cons.mpr ⟨?_, ih⟩
    exact Int.mul_nonneg (parseI64_nonneg hn).1 (by have := unitFactor_pos hfactor; omega)
  | case5 => exact fun p hp => absurd hp List.not_mem_nil

theorem total_nonneg {b : Bool} {l : List (Bool × Int)} (h : ∀ p ∈ l, 0 ≤ p.2) :
    0 ≤ total b l := by
  refine List.sum_nonneg fun x hx => ?_
  obtain ⟨p, hp, rfl⟩ := List.mem_map.mp hx
  exact h p (List.mem_of_mem_filter hp)

/-! ## When reading a duration panics -/

/-- The sums so far are numbers of 64 bits. -/
structure DurationRead.InRange (r : DurationRead) : Prop where
  days : 0 ≤ r.days ∧ r.days ≤ 9223372036854775807
  seconds : 0 ≤ r.seconds ∧ r.seconds ≤ 9223372036854775807

theorem checkI64_nonneg {x : Int} (h : 0 ≤ x) :
    checkI64 x = if x ≤ 9223372036854775807 then some x else none := by
  unfold checkI64 I64.minValue I64.maxValue
  by_cases hle : x ≤ 9223372036854775807
  · rw [if_pos hle, if_pos (by omega)]
  · rw [if_neg hle, if_neg (by omega)]

/-- The sum that the next amount goes to. -/
def DurationRead.sum (r : DurationRead) : Int := if r.inTime then r.seconds else r.days

/-- What is read after an amount. -/
def DurationRead.add (r : DurationRead) (amount : Int) : DurationRead :=
  if r.inTime then { r with seconds := r.seconds + amount, num := [], sawAny := true }
  else { r with days := r.days + amount, num := [], sawAny := true }

theorem durationChar_unit (bad : IcalError) {r : DurationRead} (h : r.InRange) {ch : Char}
    (htime : ch ≠ 'T') (hdigit : isAsciiDigit ch ≠ true) {n factor : Int}
    (hn : parseI64 r.num = some n) (hfactor : unitFactor r.inTime ch = some factor) :
    (r.sum + n * factor ≤ 9223372036854775807 ∧
      durationChar bad r ch = pure (r.add (n * factor))) ∨
    (9223372036854775807 < r.sum + n * factor ∧ durationChar bad r ch = Outcome.checked none) := by
  have hamount : 0 ≤ n * factor :=
    Int.mul_nonneg (parseI64_nonneg hn).1 (by have := unitFactor_pos hfactor; omega)
  have hdays := h.days
  have hseconds := h.seconds
  unfold durationChar DurationRead.sum DurationRead.add
  rw [if_neg htime, if_neg hdigit, hn]
  dsimp only
  rw [hfactor]
  dsimp only
  rw [checkI64_nonneg hamount]
  generalize n * factor = amount at hamount
  by_cases hle : amount ≤ 9223372036854775807
  · rw [if_pos hle]
    cases r.inTime with
    | true =>
      change (_ ∧ (Outcome.checked (checkI64 (r.seconds + amount)) >>= _) = _) ∨
        (_ ∧ (Outcome.checked (checkI64 (r.seconds + amount)) >>= _) = _)
      rw [checkI64_nonneg (by omega), if_pos rfl]
      by_cases hsum : r.seconds + amount ≤ 9223372036854775807
      · rw [if_pos hsum]
        exact .inl ⟨hsum, rfl⟩
      · rw [if_neg hsum]
        exact .inr ⟨not_le.mp hsum, rfl⟩
    | false =>
      change (_ ∧ (Outcome.checked (checkI64 (r.days + amount)) >>= _) = _) ∨
        (_ ∧ (Outcome.checked (checkI64 (r.days + amount)) >>= _) = _)
      rw [checkI64_nonneg (by omega), if_neg Bool.false_ne_true]
      by_cases hsum : r.days + amount ≤ 9223372036854775807
      · rw [if_pos hsum]
        exact .inl ⟨hsum, rfl⟩
      · rw [if_neg hsum]
        exact .inr ⟨not_le.mp hsum, rfl⟩
  · rw [if_neg hle]
    refine .inr ⟨?_, rfl⟩
    split <;> omega

theorem durationChars_spec (bad : IcalError) (s : List Char) (r : DurationRead) (h : r.InRange) :
    ((s.foldlM (durationChar bad) r).run = none ↔
      9223372036854775807 < r.days + total false (amounts r.inTime r.num s) ∨
        9223372036854775807 < r.seconds + total true (amounts r.inTime r.num s)) ∧
    ∀ r', s.foldlM (durationChar bad) r = pure r' → r'.InRange := by
  induction s generalizing r with
  | nil =>
    have hdays := h.days
    have hseconds := h.seconds
    refine ⟨iff_of_false (fun hnone => by cases hnone) ?_, fun r' hr' => ?_⟩
    · simp only [amounts, total, List.filter_nil, List.map_nil, List.sum_nil]
      omega
    · cases hr'
      exact h
  | cons ch s ih =>
    rw [List.foldlM_cons]
    by_cases htime : ch = 'T'
    · rw [durationChar, amounts, if_pos htime, if_pos htime, pure_bind]
      exact ih _ ⟨h.days, h.seconds⟩
    by_cases hdigit : isAsciiDigit ch = true
    · rw [durationChar, amounts, if_neg htime, if_neg htime, if_pos hdigit, if_pos hdigit, pure_bind]
      exact ih _ ⟨h.days, h.seconds⟩
    have hdays := h.days
    have hseconds := h.seconds
    have hrest := amounts_nonneg r.inTime [] s
    have hfalse := total_nonneg (b := false) hrest
    have htrue := total_nonneg (b := true) hrest
    cases hn : parseI64 r.num with
    | none =>
      rw [durationChar, amounts, if_neg htime, if_neg htime, if_neg hdigit, if_neg hdigit, hn]
      refine ⟨iff_of_false (fun hnone => by cases hnone) ?_, fun r' hr' => by cases hr'⟩
      simp only [total, List.filter_nil, List.map_nil, List.sum_nil]
      omega
    | some n =>
      cases hfactor : unitFactor r.inTime ch with
      | none =>
        rw [durationChar, amounts, if_neg htime, if_neg htime, if_neg hdigit, if_neg hdigit, hn,
          hfactor]
        refine ⟨iff_of_false (fun hnone => by cases hnone) ?_, fun r' hr' => by cases hr'⟩
        simp only [total, List.filter_nil, List.map_nil, List.sum_nil]
        omega
      | some factor =>
        have hamount : 0 ≤ n * factor :=
          Int.mul_nonneg (parseI64_nonneg hn).1 (by have := unitFactor_pos hfactor; omega)
        have hamounts : amounts r.inTime r.num (ch :: s) =
            (r.inTime, n * factor) :: amounts r.inTime [] s := by
          rw [amounts, if_neg htime, if_neg hdigit, hn, hfactor]
        rw [hamounts]
        rcases durationChar_unit bad h htime hdigit hn hfactor with ⟨hle, heq⟩ | ⟨hgt, heq⟩
        · rw [heq, pure_bind]
          unfold DurationRead.sum at hle
          unfold DurationRead.add
          cases hin : r.inTime with
          | true =>
            rw [hin, if_pos rfl] at hle
            rw [if_pos rfl, total_cons_same, total_cons_other (by decide), ← add_assoc]
            have hnext := ih { r with seconds := r.seconds + n * factor, num := [], sawAny := true }
              ⟨hdays, by dsimp only; omega⟩
            dsimp only at hnext
            rwa [hin] at hnext
          | false =>
            rw [hin, if_neg Bool.false_ne_true] at hle
            rw [if_neg Bool.false_ne_true, total_cons_same, total_cons_other (by decide),
              ← add_assoc]
            have hnext := ih { r with days := r.days + n * factor, num := [], sawAny := true }
              ⟨by dsimp only; omega, hseconds⟩
            dsimp only at hnext
            rwa [hin] at hnext
        · rw [heq]
          refine ⟨iff_of_true rfl ?_, fun r' hr' => by cases hr'⟩
          unfold DurationRead.sum at hgt
          cases hin : r.inTime with
          | true =>
            rw [hin, if_pos rfl] at hgt
            rw [hin] at htrue
            rw [total_cons_same]
            omega
          | false =>
            rw [hin, if_neg Bool.false_ne_true] at hgt
            rw [hin] at hfalse
            rw [total_cons_same]
            omega

/-- The sums of a duration, up to an amount that is malformed, are numbers of 64 bits. -/
def SumsFit (raw : String) : Prop :=
  match (durationSign (Text.trim raw.toList)).2 with
  | 'P' :: s => total false (amounts false [] s) ≤ 9223372036854775807 ∧
      total true (amounts false [] s) ≤ 9223372036854775807
  | _ => True

/-- Days and seconds have the sign of the duration. -/
def Duration.InRange (dur : Duration) : Prop :=
  (0 ≤ dur.days ∧ dur.days ≤ 9223372036854775807) ∧
      (0 ≤ dur.seconds ∧ dur.seconds ≤ 9223372036854775807) ∨
    (-9223372036854775807 ≤ dur.days ∧ dur.days ≤ 0) ∧
      -9223372036854775807 ≤ dur.seconds ∧ dur.seconds ≤ 0

theorem durationSign_fst (s : List Char) : (durationSign s).1 = 1 ∨ (durationSign s).1 = -1 := by
  unfold durationSign
  split
  · exact .inr rfl
  · exact .inl rfl
  · exact .inl rfl

theorem parseDuration_spec (raw : String) :
    ((parseDuration raw).run = none ↔ ¬ SumsFit raw) ∧
      ∀ dur, parseDuration raw = pure dur → dur.InRange := by
  have hsign := durationSign_fst (Text.trim raw.toList)
  unfold parseDuration SumsFit
  dsimp only
  generalize durationSign (Text.trim raw.toList) = p at hsign
  obtain ⟨sign, s⟩ := p
  dsimp only at hsign ⊢
  split
  next s =>
    obtain ⟨hnone, hrange⟩ := durationChars_spec (.badDateValue raw) s ⟨0, 0, false, [], false⟩
      ⟨by decide, by decide⟩
    dsimp only at hnone
    rw [zero_add, zero_add] at hnone
    have hchecked : ∀ r : DurationRead, r.InRange →
        checkI64 (sign * r.days) = some (sign * r.days) ∧
          checkI64 (sign * r.seconds) = some (sign * r.seconds) := by
      intro r hr
      have hdays := hr.days
      have hseconds := hr.seconds
      rcases hsign with rfl | rfl
      · exact ⟨checkI64_of_mem (by omega), checkI64_of_mem (by omega)⟩
      · exact ⟨checkI64_of_mem (by omega), checkI64_of_mem (by omega)⟩
    constructor
    · rw [Outcome.bind_eq_none_iff, hnone, not_and_or, not_le, not_le]
      refine or_iff_left ?_
      rintro ⟨r, hr, hrest⟩
      obtain ⟨hdays, hseconds⟩ := hchecked r (hrange r hr)
      rw [hdays, hseconds] at hrest
      split at hrest <;> cases hrest
    · intro dur hdur
      obtain ⟨r, hr, hrest⟩ := Outcome.bind_eq_pure_iff.mp hdur
      have hin := hrange r hr
      obtain ⟨hdays, hseconds⟩ := hchecked r hin
      rw [hdays, hseconds] at hrest
      split at hrest
      · cases hrest
      · cases hrest
        have hd := hin.days
        have hs := hin.seconds
        unfold Duration.InRange
        rcases hsign with rfl | rfl
        · dsimp only
          omega
        · dsimp only
          omega
  next =>
    refine ⟨iff_of_false (fun h => by cases h) (not_not_intro trivial), fun dur h => by cases h⟩

/-! ## When the end of an appointment is out of range -/

/-- The day on which an appointment ends that takes so long. -/
def endDay (dt : DateTime) (dur : Duration) : Int :=
  (dt.date.daysFromEpoch * 86400 + dt.hour * 3600 + dt.minute * 60 + dt.second +
    (dur.days * 86400 + dur.seconds)) / 86400

theorem floatingUnixSeconds_eq (dt : DateTime) : dt.floatingUnixSeconds =
    some (dt.date.daysFromEpoch * 86400 + dt.hour * 3600 + dt.minute * 60 + dt.second) := by
  have hfirst := dt.date.firstDay_le
  have hlast := dt.date.le_lastDay
  have htime := dt.time_mem
  unfold Date.firstDay at hfirst
  unfold Date.lastDay at hlast
  unfold DateTime.floatingUnixSeconds
  rw [checkI64_of_mem (by omega), Option.bind_eq_bind, Option.bind_some,
    checkI64_of_mem (by omega), Option.bind_some, checkI64_of_mem (by omega), Option.bind_some,
    checkI64_of_mem (by omega)]

theorem checkI64_eq_none {x : Int}
    (h : ¬ (-9223372036854775808 ≤ x ∧ x ≤ 9223372036854775807)) : checkI64 x = none := if_neg h

theorem addDuration_isSome_iff (dt : DateTime) {dur : Duration} (h : dur.InRange) :
    (addDuration dt dur).isSome = true ↔
      Date.firstDay ≤ endDay dt dur ∧ endDay dt dur ≤ Date.lastDay := by
  have hfirst := dt.date.firstDay_le
  have hlast := dt.date.le_lastDay
  have htime := dt.time_mem
  unfold Date.firstDay at hfirst
  unfold Date.lastDay at hlast
  unfold Duration.InRange at h
  unfold addDuration Duration.totalSeconds endDay
  rw [floatingUnixSeconds_eq, Option.bind_eq_bind, Option.bind_some]
  generalize hstart : dt.date.daysFromEpoch * 86400 + dt.hour * 3600 + dt.minute * 60 +
    dt.second = start
  by_cases hdays : -9223372036854775808 ≤ dur.days * 86400 ∧
      dur.days * 86400 ≤ 9223372036854775807
  · rw [checkI64_of_mem hdays, Option.bind_eq_bind, Option.bind_some]
    by_cases hlength : -9223372036854775808 ≤ dur.days * 86400 + dur.seconds ∧
        dur.days * 86400 + dur.seconds ≤ 9223372036854775807
    · rw [checkI64_of_mem hlength, Option.bind_some]
      by_cases htotal : -9223372036854775808 ≤ start + (dur.days * 86400 + dur.seconds) ∧
          start + (dur.days * 86400 + dur.seconds) ≤ 9223372036854775807
      · rw [checkI64_of_mem htotal, Option.bind_some, ← Date.fromDaysFromEpoch_isSome_iff]
        cases Date.fromDaysFromEpoch ((start + (dur.days * 86400 + dur.seconds)) / 86400) <;> rfl
      · rw [checkI64_eq_none htotal]
        refine iff_of_false Bool.false_ne_true ?_
        unfold Date.firstDay Date.lastDay
        omega
    · rw [checkI64_eq_none hlength]
      refine iff_of_false Bool.false_ne_true ?_
      unfold Date.firstDay Date.lastDay
      omega
  · rw [checkI64_eq_none hdays]
    refine iff_of_false Bool.false_ne_true ?_
    unfold Date.firstDay Date.lastDay
    omega

theorem addDays_one_isSome_iff (d : Date) :
    (d.addDays 1).isSome = true ↔ d.daysFromEpoch ≠ Date.lastDay := by
  have hfirst := d.firstDay_le
  have hlast := d.le_lastDay
  rw [Date.addDays_isSome_iff]
  omega

/-! ## Calendar text -/

/-- The end of an appointment is in range: a duration that is read has sums that fit, and ends on a
day of a date; without a duration a whole day is not the last one. -/
def EndFits (start : DateTime) (allDay : Bool) (dtend duration : Option String) : Prop :=
  match dtend, duration with
  | some _, _ => True
  | none, some value => SumsFit value ∧ ∀ dur, parseDuration value = pure dur →
      Date.firstDay ≤ endDay start dur ∧ endDay start dur ≤ Date.lastDay
  | none, none => allDay = true → start.date.daysFromEpoch ≠ Date.lastDay

theorem checked_eq_none_iff {α : Type} {x : Option α} :
    (Outcome.checked x).run = none ↔ ¬ x.isSome = true := by
  cases x with
  | none => exact iff_of_true rfl Bool.false_ne_true
  | some a => exact iff_of_false (fun h => by cases h) (not_not_intro rfl)

theorem eventEnd_ne_none_iff (start : DateTime) (allDay : Bool) (dtend duration : Option String) :
    (eventEnd start allDay dtend duration).run ≠ none ↔ EndFits start allDay dtend duration := by
  unfold eventEnd EndFits
  cases dtend with
  | some value =>
    refine iff_of_true (fun h => ?_) trivial
    dsimp only at h
    cases hread : parseDateValue value.toList with
    | error e =>
      rw [hread] at h
      cases h
    | ok d =>
      rw [hread] at h
      cases h
  | none =>
    cases duration with
    | some value =>
      obtain ⟨hnone, hrange⟩ := parseDuration_spec value
      dsimp only
      rw [ne_eq, Outcome.bind_eq_none_iff, hnone, not_or, not_not]
      refine and_congr_right fun _ => ⟨fun h dur hdur => ?_, ?_⟩
      · by_contra hout
        refine h ⟨dur, hdur, checked_eq_none_iff.mpr ?_⟩
        rwa [addDuration_isSome_iff start (hrange dur hdur)]
      · rintro h ⟨dur, hdur, hchecked⟩
        refine checked_eq_none_iff.mp hchecked ?_
        exact (addDuration_isSome_iff start (hrange dur hdur)).mpr (h dur hdur)
    | none =>
      cases allDay with
      | false => exact iff_of_true (fun h => by cases h) (fun h => by cases h)
      | true =>
        rw [← addDays_one_isSome_iff]
        dsimp only
        cases start.date.addDays 1 with
        | none => exact iff_of_false (fun h => h rfl) (fun h => by cases h rfl)
        | some next => exact iff_of_true (fun h => by cases h) (fun _ => rfl)

/-- Reading a rule panics exactly when it comes to a weekday of which the last two bytes are not
whole characters; reading a duration, when its sums do not fit; the end of an appointment, when it
is out of range; the expansion, when it comes to a period that does not fit. -/
theorem calendar_text_safe_iff (value : String) (start : DateTime) (allDay : Bool)
    (dtend duration : Option String) (dur : String) (windowStart windowEnd : Date) :
    ((RRule.parse value).run ≠ none ↔ ¬ Outcome.Reaches GoodPart CutsPart (partsOf value)) ∧
    ((parseDuration dur).run ≠ none ↔ SumsFit dur) ∧
    ((eventEnd start allDay dtend duration).run ≠ none ↔
      EndFits start allDay dtend duration) ∧
    ∀ rule, RRule.parse value = pure rule →
      (rule.occurrences start.date windowStart windowEnd ≠ none ↔ windowEnd < windowStart ∨
        ∀ m < RRule.MAX_PERIODS, rule.Visited start.date windowEnd m →
          rule.Fits start.date m) := by
  refine ⟨not_congr parse_eq_none_iff, ?_, eventEnd_ne_none_iff start allDay dtend duration, ?_⟩
  · rw [ne_eq, (parseDuration_spec dur).1, not_not]
  · intro rule hrule
    have hwf := parse_wellFormed hrule
    by_cases hwindow : windowEnd < windowStart
    · rw [RRule.occurrences, if_pos hwindow]
      exact iff_of_true (Option.some_ne_none _) (.inl hwindow)
    · rw [or_iff_right hwindow]
      rcases RRule.occurrences_spec start.date hwf (not_lt.mp hwindow) with
        ⟨out, hout, -, hfits⟩ | ⟨hnone, m, hm, hvisited, hbad⟩
      · rw [hout]
        exact iff_of_true (Option.some_ne_none _) hfits
      · exact iff_of_false (not_not_intro hnone) fun h => hbad (h m hm hvisited)

/-- Every day from the last date on: the second period is behind the last date. -/
theorem daily_from_last_date :
    (⟨.daily, 1, .forever, [], [], [], .monday⟩ : RRule).occurrences
      ⟨⟨2147483647, by decide⟩, 12, 31, by decide, by decide⟩
      ⟨⟨2147483647, by decide⟩, 12, 31, by decide, by decide⟩
      ⟨⟨2147483647, by decide⟩, 12, 31, by decide, by decide⟩ ≠ none ↔
    ∀ m < RRule.MAX_PERIODS,
      (⟨.daily, 1, .forever, [], [], [], .monday⟩ : RRule).Visited
        ⟨⟨2147483647, by decide⟩, 12, 31, by decide, by decide⟩
        ⟨⟨2147483647, by decide⟩, 12, 31, by decide, by decide⟩ m →
      (⟨.daily, 1, .forever, [], [], [], .monday⟩ : RRule).Fits
        ⟨⟨2147483647, by decide⟩, 12, 31, by decide, by decide⟩ m := by
  have hsafe := calendar_text_safe_iff "FREQ=DAILY"
    (.atMidnight ⟨⟨2147483647, by decide⟩, 12, 31, by decide, by decide⟩) true none none "P1D"
    ⟨⟨2147483647, by decide⟩, 12, 31, by decide, by decide⟩
    ⟨⟨2147483647, by decide⟩, 12, 31, by decide, by decide⟩
  exact (hsafe.2.2.2 ⟨.daily, 1, .forever, [], [], [], .monday⟩ (by decide)).trans
    (or_iff_right (lt_irrefl _))

/-- A day of the week that is one character of three bytes is cut inside. -/
theorem byday_token_cut : (RRule.parse "FREQ=WEEKLY;BYDAY=日").run = none := by decide

end CaveHome.Calendar
