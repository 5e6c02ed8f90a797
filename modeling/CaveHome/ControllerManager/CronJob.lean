import CaveHome.ControllerManager.Apis
import CaveHome.ControllerManager.Civil
import CaveHome.Lib.Text
import Mathlib.Data.List.Sort
import Mathlib.Order.Bounds.Basic
import Mathlib.Order.Interval.Set.Basic
import Std.Data.String.ToInt

/-!
# Cron schedules

A schedule of five fields, each the set of its allowed values as the bits of a number, and the
search for the next instant at which it fires.  The search gives up after five years;
`nextAfter_isLeast` and `nextAfter_eq_self` say what it finds before and after that.
-/

namespace CaveHome.ControllerManager

inductive CronError
  | fieldCount (n : Nat)
  | field (s : String)
  deriving DecidableEq

structure CronSchedule where
  minute : Nat
  hour : Nat
  dom : Nat
  month : Nat
  dow : Nat
  domRestricted : Bool
  dowRestricted : Bool
  deriving DecidableEq

namespace CronSchedule

/-- Is the bit of the value set? -/
def bit (mask n : Nat) : Bool := mask &&& (1 <<< n) != 0

/-! ## Reading an expression -/

/-- In the field of the week 7 is Sunday as well. -/
def foldDow (v : Nat) (dow : Bool) : Nat := if dow && v == 7 then 0 else v

def parseU32 (s : List Char) : Option Nat :=
  (Text.parseU64 (String.ofList s)).filter (· ≤ 4294967295)

/-- Set the bits from a value on in steps.  The value goes round at 32 bits, and so a step just
below that goes downwards. -/
def stepMask (step last : Nat) : Nat → Nat → Nat → Nat
  | 0, _, mask => mask
  | fuel + 1, v, mask =>
    if v ≤ last then stepMask step last fuel ((v + step) % 4294967296) (mask ||| (1 <<< v))
    else mask

/-- One of the parts between commas. -/
def parsePart (part : List Char) (lo hi : Nat) (dow : Bool) : Option Nat := do
  let (range, step) ←
    match Text.splitOnce ['/'] part with
    | some (r, s) => do
      let step ← parseU32 s
      if step = 0 then none else some (r, step)
    | none => some (part, 1)
  let (first, last) ←
    if range = ['*'] then some (lo, hi)
    else
      match Text.splitOnce ['-'] range with
      | some (a, b) => do
        let a := foldDow (← parseU32 a) dow
        let b := foldDow (← parseU32 b) dow
        if a > b ∨ a < lo ∨ b > hi then none else some (a, b)
      | none => do
        let v := foldDow (← parseU32 range) dow
        if v < lo ∨ v > hi then none else some (v, v)
  some (stepMask step last 64 first 0)

def parseField (field : List Char) (lo hi : Nat) (dow : Bool) : Except CronError Nat := do
  let mask ← (field.splitOn ',').foldlM (fun mask part =>
    match parsePart part lo hi dow with
    | some m => Except.ok (mask ||| m)
    | none => .error (.field (String.ofList field))) 0
  if mask = 0 then .error (.field (String.ofList field)) else .ok mask

/-- The pieces between whitespace. -/
def splitWhitespace (s : String) : List (List Char) :=
  (s.toList.splitOnP Text.isWhitespace).filter (· ≠ [])

def parse (expr : String) : Except CronError CronSchedule :=
  match splitWhitespace expr with
  | [f₀, f₁, f₂, f₃, f₄] => do
    let minute ← parseField f₀ 0 59 false
    let hour ← parseField f₁ 0 23 false
    let dom ← parseField f₂ 1 31 false
    let month ← parseField f₃ 1 12 false
    let dow ← parseField f₄ 0 6 true
    .ok { minute, hour, dom, month, dow, domRestricted := f₂ ≠ ['*'], dowRestricted := f₄ ≠ ['*'] }
  | fields => .error (.fieldCount fields.length)

example : parse "*/15 3 * * 7" =
    .ok ⟨1 + 2 ^ 15 + 2 ^ 30 + 2 ^ 45, 8, 2 ^ 32 - 2, 2 ^ 13 - 2, 1, false, true⟩ := by decide

/-! ## Searching -/

/-- Does the day match?  Where both fields of the day are restricted, one of them is enough. -/
def dayMatches (s : CronSchedule) (dt : Civil) : Bool :=
  let dayOfMonthOk := bit s.dom dt.day
  let weekdayOk := bit s.dow dt.weekday
  match s.domRestricted, s.dowRestricted with
  | true, true => dayOfMonthOk || weekdayOk
  | true, false => dayOfMonthOk
  | false, true => weekdayOk
  | false, false => true

/-- The first match at or after an instant and before the limit. -/
def search (s : CronSchedule) (limit : Int) : Nat → Int → Option Int
  | 0, _ => none
  | fuel + 1, t =>
    if t < limit then
      let dt := Civil.fromEpoch t
      if !bit s.month dt.month then search s limit fuel (startOfNextMonth dt)
      else if !s.dayMatches dt then search s limit fuel (startOfNextDay dt)
      else if bit s.hour dt.hour && bit s.minute dt.minute then some t
      else search s limit fuel (I64.wrap (t + 60))
    else none

/-- The first minute after an instant. -/
def nextMinute (after : Int) : Int := I64.wrap (I64.wrap (after - after % 60) + 60)

/-- Where the search from an instant gives up. -/
def horizon (after : Int) : Int := I64.wrap (nextMinute after + 5 * 366 * 86400)

/-- The first match after an instant, or the instant itself if there is none in five years.  Each
round of the search goes on by a minute at least. -/
def nextAfter (s : CronSchedule) (after : Int) : Int :=
  (search s (horizon after) (5 * 366 * 1440) (nextMinute after)).getD after

/-! ## What the search finds -/

/-- The schedule fires at the instant. -/
structure Fires (s : CronSchedule) (t : Int) : Prop where
  wholeMinute : t % 60 = 0
  month : bit s.month (Civil.fromEpoch t).month
  day : s.dayMatches (Civil.fromEpoch t)
  hour : bit s.hour (Civil.fromEpoch t).hour
  minute : bit s.minute (Civil.fromEpoch t).minute

section Search

variable {s : CronSchedule} {t t' u limit after : Int} {r : Option Int}

/-- What a search from an instant up to a limit has to find. -/
def FirstFire (s : CronSchedule) (t limit : Int) : Option Int → Prop
  | some f => IsLeast {u | t ≤ u ∧ u < limit ∧ s.Fires u} f
  | none => ∀ u, t ≤ u → u < limit → ¬ s.Fires u

theorem FirstFire.skip (h : FirstFire s t' limit r) (hle : t ≤ t')
    (hskip : ∀ u, t ≤ u → u < t' → ¬ s.Fires u) : FirstFire s t limit r := by
  have hlate : ∀ u, t ≤ u → s.Fires u → t' ≤ u := by
    intro u hu hfires
    by_contra hlt
    exact hskip u hu (not_le.mp hlt) hfires
  cases r with
  | none => exact fun u hu hlimit hfires => h u (hlate u hu hfires) hlimit hfires
  | some f =>
    obtain ⟨⟨hf, hlimit, hfires⟩, hleast⟩ := h
    refine ⟨⟨hle.trans hf, hlimit, hfires⟩, fun u hu => hleast ?_⟩
    exact ⟨hlate u hu.1 hu.2.2, hu.2⟩

theorem not_fires_before_nextMonth (h : WellWithin t)
    (hmonth : ¬ bit s.month (Civil.fromEpoch t).month) (hu : t ≤ u)
    (hlt : u < startOfNextMonth (Civil.fromEpoch t)) : ¬ s.Fires u := by
  intro hfires
  have := hfires.month
  rw [month_eq_of_lt h hu hlt] at this
  exact hmonth this

theorem not_fires_before_nextDay (h : WellWithin t) (hday : ¬ s.dayMatches (Civil.fromEpoch t))
    (hu : t ≤ u) (hlt : u < startOfNextDay (Civil.fromEpoch t)) : ¬ s.Fires u := by
  intro hfires
  rw [startOfNextDay_fromEpoch h] at hlt
  have hsame : u / 86400 = t / 86400 := by omega
  apply hday
  have := hfires.day
  simpa only [dayMatches, Civil.fromEpoch, hsame] using this

theorem search_firstFire (hlow : I64.minValue + 86400 ≤ t)
    (hhigh : limit ≤ I64.maxValue - 32 * 86400) (ht : t % 60 = 0) {fuel : Nat}
    (hfuel : limit ≤ t + 60 * fuel) : FirstFire s t limit (search s limit fuel t) := by
  induction fuel generalizing t with
  | zero =>
    intro u hu hlimit
    omega
  | succ fuel ih =>
    rw [search]
    split
    next hlt =>
      have hwell : WellWithin t := ⟨hlow, by omega⟩
      dsimp only
      split
      next hmonth =>
        have hnext := lt_startOfNextMonth hwell
        have hmod := startOfNextMonth_emod hwell
        refine (ih (by omega) (by omega) (by omega)).skip hnext.le fun u hu hlt => ?_
        exact not_fires_before_nextMonth hwell (by simpa using hmonth) hu hlt
      next hmonth =>
        split
        next hday =>
          have hnext := startOfNextDay_fromEpoch hwell
          refine (ih (by omega) (by omega) (by omega)).skip (by omega) fun u hu hlt => ?_
          exact not_fires_before_nextDay hwell (by simpa using hday) hu hlt
        next hday =>
          split
          next htime =>
            rw [Bool.and_eq_true] at htime
            have hfires : s.Fires t :=
              ⟨ht, by simpa using hmonth, by simpa using hday, htime.1, htime.2⟩
            exact ⟨⟨le_rfl, hlt, hfires⟩, fun u hu => hu.1⟩
          next htime =>
            have hmin : I64.minValue = -9223372036854775808 := rfl
            have hmax : I64.maxValue = 9223372036854775807 := rfl
            rw [I64.wrap_eq (by omega) (by omega)]
            refine (ih (by omega) (by omega) (by omega)).skip (by omega) fun u hu hlt hfires => ?_
            -- the only whole minute in between is the first one
            have hmod := hfires.wholeMinute
            obtain rfl : u = t := by omega
            exact htime (by rw [hfires.hour, hfires.minute]; rfl)
    next hlt =>
      intro u hu hlimit
      omega

/-- Is the instant so far from the ends of its range that a search from it stays inside? -/
def Searchable (after : Int) : Prop :=
  I64.minValue + 86400 ≤ after ∧ after ≤ I64.maxValue - 1863 * 86400

theorem nextMinute_eq (h : Searchable after) : nextMinute after = after - after % 60 + 60 := by
  have hmin : I64.minValue = -9223372036854775808 := rfl
  have hmax : I64.maxValue = 9223372036854775807 := rfl
  obtain ⟨hlow, hhigh⟩ := h
  have hwhole : I64.wrap (after - after % 60) = after - after % 60 :=
    I64.wrap_eq (by omega) (by omega)
  rw [nextMinute, hwhole, I64.wrap_eq (by omega) (by omega)]

theorem horizon_eq (h : Searchable after) :
    horizon after = after - after % 60 + 60 + 158112000 := by
  have hmin : I64.minValue = -9223372036854775808 := rfl
  have hmax : I64.maxValue = 9223372036854775807 := rfl
  rw [horizon, nextMinute_eq h]
  obtain ⟨hlow, hhigh⟩ := h
  exact I64.wrap_eq (by omega) (by omega)

theorem nextAfter_firstFire (h : Searchable after) :
    FirstFire s (after - after % 60 + 60) (horizon after)
      (search s (horizon after) (5 * 366 * 1440) (nextMinute after)) := by
  rw [nextMinute_eq h]
  have hhorizon := horizon_eq h
  obtain ⟨hlow, hhigh⟩ := h
  exact search_firstFire (by omega) (by omega) (by omega) (by omega)

theorem Fires.le_of_lt {f : Int} (hf : s.Fires f) (hlt : after < f) : after - after % 60 + 60 ≤ f := by
  have := hf.wholeMinute
  omega

/-- A schedule fires within five years of the instant. -/
def FiresSoon (s : CronSchedule) (after : Int) : Prop :=
  ∃ f, s.Fires f ∧ after < f ∧ f < horizon after

theorem nextAfter_isLeast (h : Searchable after) (hsoon : s.FiresSoon after) :
    IsLeast {f | s.Fires f ∧ after < f} (s.nextAfter after) := by
  obtain ⟨f, hfires, hlt, hf⟩ := hsoon
  have hfirst := nextAfter_firstFire (s := s) h
  rw [nextAfter]
  cases hsearch : search s (horizon after) (5 * 366 * 1440) (nextMinute after) with
  | none =>
    rw [hsearch] at hfirst
    exact absurd hfires (hfirst f (hfires.le_of_lt hlt) hf)
  | some g =>
    rw [hsearch] at hfirst
    obtain ⟨⟨hg, hlimit, hgfires⟩, hleast⟩ := hfirst
    refine ⟨⟨hgfires, by simp only [Option.getD_some]; omega⟩, ?_⟩
    rintro u ⟨hu, hult⟩
    by_cases hulimit : u < horizon after
    · exact hleast ⟨hu.le_of_lt hult, hulimit, hu⟩
    · exact hlimit.le.trans (not_lt.mp hulimit)

theorem nextAfter_eq_self (h : Searchable after) (hnone : ¬ s.FiresSoon after) :
    s.nextAfter after = after := by
  have hfirst := nextAfter_firstFire (s := s) h
  rw [nextAfter]
  cases hsearch : search s (horizon after) (5 * 366 * 1440) (nextMinute after) with
  | none => rfl
  | some g =>
    rw [hsearch] at hfirst
    obtain ⟨⟨hg, hlimit, hgfires⟩, -⟩ := hfirst
    exact absurd ⟨g, hgfires, by omega, hlimit⟩ hnone

end Search

end CronSchedule

end CaveHome.ControllerManager

/-!
## The cron job controller

A reconcile looks for the last instant after the base, the instant of the last run or else of the
creation, at which the schedule fired, and starts one job for it.  The loop that looks for it goes
on until the next fire lies in the future; `exists_mostRecentSchedule_iff` says when it ends.
-/

namespace CaveHome.ControllerManager

def Job.unfinished (j : Job) : Bool := !j.status.complete && !j.status.failedFinal

namespace CronJob

/-- The number as a signed one, or the largest where it does not fit. -/
def i64From (now : Nat) : Int := min (now : Int) I64.maxValue

/-- From one fire to the next until the next one lies in the future. -/
def walk (schedule : CronSchedule) (now : Int) : Nat → Int → Option Int
  | 0, _ => none
  | fuel + 1, t =>
    let next := schedule.nextAfter t
    if now < next then some t else walk schedule now fuel next

/-- The last fire after the base up to now.  Without an answer the loop goes on. -/
def mostRecentSchedule (fuel : Nat) (schedule : CronSchedule) (base now : Int) :
    Option (Option Int) :=
  let t := schedule.nextAfter base
  if now < t then some none else (walk schedule now fuel t).map some

def jobName (cj : CronJob) (scheduled : Int) : String :=
  cj.cronMeta.name ++ "-" ++ toString scheduled

def job (cj : CronJob) (scheduled : Int) : Job where
  jobMeta :=
    { name := cj.jobName scheduled, namespaceName := cj.cronMeta.namespaceName, uid := "",
      ownerReferences :=
        [(OwnerReference.to "CronJob" cj.cronMeta.name cj.cronMeta.uid).controlling.blocking] }
  spec := cj.spec.jobTemplate

def startJob (cj : CronJob) (scheduled : Int) (c : Cluster) : Cluster :=
  { c with jobs := c.jobs.create (cj.job scheduled) }

/-- Record the instant of the last run. -/
def advanceSchedule (cj : CronJob) (scheduled : Int) (c : Cluster) : Cluster :=
  match c.cronjobs.get (key cj) with
  | none => c
  | some current =>
    { c with cronjobs := c.cronjobs.update { current with lastScheduled := some scheduled } }

/-- The order of optional times, where no time comes first. -/
def earlier : Option Int → Option Int → Bool
  | none, some _ => true
  | some a, some b => a < b
  | _, none => false

/-- Did the job finish first?  The name decides between two that finished together. -/
def olderJob (a b : Job) : Bool :=
  earlier a.status.finishedAt b.status.finishedAt ||
    (a.status.finishedAt == b.status.finishedAt && decide (a.jobMeta.name ≤ b.jobMeta.name))

/-- Delete the oldest of the jobs beyond the limit. -/
def pruneOne (jobs : List Job) (limit : Nat) (c : Cluster) : Cluster :=
  if jobs.length ≤ limit then c
  else
    let toDelete := ((jobs.mergeSort olderJob).take (jobs.length - limit)).map key
    { c with jobs := toDelete.foldl Api.delete c.jobs }

/-- Keep as many finished jobs as the history limits allow. -/
def pruneHistory (cj : CronJob) (c : Cluster) : Cluster :=
  let owned := c.jobs.listOwnedBy cj.cronMeta.uid
  pruneOne (owned.filter (·.status.failedFinal)) cj.spec.failedJobsHistoryLimit
    (pruneOne (owned.filter (·.status.complete)) cj.spec.successfulJobsHistoryLimit c)

/-- The jobs of earlier runs that have not finished. -/
def active (cj : CronJob) (c : Cluster) : List Job :=
  (c.jobs.listOwnedBy cj.cronMeta.uid).filter Job.unfinished

/-- Delete the jobs of earlier runs where the new one takes their place. -/
def replaceActive (cj : CronJob) (c : Cluster) : Cluster :=
  if cj.spec.concurrency = .replace then
    { c with jobs := ((cj.active c).map key).foldl Api.delete c.jobs }
  else c

def base (cj : CronJob) : Int := cj.lastScheduled.getD cj.createdAt

/-- What a call does once it knows the last fire up to now. -/
def runDue (cj : CronJob) (now : Int) (c : Cluster) : Option Int → Cluster
  | none => cj.pruneHistory c
  | some scheduled =>
    if cj.spec.startingDeadline.any fun deadline => deadline < I64.wrap (now - scheduled) then
      cj.pruneHistory (cj.advanceSchedule scheduled c)
    else if cj.spec.concurrency = .forbid ∧ cj.active c ≠ [] then cj.pruneHistory c
    else
      let c := cj.startJob scheduled (cj.replaceActive c)
      cj.pruneHistory (cj.advanceSchedule scheduled c)

/-- Without an answer the call does not return. -/
def reconcile (fuel : Nat) (k : String) (c : Cluster) (now : Nat) : Option Cluster :=
  match c.cronjobs.get k with
  | none => some c
  | some cj =>
    if cj.cronMeta.isTerminating || cj.spec.suspend then some (cj.pruneHistory c)
    else
      match CronSchedule.parse cj.spec.schedule with
      | .error _ => some c
      | .ok schedule =>
        (mostRecentSchedule fuel schedule cj.base (i64From now)).map
          (cj.runDue (i64From now) c)

/-! ## The last fire up to now -/

section Walk

variable {s : CronSchedule} {base now t u i : Int} {fuel : Nat}

/-- The instants of a call are so far from the ends of their range that no search leaves it. -/
structure TimesFit (base now : Int) : Prop where
  base : CronSchedule.Searchable base
  now_le : now ≤ I64.maxValue - 1863 * 86400

theorem TimesFit.searchable (h : TimesFit base now) (hbase : base ≤ t) (ht : t ≤ now) :
    CronSchedule.Searchable t := ⟨h.base.1.trans hbase, ht.trans h.now_le⟩

/-- After the base and after every fire up to now there is a fire within five years. -/
def Covered (s : CronSchedule) (base now : Int) : Prop :=
  ∀ t, base ≤ t → t ≤ now → t = base ∨ s.Fires t → s.FiresSoon t

/-- The last fire after the base up to now, if there is one. -/
def LastFire (s : CronSchedule) (base now : Int) : Option Int → Prop
  | none => ∀ f, s.Fires f → base < f → now < f
  | some i => IsGreatest {f | s.Fires f ∧ base < f ∧ f ≤ now} i

theorem walk_eq_none (hfit : TimesFit base now) (ht : base ≤ t) (htu : t ≤ u) (hu : u ≤ now)
    (hfire : u = t ∨ s.Fires u) (hstuck : ¬ s.FiresSoon u) (fuel : Nat) :
    walk s now fuel t = none := by
  induction fuel generalizing t with
  | zero => rfl
  | succ fuel ih =>
    have hsearch := hfit.searchable ht (htu.trans hu)
    rw [walk]
    by_cases hsoon : s.FiresSoon t
    · have hleast := s.nextAfter_isLeast hsearch hsoon
      have hne : u ≠ t := fun h => hstuck (h ▸ hsoon)
      have hfires : s.Fires u := hfire.resolve_left hne
      have hnext : s.nextAfter t ≤ u := hleast.2 ⟨hfires, lt_of_le_of_ne htu hne.symm⟩
      have hlt := hleast.1.2
      rw [if_neg (by omega)]
      exact ih (by omega) hnext (.inr hfires)
    · rw [s.nextAfter_eq_self hsearch hsoon, if_neg (by omega)]
      exact ih ht htu hfire

theorem walk_isGreatest (hfit : TimesFit base now) (hbase : base ≤ t) (ht : t ≤ now)
    (h : walk s now fuel t = some i) :
    IsGreatest {f | (f = t ∨ s.Fires f) ∧ t ≤ f ∧ f ≤ now} i := by
  induction fuel generalizing t with
  | zero => cases h
  | succ fuel ih =>
    have hsearch := hfit.searchable hbase ht
    by_cases hsoon : s.FiresSoon t
    · have hleast := s.nextAfter_isLeast hsearch hsoon
      have hlt := hleast.1.2
      rw [walk] at h
      split at h
      next hnow =>
        obtain rfl := Option.some.inj h
        refine ⟨⟨.inl rfl, le_rfl, ht⟩, ?_⟩
        rintro f ⟨rfl | hf, hle, hfnow⟩
        · exact le_rfl
        · by_contra hgt
          have := hleast.2 ⟨hf, not_le.mp hgt⟩
          omega
      next hnow =>
        obtain ⟨⟨hi, hnext, hinow⟩, hmax⟩ := ih (by omega) (by omega) h
        have hfires : s.Fires i := by
          rcases hi with rfl | hi
          · exact hleast.1.1
          · exact hi
        refine ⟨⟨.inr hfires, by omega, hinow⟩, ?_⟩
        rintro f ⟨hf, hle, hfnow⟩
        rcases eq_or_lt_of_le hle with rfl | hgt
        · omega
        · have hf : s.Fires f := hf.resolve_left hgt.ne'
          exact hmax ⟨.inr hf, hleast.2 ⟨hf, hgt⟩, hfnow⟩
    · rw [walk_eq_none hfit hbase le_rfl ht (.inl rfl) hsoon] at h
      cases h

theorem exists_walk (hfit : TimesFit base now) (hbase : base ≤ t) (ht : t ≤ now)
    (hcovered : ∀ u, t ≤ u → u ≤ now → u = t ∨ s.Fires u → s.FiresSoon u) :
    ∃ fuel i, walk s now fuel t = some i := by
  -- the distance to now gets smaller with every fire
  induction hn : (now - t).toNat using Nat.strongRecOn generalizing t with
  | ind n ih =>
    have hleast := s.nextAfter_isLeast (hfit.searchable hbase ht) (hcovered t le_rfl ht (.inl rfl))
    have hlt := hleast.1.2
    by_cases hnow : now < s.nextAfter t
    · exact ⟨1, t, by rw [walk]; exact if_pos hnow⟩
    · obtain ⟨fuel, i, hi⟩ := ih _ (by omega) (t := s.nextAfter t) (by omega) (by omega)
        (fun u hle hu hfire => hcovered u (by omega) hu (.inr (hfire.elim (· ▸ hleast.1.1) id))) rfl
      exact ⟨fuel + 1, i, by rw [walk]; exact (if_neg hnow).trans hi⟩

theorem mostRecentSchedule_lastFire {r : Option Int} (hfit : TimesFit base now)
    (h : mostRecentSchedule fuel s base now = some r) : LastFire s base now r := by
  rw [mostRecentSchedule] at h
  by_cases hsoon : s.FiresSoon base
  · have hleast := s.nextAfter_isLeast hfit.base hsoon
    have hlt := hleast.1.2
    split at h
    next hnow =>
      obtain rfl := Option.some.inj h
      exact fun f hf hbase => hnow.trans_le (hleast.2 ⟨hf, hbase⟩)
    next hnow =>
      obtain ⟨i, hi, rfl⟩ := Option.map_eq_some_iff.mp h
      obtain ⟨⟨hfire, hle, hinow⟩, hmax⟩ :=
        walk_isGreatest hfit (by omega) (not_lt.mp hnow) hi
      refine ⟨⟨?_, by omega, hinow⟩, ?_⟩
      · rcases hfire with rfl | hfire
        · exact hleast.1.1
        · exact hfire
      · rintro f ⟨hf, hbase, hfnow⟩
        exact hmax ⟨.inr hf, hleast.2 ⟨hf, hbase⟩, hfnow⟩
  · rw [s.nextAfter_eq_self hfit.base hsoon] at h
    split at h
    next hnow =>
      obtain rfl := Option.some.inj h
      exact fun f hf hbase => hnow.trans hbase
    next hnow =>
      rw [walk_eq_none hfit le_rfl le_rfl (not_lt.mp hnow) (.inl rfl) hsoon] at h
      cases h

theorem exists_mostRecentSchedule_iff (hfit : TimesFit base now) :
    (∃ fuel, (mostRecentSchedule fuel s base now).isSome) ↔ Covered s base now := by
  constructor
  · rintro ⟨fuel, h⟩ t hbase ht hfire
    by_contra hstuck
    rw [mostRecentSchedule] at h
    by_cases hsoon : s.FiresSoon base
    · have hleast := s.nextAfter_isLeast hfit.base hsoon
      have hlt := hleast.1.2
      have hne : t ≠ base := fun he => hstuck (he ▸ hsoon)
      have hfires : s.Fires t := hfire.resolve_left hne
      have hnext : s.nextAfter base ≤ t := hleast.2 ⟨hfires, lt_of_le_of_ne hbase hne.symm⟩
      rw [if_neg (by omega), walk_eq_none hfit hlt.le hnext ht (.inr hfires) hstuck] at h
      cases h
    · rw [s.nextAfter_eq_self hfit.base hsoon, if_neg (by omega),
        walk_eq_none hfit le_rfl hbase ht hfire hstuck] at h
      cases h
  · intro hcovered
    by_cases hnow : now < s.nextAfter base
    · exact ⟨0, by rw [mostRecentSchedule]; simp [hnow]⟩
    · have hle : base ≤ s.nextAfter base ∧ (s.nextAfter base = base ∨ s.Fires (s.nextAfter base)) := by
        by_cases hsoon : s.FiresSoon base
        · have hleast := s.nextAfter_isLeast hfit.base hsoon
          exact ⟨hleast.1.2.le, .inr hleast.1.1⟩
        · rw [s.nextAfter_eq_self hfit.base hsoon]
          exact ⟨le_rfl, .inl rfl⟩
      obtain ⟨fuel, i, hi⟩ := exists_walk hfit hle.1 (not_lt.mp hnow) fun u hu hunow hfire => by
        refine hcovered u (hle.1.trans hu) hunow ?_
        rcases hfire with rfl | hfire
        · exact hle.2
        · exact .inr hfire
      exact ⟨fuel, by rw [mostRecentSchedule]; simp [hnow, hi]⟩

end Walk

end CronJob

end CaveHome.ControllerManager
