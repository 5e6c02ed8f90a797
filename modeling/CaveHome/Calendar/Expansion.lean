import CaveHome.Calendar.Candidates
import CaveHome.Calendar.RuleText
import CaveHome.Lib.Ranks

/-!
# The dates of a rule

The dates of a rule are those that it selects in its periods from the first date on, up to its last
one or as many as it allows.  The loop emits them in order.  It ends early when all that is left
lies behind the window or behind the last date of the rule.
-/

namespace CaveHome.Calendar

open Ranks

namespace RRule

/-! ## Members of the series -/

/-- The date is one that the rule selects in its first `n` periods, not before the first date and
not after the last one. -/
def SeriesBefore (rule : RRule) (start : Date) (n : Nat) : Set Date :=
  {d | start ≤ d ∧ (∃ m < n, rule.InPeriod start m d) ∧ rule.Selects start d ∧
    rule.pastUntil d = false}

/-- The dates that a rule selects, wherever it looks. -/
def Series (rule : RRule) (start : Date) : Set Date := rule.SeriesBefore start MAX_PERIODS

/-- The dates of a rule: when it allows a number of them, these are the first. -/
def Member (rule : RRule) (start d : Date) : Prop :=
  d ∈ rule.Series start ∧
    ∀ c, rule.limit = .count c → (before (rule.Series start) d).ncard < c

/-- After how many dates the expansion returns; it never returns before the first. -/
def quota (rule : RRule) : Option Nat :=
  match rule.limit with
  | .count c => some (max c 1)
  | _ => none

variable {rule : RRule} {start windowStart windowEnd : Date}

theorem countReached_succ_iff (e : Nat) :
    rule.countReached (e + 1) = true ↔ ∃ q, rule.quota = some q ∧ q ≤ e + 1 := by
  unfold countReached quota
  cases rule.limit with
  | count c =>
    simp only [decide_eq_true_eq, Option.some.injEq, exists_eq_left']
    omega
  | forever => simp
  | «until» u => simp

/-! ## The dates of one period -/

/-- The dates of a period that are emitted. -/
def kept (rule : RRule) (start : Date) (dates : List Date) : List Date :=
  dates.filter fun d => start ≤ d && !rule.pastUntil d

/-- A date of the period is after the last one of the rule. -/
def late (rule : RRule) (start : Date) (dates : List Date) : Bool :=
  dates.any fun d => start ≤ d && rule.pastUntil d

/-- The dates of the window. -/
def windowed (windowStart windowEnd : Date) (dates : List Date) : List Date :=
  dates.filter fun d => windowStart ≤ d ∧ d ≤ windowEnd

theorem emit_spec (windowStart windowEnd : Date) (dates emitted : List Date) (a : Bool)
    (hquota : ∀ q, rule.quota = some q → emitted.length < q) :
    (rule.emit start windowStart windowEnd dates
        ⟨windowed windowStart windowEnd emitted, emitted.length, a⟩ =
      (⟨windowed windowStart windowEnd (emitted ++ rule.kept start dates),
        (emitted ++ rule.kept start dates).length, a || rule.late start dates⟩, false) ∧
      ∀ q, rule.quota = some q → (emitted ++ rule.kept start dates).length < q) ∨
    ∃ p q, rule.quota = some q ∧ q ≤ (emitted ++ rule.kept start dates).length ∧
      rule.emit start windowStart windowEnd dates
        ⟨windowed windowStart windowEnd emitted, emitted.length, a⟩ = (p, true) ∧
      p.out = windowed windowStart windowEnd ((emitted ++ rule.kept start dates).take q) := by
  induction dates generalizing emitted a with
  | nil =>
    refine .inl ⟨?_, fun q hq => ?_⟩
    · simp [emit, kept, late]
    · simpa [kept] using hquota q hq
  | cons date dates ih =>
    unfold emit
    by_cases hstart : date < start
    · -- the date is before the first one
      have hkept : rule.kept start (date :: dates) = rule.kept start dates := by
        simp [kept, not_le.mpr hstart]
      have hlate : rule.late start (date :: dates) = rule.late start dates := by
        simp [late, not_le.mpr hstart]
      rw [if_pos hstart, hkept, hlate]
      exact ih emitted a hquota
    · rw [if_neg hstart]
      by_cases hpast : rule.pastUntil date = true
      · have hkept : rule.kept start (date :: dates) = rule.kept start dates := by
          simp [kept, hpast]
        have hlate : rule.late start (date :: dates) = true := by
          simp [late, hpast, not_lt.mp hstart]
        rw [if_pos hpast, hkept, hlate, Bool.or_true]
        have hrest := ih emitted true hquota
        rwa [Bool.true_or] at hrest
      · have hkept : rule.kept start (date :: dates) = date :: rule.kept start dates := by
          simp [kept, hpast, not_lt.mp hstart]
        have hlate : rule.late start (date :: dates) = rule.late start dates := by
          simp [late, hpast]
        have hout : (if windowStart ≤ date ∧ date ≤ windowEnd then
            windowed windowStart windowEnd emitted ++ [date]
            else windowed windowStart windowEnd emitted) =
            windowed windowStart windowEnd (emitted ++ [date]) := by
          unfold windowed
          rw [List.filter_append]
          split
          next h => rw [List.filter_singleton, decide_eq_true h, cond_true]
          next h => rw [List.filter_singleton, decide_eq_false h, cond_false, List.append_nil]
        have happend : emitted ++ rule.kept start (date :: dates) =
            (emitted ++ [date]) ++ rule.kept start dates := by
          rw [hkept, List.append_assoc]
          rfl
        rw [if_neg hpast]
        dsimp only
        rw [hout, happend, hlate]
        have hlength : emitted.length + 1 = (emitted ++ [date]).length := by simp
        by_cases hcount : rule.countReached (emitted.length + 1) = true
        · obtain ⟨q, hq, hle⟩ := (countReached_succ_iff _).mp hcount
          have hlt := hquota q hq
          rw [if_pos hcount]
          refine .inr ⟨_, q, hq, by rw [List.length_append]; omega, rfl, ?_⟩
          rw [List.take_append_of_le_length (by omega), List.take_of_length_le (by omega)]
        · rw [if_neg hcount, hlength]
          refine ih (emitted ++ [date]) a fun q hq => ?_
          by_contra hle
          exact hcount ((countReached_succ_iff _).mpr ⟨q, hq, by omega⟩)

/-! ## The loop over the periods -/

/-- These are the dates of the first `n` periods, in order. -/
structure Emitted (rule : RRule) (start : Date) (n : Nat) (l : List Date) : Prop where
  sorted : l.Pairwise (· < ·)
  mem : ∀ d, d ∈ l ↔ d ∈ rule.SeriesBefore start n

theorem emitted_zero : rule.Emitted start 0 [] := by
  refine ⟨List.Pairwise.nil, fun d => iff_of_false List.not_mem_nil ?_⟩
  rintro ⟨-, ⟨m, hm, -⟩, -⟩
  exact absurd hm (Nat.not_lt_zero m)

theorem Emitted.length_eq {n : Nat} {l : List Date} (h : rule.Emitted start n l) :
    l.length = (rule.SeriesBefore start n).ncard := by
  have hset : rule.SeriesBefore start n = {d | d ∈ l} := Set.ext fun d => (h.mem d).symm
  rw [hset, ncard_list (h.sorted.imp fun hlt => hlt.ne)]

theorem mem_kept {d : Date} {dates : List Date} :
    d ∈ rule.kept start dates ↔ d ∈ dates ∧ start ≤ d ∧ rule.pastUntil d = false := by
  simp [kept]

theorem Emitted.append (hwf : rule.WellFormed) {n : Nat} {l dates : List Date} {base : Date}
    (h : rule.Emitted start n l) (hdates : rule.PeriodDates start n base dates) :
    rule.Emitted start (n + 1) (l ++ rule.kept start dates) := by
  constructor
  · refine List.pairwise_append.mpr ⟨h.sorted, hdates.sorted.sublist List.filter_sublist, ?_⟩
    intro d hd d' hd'
    obtain ⟨-, ⟨m, hm, hin⟩, -⟩ := (h.mem d).mp hd
    have hin' := ((hdates.mem d').mp (mem_kept.mp hd').1).1
    exact hwf.lt_of_inPeriod hm hin hin'
  · intro d
    rw [List.mem_append, h.mem, mem_kept, hdates.mem]
    constructor
    · rintro (⟨hstart, ⟨m, hm, hin⟩, hrest⟩ | ⟨⟨hin, hselects⟩, hstart, hpast⟩)
      · exact ⟨hstart, ⟨m, by omega, hin⟩, hrest⟩
      · exact ⟨hstart, ⟨n, Nat.lt_succ_self n, hin⟩, hselects, hpast⟩
    · rintro ⟨hstart, ⟨m, hm, hin⟩, hselects, hpast⟩
      rcases Nat.lt_succ_iff_lt_or_eq.mp hm with hlt | rfl
      · exact .inl ⟨hstart, ⟨m, hlt, hin⟩, hselects, hpast⟩
      · exact .inr ⟨⟨hin, hselects⟩, hstart, hpast⟩

theorem Emitted.initial (hwf : rule.WellFormed) {n : Nat} {l : List Date}
    (h : rule.Emitted start n l) (hn : n ≤ MAX_PERIODS) : Initial (rule.Series start) l := by
  refine ⟨h.sorted, fun d hd => ?_, fun d hd hnot d' hd' => ?_⟩
  · obtain ⟨hstart, ⟨m, hm, hin⟩, hrest⟩ := (h.mem d).mp hd
    exact ⟨hstart, ⟨m, by omega, hin⟩, hrest⟩
  · obtain ⟨hstart, ⟨m, hm, hin⟩, hrest⟩ := hd
    obtain ⟨-, ⟨m', hm', hin'⟩, -⟩ := (h.mem d').mp hd'
    have hle : n ≤ m := by
      by_contra hlt
      exact hnot ((h.mem d).mpr ⟨hstart, ⟨m, by omega, hin⟩, hrest⟩)
    exact hwf.lt_of_inPeriod (by omega) hin' hin

/-- What the expansion ends with: in order, the members of the series in the window. -/
def Exact (rule : RRule) (start windowStart windowEnd : Date) (l : List Date) : Prop :=
  l.Pairwise (· < ·) ∧
    ∀ d, d ∈ l ↔ (windowStart ≤ d ∧ d ≤ windowEnd) ∧ rule.Member start d

theorem exact_finish {l : List Date}
    (h : ∀ d, windowStart ≤ d → d ≤ windowEnd → (d ∈ l ↔ rule.Member start d)) :
    rule.Exact start windowStart windowEnd
      (dedup (sortUnstable (windowed windowStart windowEnd l))) := by
  refine ⟨pairwise_dedup_sortUnstable _, fun d => ?_⟩
  rw [mem_dedup_sortUnstable, windowed, List.mem_filter, decide_eq_true_eq, and_comm]
  exact and_congr_right fun hwindow => h d hwindow.1 hwindow.2

theorem quota_of_count {c : Nat} (h : rule.limit = .count c) (hc : c ≠ 0) :
    rule.quota = some c := by
  unfold quota
  rw [h]
  exact congrArg some (by omega)

theorem Emitted.exact_take (hwf : rule.WellFormed) (hzero : rule.limit ≠ .count 0) {n : Nat}
    {l : List Date} (h : rule.Emitted start n l) (hn : n ≤ MAX_PERIODS) {q : Nat}
    (hq : rule.quota = some q) (hle : q ≤ l.length) :
    rule.Exact start windowStart windowEnd
      (dedup (sortUnstable (windowed windowStart windowEnd (l.take q)))) := by
  refine exact_finish fun d _ _ => ?_
  rw [(h.initial hwf hn).mem_take_iff hle]
  refine and_congr_right fun _ => ⟨fun hlt c hc => ?_, fun hall => ?_⟩
  · rw [quota_of_count hc (fun h0 => hzero (h0 ▸ hc))] at hq
    rwa [Option.some.inj hq]
  · unfold quota at hq
    cases hlimit : rule.limit with
    | count c =>
      rw [hlimit] at hq
      have hc : c ≠ 0 := fun h0 => hzero (h0 ▸ hlimit)
      have heq := Option.some.inj hq
      have hlt := hall c hlimit
      omega
    | forever => rw [hlimit] at hq; cases hq
    | «until» u => rw [hlimit] at hq; cases hq

theorem Emitted.exact (hwf : rule.WellFormed) {n : Nat} {l : List Date}
    (h : rule.Emitted start n l) (hn : n ≤ MAX_PERIODS)
    (hquota : ∀ q, rule.quota = some q → l.length < q)
    (hrest : ∀ d ∈ rule.Series start, d ≤ windowEnd → d ∈ rule.SeriesBefore start n) :
    rule.Exact start windowStart windowEnd
      (dedup (sortUnstable (windowed windowStart windowEnd l))) := by
  have hinitial := h.initial hwf hn
  refine exact_finish fun d _ hle => ?_
  constructor
  · intro hd
    refine ⟨hinitial.mem d hd, fun c hc => ?_⟩
    have hlt := hinitial.ncard_before_lt hd
    by_cases hzero : c = 0
    · -- not even one date may have been emitted then
      have hone := hquota 1 (by unfold quota; rw [hc, hzero]; rfl)
      omega
    · exact hlt.trans (hquota c (quota_of_count hc hzero))
  · exact fun hmember => (h.mem d).mpr (hrest d hmember.1 hle)

/-! ## When the loop ends -/

/-- Nothing that a later period has can be in the window, or on this side of the last date. -/
def Beyond (rule : RRule) (start windowEnd : Date) (n : Nat) (base : Date) : Prop :=
  match rule.limit with
  | .until u => u < base ∧ ((∀ d, ¬ (rule.InPeriod start n d ∧ rule.Selects start d)) ∨
      ∃ d, (rule.InPeriod start n d ∧ rule.Selects start d) ∧ start ≤ d ∧ u < d)
  | _ => windowEnd < base

/-- The period is the last one that the loop looks at. -/
def Ends (rule : RRule) (start windowEnd : Date) (n : Nat) : Prop :=
  (∃ q, rule.quota = some q ∧ q ≤ (rule.SeriesBefore start (n + 1)).ncard) ∨
    ∃ base, rule.periodBase start n = some base ∧ rule.Beyond start windowEnd n base

theorem ended_iff {n : Nat} {base : Date} {dates : List Date}
    (h : rule.PeriodDates start n base dates) :
    rule.ended windowEnd base (dates.isEmpty || rule.late start dates) = true ↔
      rule.Beyond start windowEnd n base := by
  unfold ended Beyond
  cases hlimit : rule.limit with
  | forever => exact decide_eq_true_iff
  | count c => exact decide_eq_true_iff
  | «until» u =>
    have hpast : ∀ d, rule.pastUntil d = decide (u < d) := fun d => by
      unfold pastUntil
      rw [hlimit]
    have hempty : dates.isEmpty = true ↔
        ∀ d, ¬ (rule.InPeriod start n d ∧ rule.Selects start d) := by
      simp only [List.isEmpty_iff, List.eq_nil_iff_forall_not_mem, h.mem]
    have hlate : rule.late start dates = true ↔
        ∃ d, (rule.InPeriod start n d ∧ rule.Selects start d) ∧ start ≤ d ∧ u < d := by
      simp only [late, List.any_eq_true, Bool.and_eq_true, decide_eq_true_eq, hpast, h.mem]
    dsimp only
    rw [Bool.and_eq_true, decide_eq_true_eq, Bool.or_eq_true, hempty, hlate]

theorem Beyond.rest (hwf : rule.WellFormed) {n : Nat} {base : Date}
    (hin : rule.InPeriod start n base) (h : rule.Beyond start windowEnd n base) {d : Date}
    (hd : d ∈ rule.Series start) (hle : d ≤ windowEnd) : d ∈ rule.SeriesBefore start (n + 1) := by
  obtain ⟨hstart, ⟨m, hm, hperiod⟩, hselects, hpast⟩ := hd
  refine ⟨hstart, ⟨m, ?_, hperiod⟩, hselects, hpast⟩
  by_contra hlt
  have hbase : base < d := hwf.lt_of_inPeriod (by omega) hin hperiod
  unfold Beyond at h
  unfold pastUntil at hpast
  cases hlimit : rule.limit with
  | forever =>
    rw [hlimit] at h
    exact absurd (h.trans hbase) hle.not_gt
  | count c =>
    rw [hlimit] at h
    exact absurd (h.trans hbase) hle.not_gt
  | «until» u =>
    rw [hlimit] at h hpast
    exact absurd (h.1.trans hbase) (of_decide_eq_false hpast)

/-! ## Runs of the loop -/

/-- What is known before period `n`: the dates of the periods so far, fewer than the rule allows. -/
structure Running (rule : RRule) (start : Date) (n : Nat) (l : List Date) : Prop where
  emitted : rule.Emitted start n l
  quota : ∀ q, rule.quota = some q → l.length < q

/-- The loop from period `n` on, after these dates. -/
def expandFrom (rule : RRule) (start windowStart windowEnd : Date) (k n : Nat) (l : List Date) :
    Option (List Date) :=
  rule.expand start windowStart windowEnd k n (windowed windowStart windowEnd l) l.length

theorem expandFrom_succ (windowStart windowEnd : Date) (hwf : rule.WellFormed) {k n : Nat}
    (hn : n < MAX_PERIODS) {l : List Date} (h : rule.Running start n l) :
    (¬ rule.Fits start n ∧
      rule.expandFrom start windowStart windowEnd (k + 1) n l = none) ∨
    (rule.Fits start n ∧ rule.Ends start windowEnd n ∧
      ∃ out, rule.expandFrom start windowStart windowEnd (k + 1) n l = some out ∧
        (rule.limit ≠ .count 0 → rule.Exact start windowStart windowEnd out)) ∨
    (rule.Fits start n ∧ ¬ rule.Ends start windowEnd n ∧
      ∃ l', rule.Running start (n + 1) l' ∧
        rule.expandFrom start windowStart windowEnd (k + 1) n l =
          rule.expandFrom start windowStart windowEnd k (n + 1) l') := by
  by_cases hfits : rule.Fits start n
  · obtain ⟨base, dates, hdates⟩ := exists_periodDates hwf hn.le hfits
    have hemitted := h.emitted.append hwf hdates
    have hlength := hemitted.length_eq
    have hround : rule.expandFrom start windowStart windowEnd (k + 1) n l =
        let r := rule.emit start windowStart windowEnd dates
          ⟨windowed windowStart windowEnd l, l.length, dates.isEmpty⟩
        if r.2 = true then some (dedup (sortUnstable r.1.out))
        else if rule.ended windowEnd base r.1.allPastUntil = true then
          some (dedup (sortUnstable r.1.out))
        else rule.expand start windowStart windowEnd k (n + 1) r.1.out r.1.emitted := by
      rw [expandFrom, expand, hdates.candidates, hdates.base_eq]
      rfl
    rw [hround]
    rcases emit_spec windowStart windowEnd dates l dates.isEmpty h.quota with
      ⟨hemit, hquota⟩ | ⟨p, q, hq, hle, hemit, hout⟩
    · rw [hemit]
      dsimp only
      rw [if_neg Bool.false_ne_true]
      by_cases hbeyond : rule.Beyond start windowEnd n base
      · rw [if_pos ((ended_iff hdates).mpr hbeyond)]
        refine .inr (.inl ⟨hfits, .inr ⟨base, hdates.base_eq, hbeyond⟩, _, rfl, fun _ => ?_⟩)
        exact hemitted.exact hwf hn hquota fun d hd hle => hbeyond.rest hwf hdates.base_mem hd hle
      · rw [if_neg (mt (ended_iff hdates).mp hbeyond)]
        refine .inr (.inr ⟨hfits, ?_, _, ⟨hemitted, hquota⟩, rfl⟩)
        rintro (⟨q, hq, hle⟩ | ⟨base', hbase', hbeyond'⟩)
        · have hlt := hquota q hq
          omega
        · rw [hdates.base_eq] at hbase'
          exact hbeyond (Option.some.inj hbase' ▸ hbeyond')
    · rw [hemit]
      dsimp only
      rw [if_pos rfl, hout]
      refine .inr (.inl ⟨hfits, .inl ⟨q, hq, by omega⟩, _, rfl, fun hzero => ?_⟩)
      exact hemitted.exact_take hwf hzero hn hq hle
  · refine .inl ⟨hfits, ?_⟩
    rw [expandFrom, expand, candidates_eq_none hwf hn.le hfits]
    rfl

/-- The loop comes to this period. -/
def Visited (rule : RRule) (start windowEnd : Date) (n : Nat) : Prop :=
  ∀ m < n, ¬ rule.Ends start windowEnd m

theorem visited_succ {n : Nat} (h : rule.Visited start windowEnd n)
    (hends : ¬ rule.Ends start windowEnd n) : rule.Visited start windowEnd (n + 1) := by
  intro m hm
  rcases Nat.lt_succ_iff_lt_or_eq.mp hm with hlt | rfl
  · exact h m hlt
  · exact hends

theorem expandFrom_spec (hwf : rule.WellFormed) {k n : Nat} (hk : n + k = MAX_PERIODS)
    {l : List Date} (h : rule.Running start n l) (hvisited : rule.Visited start windowEnd n)
    (hfits : ∀ m < n, rule.Fits start m) :
    (∃ out, rule.expandFrom start windowStart windowEnd k n l = some out ∧
      (rule.limit ≠ .count 0 → rule.Exact start windowStart windowEnd out) ∧
      ∀ m < MAX_PERIODS, rule.Visited start windowEnd m → rule.Fits start m) ∨
    (rule.expandFrom start windowStart windowEnd k n l = none ∧
      ∃ m < MAX_PERIODS, rule.Visited start windowEnd m ∧ ¬ rule.Fits start m) := by
  induction k generalizing n l with
  | zero =>
    obtain rfl : n = MAX_PERIODS := hk
    exact .inl ⟨_, rfl, fun _ => h.emitted.exact hwf le_rfl h.quota fun d hd _ => hd,
      fun m hm _ => hfits m hm⟩
  | succ k ih =>
    rcases expandFrom_succ windowStart windowEnd (k := k) hwf (by omega) h with
      ⟨hbad, heq⟩ | ⟨hgood, hends, out, heq, hexact⟩ | ⟨hgood, hends, l', hrunning, heq⟩
    · exact .inr ⟨heq, n, by omega, hvisited, hbad⟩
    · refine .inl ⟨out, heq, hexact, fun m _ hm => ?_⟩
      rcases Nat.lt_trichotomy m n with hlt | rfl | hgt
      · exact hfits m hlt
      · exact hgood
      · exact absurd hends (hm n hgt)
    · rw [heq]
      refine ih (by omega) hrunning (visited_succ hvisited hends) fun m hm => ?_
      rcases Nat.lt_succ_iff_lt_or_eq.mp hm with hlt | rfl
      · exact hfits m hlt
      · exact hgood

variable (start) in
theorem occurrences_spec (hwf : rule.WellFormed) (hwindow : windowStart ≤ windowEnd) :
    (∃ out, rule.occurrences start windowStart windowEnd = some out ∧
      (rule.limit ≠ .count 0 → rule.Exact start windowStart windowEnd out) ∧
      ∀ m < MAX_PERIODS, rule.Visited start windowEnd m → rule.Fits start m) ∨
    (rule.occurrences start windowStart windowEnd = none ∧
      ∃ m < MAX_PERIODS, rule.Visited start windowEnd m ∧ ¬ rule.Fits start m) := by
  have heq : rule.occurrences start windowStart windowEnd =
      rule.expandFrom start windowStart windowEnd MAX_PERIODS 0 [] := by
    rw [occurrences, if_neg hwindow.not_gt]
    rfl
  rw [heq]
  refine expandFrom_spec hwf (Nat.zero_add _) ⟨emitted_zero, fun q hq => ?_⟩
    (fun m hm => absurd hm (Nat.not_lt_zero m)) fun m hm => absurd hm (Nat.not_lt_zero m)
  unfold quota at hq
  cases hlimit : rule.limit with
  | count c =>
    rw [hlimit] at hq
    have hone := Option.some.inj hq
    simp only [List.length_nil]
    omega
  | forever => rw [hlimit] at hq; cases hq
  | «until» u => rw [hlimit] at hq; cases hq

end RRule

end CaveHome.Calendar

/-!
## What a rule expands to

Within the years of four digits, which is what the text of a calendar can say, the expansion does
not leave the range of its numbers.
-/

namespace CaveHome.Calendar

namespace RRule

variable {rule : RRule} {start windowStart windowEnd : Date}

/-! ## Years of four digits -/

/-- The last date whose year has four digits. -/
def lastWritten : Date := ⟨⟨9999, by decide⟩, 12, 31, by decide, by decide⟩

theorem le_lastWritten {d : Date} (h : d.year.1 ≤ 9999) : d ≤ lastWritten := by
  have hmonth := d.month_mem
  have hday := d.day_mem
  have hdim := Gregorian.daysInMonth_mem d.year.1 d.month
  rw [← daysInMonth_eq _ hmonth.1 hmonth.2] at hdim
  have hindex : lastWritten.monthIndex = 119999 := by decide
  have hlast : lastWritten.day = 31 := rfl
  rw [← not_lt, Date.lt_iff, Date.daysFromEpoch_lt_iff, hindex, hlast, Date.monthIndex]
  omega

theorem le_daysFromEpoch {d : Date} (h : 0 ≤ d.year.1) : -719528 ≤ d.daysFromEpoch := by
  have hmonth := d.month_mem
  have hday := d.day_mem
  have hindex : 0 ≤ d.monthIndex := by
    unfold Date.monthIndex
    omega
  have hmono := Gregorian.monthFirst_strictMono.monotone hindex
  have hfirst : Gregorian.monthFirst 0 = -719528 := by decide
  rw [d.daysFromEpoch_eq]
  omega

theorem ends_of_lt (hwf : rule.WellFormed) {bound : Date} (hwindow : windowEnd ≤ bound)
    (hlimit : ∀ u, rule.limit = .until u → u ≤ bound) {n : Nat} (hn : n + 1 ≤ MAX_PERIODS)
    (hfits : rule.Fits start (n + 1))
    (hlt : rule.periodIndex bound < rule.periodNumber start (n + 1)) :
    rule.Ends start windowEnd (n + 1) := by
  obtain ⟨base, dates, hdates⟩ := exists_periodDates hwf hn hfits
  have hafter : ∀ d, rule.InPeriod start (n + 1) d → bound < d := by
    intro d hd
    by_contra hle
    have hmono : rule.periodIndex d ≤ rule.periodIndex bound := periodIndex_mono (not_lt.mp hle)
    rw [InPeriod] at hd
    omega
  have hstart : ∀ d, rule.InPeriod start (n + 1) d → start < d := fun d hd =>
    hwf.lt_of_inPeriod (Nat.succ_pos n)
      (show rule.periodIndex start = rule.periodIndex start + rule.interval * ((0 : Nat) : Int) by
        simp) hd
  refine .inr ⟨base, hdates.base_eq, ?_⟩
  unfold Beyond
  cases hcase : rule.limit with
  | forever => exact lt_of_le_of_lt hwindow (hafter base hdates.base_mem)
  | count c => exact lt_of_le_of_lt hwindow (hafter base hdates.base_mem)
  | «until» u =>
    have hu := hlimit u hcase
    refine ⟨lt_of_le_of_lt hu (hafter base hdates.base_mem), ?_⟩
    by_cases hsome : ∃ d, rule.InPeriod start (n + 1) d ∧ rule.Selects start d
    · obtain ⟨d, hd⟩ := hsome
      exact .inr ⟨d, hd, (hstart d hd.1).le, lt_of_le_of_lt hu (hafter d hd.1)⟩
    · exact .inl (not_exists.mp hsome)

theorem Visited.number_le (hwf : rule.WellFormed) (hstart : start ≤ lastWritten)
    (hwindow : windowEnd ≤ lastWritten) {n : Nat} (hn : n + 1 ≤ MAX_PERIODS)
    (h : rule.Visited start windowEnd (n + 1)) (hfits : rule.Fits start n) :
    rule.periodNumber start n ≤ rule.periodIndex lastWritten := by
  have hlimit : ∀ u, rule.limit = .until u → u ≤ lastWritten := fun u hu =>
    le_lastWritten (hwf.limit u hu).2
  cases n with
  | zero =>
    have hmono : rule.periodIndex start ≤ rule.periodIndex lastWritten := periodIndex_mono hstart
    simpa [periodNumber] using hmono
  | succ n =>
    by_contra hlt
    exact h (n + 1) (Nat.lt_succ_self _)
      (ends_of_lt hwf hwindow hlimit (by omega) hfits (not_le.mp hlt))

theorem daysFromEpoch_lastWritten : lastWritten.daysFromEpoch = 2932896 := by decide

theorem periodNumber_succ (n : Nat) :
    rule.periodNumber start (n + 1) = rule.periodNumber start n + rule.interval := by
  rw [periodNumber, periodNumber, Nat.cast_succ, mul_add, mul_one, add_assoc]

theorem fits_of_number_le (hwf : rule.WellFormed)
    (hstart : 0 ≤ start.year.1 ∧ start.year.1 ≤ 9999)
    (hneg : rule.freq = .monthly ∨ rule.freq = .yearly → rule.Negatable) {n : Nat}
    (hle : rule.periodNumber start n ≤ rule.periodIndex lastWritten + rule.interval)
    (hyearly : rule.freq = .yearly → (rule.interval * n : Int) ≤ 2147483647 ∧
      start.year.1 + rule.interval * n ≤ 2147483647) : rule.Fits start n := by
  have hinterval := hwf.interval
  have hfirst := le_daysFromEpoch hstart.1
  have hlast := daysFromEpoch_lastWritten
  have hweekStart := rule.weekStart.indexFromMonday_lt
  have hindex : lastWritten.monthIndex = 119999 := by decide
  have hnonneg : (0 : Int) ≤ rule.interval * n := Int.mul_nonneg (by omega) (by omega)
  have hnumber : rule.periodNumber start n = rule.periodIndex start + rule.interval * n := rfl
  unfold periodIndex at hle hnumber
  unfold Fits Date.firstDay Date.lastDay
  cases hfreq : rule.freq with
  | daily =>
    rw [hfreq] at hle
    dsimp only at hle ⊢
    omega
  | weekly =>
    rw [hfreq] at hle hnumber
    dsimp only at hle hnumber ⊢
    omega
  | monthly =>
    rw [hfreq] at hle
    dsimp only at hle ⊢
    exact ⟨by omega, hneg (.inl hfreq)⟩
  | yearly =>
    rw [hfreq] at hnumber
    obtain ⟨hstep, hyear⟩ := hyearly hfreq
    dsimp only at hnumber ⊢
    exact ⟨hstep, by omega, hneg (.inr hfreq)⟩

theorem Visited.fits (hwf : rule.WellFormed) (hstart : 0 ≤ start.year.1 ∧ start.year.1 ≤ 9999)
    (hwindow : windowEnd.year.1 ≤ 9999)
    (hneg : rule.freq = .monthly ∨ rule.freq = .yearly → rule.Negatable)
    (hyearly : rule.freq = .yearly → start.year.1 + rule.interval ≤ 2147483647) {n : Nat}
    (hn : n < MAX_PERIODS) (h : rule.Visited start windowEnd n) : rule.Fits start n := by
  have hstartLast := le_lastWritten hstart.2
  induction n with
  | zero =>
    refine fits_of_number_le hwf hstart hneg ?_ fun _ => ?_
    · have hmono : rule.periodIndex start ≤ rule.periodIndex lastWritten :=
        periodIndex_mono hstartLast
      rw [periodNumber, Nat.cast_zero, mul_zero]
      omega
    · rw [Nat.cast_zero, mul_zero]
      omega
  | succ m ih =>
    have hfits := ih (by omega) fun k hk => h k (by omega)
    have hle := h.number_le hwf hstartLast (le_lastWritten hwindow) (by omega) hfits
    refine fits_of_number_le hwf hstart hneg ?_ fun hfreq => ?_
    · rw [periodNumber_succ]
      omega
    · have hfirst := hyearly hfreq
      rw [Nat.cast_succ, mul_add, mul_one]
      cases m with
      | zero =>
        rw [Nat.cast_zero, mul_zero]
        omega
      | succ k =>
        -- then one step is not more than all years of four digits
        unfold periodNumber periodIndex at hle
        rw [hfreq] at hle
        have hlast : lastWritten.year.1 = 9999 := rfl
        have hnonneg : (0 : Int) ≤ rule.interval * k := Int.mul_nonneg (by omega) (by omega)
        dsimp only at hle
        rw [hlast, Nat.cast_succ, mul_add, mul_one] at hle
        rw [Nat.cast_succ, mul_add, mul_one]
        omega

end RRule

end CaveHome.Calendar
