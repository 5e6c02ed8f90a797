import CaveHome.Lib.Runs
import Mathlib.Algebra.Order.Field.Rat

/-!
# The circuit breaker

A breaker that trips open when failures reach a threshold, refuses requests for a recovery time,
and then admits a single probe.  The caller supplies the clock.
-/

namespace CaveHome.Traefik

inductive State
  | closed
  | opened
  | halfOpen
  deriving DecidableEq

/-- How a forwarded request ended. -/
inductive Outcome
  | success
  | failure
  deriving DecidableEq

structure CircuitBreaker where
  threshold : ℚ
  minRequests : Nat
  recoveryMs : Nat
  state : State
  /-- The two counters are words of 64 bits. -/
  successes : Nat
  failures : Nat
  openedAt : Nat
  probeInflight : Bool

/-- The counters wrap here. -/
def counterSize : Nat := 18446744073709551616

namespace CircuitBreaker

def new (threshold : ℚ) (minRequests recoveryMs : Nat) : CircuitBreaker where
  threshold := threshold
  minRequests := minRequests
  recoveryMs := recoveryMs
  state := .closed
  successes := 0
  failures := 0
  openedAt := 0
  probeInflight := false

/-- Is the request forwarded? -/
def allow (b : CircuitBreaker) (now : Nat) : Bool × CircuitBreaker :=
  match b.state with
  | .closed => (true, b)
  | .opened =>
    -- the subtraction stops at zero, as the source's does
    if b.recoveryMs ≤ now - b.openedAt then
      (true, { b with state := .halfOpen, probeInflight := true })
    else (false, b)
  | .halfOpen =>
    if b.probeInflight then (false, b) else (true, { b with probeInflight := true })

def trip (b : CircuitBreaker) (now : Nat) : CircuitBreaker :=
  { b with
    state := .opened, openedAt := now, successes := 0, failures := 0, probeInflight := false }

def close (b : CircuitBreaker) : CircuitBreaker :=
  { b with state := .closed, successes := 0, failures := 0, probeInflight := false }

def total (b : CircuitBreaker) : Nat := (b.successes + b.failures) % counterSize

/-- The failures among the outcomes counted, as an exact ratio. -/
def failureRatio (b : CircuitBreaker) : ℚ :=
  if b.total = 0 then 0 else (b.failures : ℚ) / (b.total : ℚ)

def onSuccess (b : CircuitBreaker) : CircuitBreaker :=
  if b.state = .halfOpen then b.close
  else { b with successes := (b.successes + 1) % counterSize }

def onFailure (b : CircuitBreaker) (now : Nat) : CircuitBreaker :=
  match b.state with
  | .halfOpen => b.trip now
  | .closed =>
    let b := { b with failures := (b.failures + 1) % counterSize }
    if b.minRequests ≤ b.total ∧ b.threshold ≤ b.failureRatio then b.trip now else b
  | .opened => b

def onOutcome (b : CircuitBreaker) (now : Nat) : Outcome → CircuitBreaker
  | .success => b.onSuccess
  | .failure => b.onFailure now

/-! ## What a call does -/

variable {b : CircuitBreaker} {now : Nat}

theorem onOutcome_halfOpen (h : b.state = .halfOpen) (outcome : Outcome) :
    b.onOutcome now outcome = if outcome = .success then b.close else b.trip now := by
  cases outcome with
  | success => simp [onOutcome, onSuccess, h]
  | failure => simp [onOutcome, onFailure, h]

theorem onOutcome_opened (h : b.state = .opened) (outcome : Outcome) :
    (b.onOutcome now outcome).state = .opened ∧
      (b.onOutcome now outcome).openedAt = b.openedAt ∧
      (b.onOutcome now outcome).probeInflight = b.probeInflight := by
  cases outcome with
  | success => simp [onOutcome, onSuccess, h]
  | failure => simp [onOutcome, onFailure, h]

/-- Closed, the breaker counts the outcome. -/
def counted (b : CircuitBreaker) : Outcome → CircuitBreaker
  | .success => { b with successes := (b.successes + 1) % counterSize }
  | .failure => { b with failures := (b.failures + 1) % counterSize }

theorem onOutcome_closed (h : b.state = .closed) (outcome : Outcome) :
    b.onOutcome now outcome =
      if outcome = .failure ∧ (b.counted outcome).minRequests ≤ (b.counted outcome).total ∧
          (b.counted outcome).threshold ≤ (b.counted outcome).failureRatio then
        (b.counted outcome).trip now
      else b.counted outcome := by
  cases outcome with
  | success => simp [onOutcome, onSuccess, h, counted]
  | failure => simp [onOutcome, onFailure, h, counted]

end CircuitBreaker

end CaveHome.Traefik

/-!
## Requests in flight around the breaker

Requests are admitted and report their outcomes later, in any order.  The breaker does not know
whose outcome it is told.  The requests are numbered here in the order they are admitted, and what
the breaker should know is noted beside it: who was admitted since it last changed its state, and
which outcomes it was told since it last closed.
-/

namespace CaveHome.Traefik

/-- A request that was admitted and has not reported yet. -/
structure Request where
  id : Nat
  /-- It was admitted as the probe: it left the breaker half-open. -/
  probe : Bool
  deriving DecidableEq

/-- The breaker with the requests that pass through it. -/
structure Front where
  breaker : CircuitBreaker
  /-- The latest time given to the breaker. -/
  now : Nat
  /-- How many requests were admitted. -/
  issued : Nat
  inFlight : List Request
  /-- The requests admitted since the breaker last changed its state. -/
  admitted : List Nat
  /-- The outcomes reported since the breaker last closed. -/
  window : List Outcome

inductive Act
  | allow (now : Nat)
  | report (id : Nat) (outcome : Outcome) (now : Nat)

namespace Front

def new (threshold : ℚ) (minRequests recoveryMs : Nat) : Front where
  breaker := .new threshold minRequests recoveryMs
  now := 0
  issued := 0
  inFlight := []
  admitted := []
  window := []

/-- The breaker after an act that left it as `b`, and who was admitted in its present state. -/
def keep (f : Front) (b : CircuitBreaker) (now : Nat) : Front :=
  { f with
    breaker := b, now, admitted := if b.state = f.breaker.state then f.admitted else [] }

/-- A request asks.  The clock does not go back. -/
def allow (f : Front) (now : Nat) : Option Front :=
  if now < f.now then none
  else
    let (ok, b) := f.breaker.allow now
    let g := f.keep b now
    if ok then
      some { g with
        issued := f.issued + 1
        inFlight := f.inFlight ++ [⟨f.issued, decide (b.state = .halfOpen)⟩]
        admitted := g.admitted ++ [f.issued] }
    else some g

/-- A request in flight reports. -/
def report (f : Front) (id : Nat) (outcome : Outcome) (now : Nat) : Option Front :=
  if now < f.now ∨ ∀ r ∈ f.inFlight, r.id ≠ id then none
  else
    let b := f.breaker.onOutcome now outcome
    some { f.keep b now with
      inFlight := f.inFlight.filter (·.id != id)
      window :=
        if b.state = .closed ∧ f.breaker.state ≠ .closed then [] else f.window ++ [outcome] }

def step (f : Front) : Act → Option Front
  | .allow now => f.allow now
  | .report id outcome now => f.report id outcome now

/-! ## What the breaker is for -/

/-- The share of failures in a window. -/
def failureShare (window : List Outcome) : ℚ :=
  (window.count .failure : ℚ) / (window.length : ℚ)

/-- What holds between any two acts. -/
structure Sound (f : Front) : Prop where
  /-- Half-open, one request was admitted: the probe. -/
  single : f.breaker.state = .halfOpen → ∃ p, f.admitted = [p]
  /-- The flag says whether an admitted probe has yet to report. -/
  flag : f.breaker.probeInflight = true ↔ ∃ r ∈ f.inFlight, r.probe = true

/-- What holds of each act. -/
structure Guarded (f : Front) (a : Act) (g : Front) : Prop where
  /-- Open, the breaker admits no request before the recovery time is over. -/
  waits : f.breaker.state = .opened → f.issued < g.issued →
    f.breaker.openedAt + f.breaker.recoveryMs ≤ g.now
  /-- Half-open, it closes when the probe succeeds. -/
  closes : f.breaker.state = .halfOpen → g.breaker.state = .closed →
    ∃ p now, f.admitted = [p] ∧ a = .report p .success now
  /-- Half-open, it trips when the probe fails. -/
  reopens : f.breaker.state = .halfOpen → g.breaker.state = .opened →
    ∃ p now, f.admitted = [p] ∧ a = .report p .failure now
  /-- Closed, it trips when a failure completes a window with too many of them. -/
  opens : f.breaker.state = .closed → (g.breaker.state = .opened ↔
    (∃ id now, a = .report id .failure now) ∧ f.breaker.minRequests ≤ g.window.length ∧
      f.breaker.threshold ≤ failureShare g.window)

/-- Half-open, only the probe reports. -/
def ProbeReports (f : Front) : Act → Prop
  | .allow _ => True
  | .report id _ _ => f.breaker.state = .halfOpen → id ∈ f.admitted

/-- The counters can take the outcome. -/
def Fits (f : Front) : Act → Prop
  | .allow _ => True
  | .report _ _ _ => f.breaker.state = .closed → f.window.length + 1 < counterSize

instance (f : Front) (a : Act) : Decidable (f.ProbeReports a) := by
  cases a <;> unfold ProbeReports <;> infer_instance

instance (f : Front) (a : Act) : Decidable (f.Fits a) := by
  cases a <;> unfold Fits <;> infer_instance

/-! ## The invariant -/

/-- What the breaker and the notes beside it agree on. -/
structure Tracks (f : Front) : Prop where
  clock : f.breaker.state = .opened → f.breaker.openedAt ≤ f.now
  successes : f.breaker.state = .closed →
    f.breaker.successes = f.window.count .success % counterSize
  failures : f.breaker.state = .closed →
    f.breaker.failures = f.window.count .failure % counterSize
  flag : f.breaker.probeInflight = decide (f.breaker.state = .halfOpen)
  probing : f.breaker.state = .halfOpen → ∃ p, f.admitted = [p] ∧ ⟨p, true⟩ ∈ f.inFlight
  probes : ∀ r ∈ f.inFlight, r.probe = true →
    f.breaker.state = .halfOpen ∧ f.admitted = [r.id]

variable {f g : Front} {a : Act}

theorem Tracks.sound (h : f.Tracks) : f.Sound := by
  refine ⟨fun hstate => ?_, ?_⟩
  · obtain ⟨p, hp, -⟩ := h.probing hstate
    exact ⟨p, hp⟩
  · rw [h.flag, decide_eq_true_iff]
    constructor
    · intro hstate
      obtain ⟨p, -, hin⟩ := h.probing hstate
      exact ⟨_, hin, rfl⟩
    · rintro ⟨r, hr, hprobe⟩
      exact (h.probes r hr hprobe).1

theorem allow_cases {now : Nat} (h : f.Tracks) (hstep : f.allow now = some g) :
    f.now ≤ now ∧
      ((f.breaker.state = .closed ∧ g = { f with
          now, issued := f.issued + 1, inFlight := f.inFlight ++ [⟨f.issued, false⟩]
          admitted := f.admitted ++ [f.issued] }) ∨
        (f.breaker.state = .opened ∧ f.breaker.openedAt + f.breaker.recoveryMs ≤ now ∧
          g = { f with
            breaker := { f.breaker with state := .halfOpen, probeInflight := true }
            now, issued := f.issued + 1, inFlight := f.inFlight ++ [⟨f.issued, true⟩]
            admitted := [f.issued] }) ∨
        (f.breaker.state ≠ .closed ∧ g = { f with now })) := by
  unfold allow at hstep
  split at hstep
  · cases hstep
  next hclock =>
  have htime := Nat.le_of_not_lt hclock
  refine ⟨htime, ?_⟩
  unfold CircuitBreaker.allow keep at hstep
  have hflag := h.flag
  cases hstate : f.breaker.state with
  | closed =>
    simp only [hstate] at hstep
    obtain rfl := Option.some.inj hstep
    exact .inl ⟨rfl, by simp⟩
  | opened =>
    simp only [hstate] at hstep
    split at hstep
    next hready =>
      have hopened := h.clock hstate
      obtain rfl := Option.some.inj hstep
      exact .inr (.inl ⟨rfl, by omega, by simp⟩)
    next =>
      obtain rfl := Option.some.inj hstep
      exact .inr (.inr ⟨by simp, by simp⟩)
  | halfOpen =>
    rw [hstate] at hflag
    simp only [hstate, hflag] at hstep
    obtain rfl := Option.some.inj hstep
    exact .inr (.inr ⟨by simp, by simp [hstate]⟩)

theorem report_cases {id now : Nat} {outcome : Outcome}
    (hstep : f.report id outcome now = some g) :
    f.now ≤ now ∧ g = { f with
      breaker := f.breaker.onOutcome now outcome
      now
      inFlight := f.inFlight.filter (·.id != id)
      admitted :=
        if (f.breaker.onOutcome now outcome).state = f.breaker.state then f.admitted else []
      window :=
        if (f.breaker.onOutcome now outcome).state = .closed ∧ f.breaker.state ≠ .closed then []
        else f.window ++ [outcome] } := by
  unfold report at hstep
  split at hstep
  · cases hstep
  next hclock =>
    have htime := Nat.le_of_not_lt (not_or.mp hclock).1
    exact ⟨htime, (Option.some.inj hstep).symm⟩

theorem length_eq_count (window : List Outcome) :
    window.length = window.count .success + window.count .failure := by
  induction window with
  | nil => rfl
  | cons outcome window ih => cases outcome <;> simp [ih] <;> omega

theorem Tracks.counted (h : f.Tracks) (hstate : f.breaker.state = .closed) (outcome : Outcome) :
    (f.breaker.counted outcome).successes =
        (f.window ++ [outcome]).count .success % counterSize ∧
      (f.breaker.counted outcome).failures =
        (f.window ++ [outcome]).count .failure % counterSize := by
  have hsuccesses := h.successes hstate
  have hfailures := h.failures hstate
  cases outcome with
  | success => simp [CircuitBreaker.counted, hsuccesses, hfailures, List.count_append]
  | failure => simp [CircuitBreaker.counted, hsuccesses, hfailures, List.count_append]

theorem Tracks.counted_share (h : f.Tracks) (hstate : f.breaker.state = .closed)
    (hfits : f.window.length + 1 < counterSize) (outcome : Outcome) :
    (f.breaker.counted outcome).total = (f.window ++ [outcome]).length ∧
      (f.breaker.counted outcome).failureRatio = failureShare (f.window ++ [outcome]) := by
  obtain ⟨hsuccesses, hfailures⟩ := h.counted hstate outcome
  have hlength := length_eq_count (f.window ++ [outcome])
  have hlong : (f.window ++ [outcome]).length = f.window.length + 1 := by simp
  rw [Nat.mod_eq_of_lt (by omega)] at hsuccesses hfailures
  have htotal : (f.breaker.counted outcome).total = (f.window ++ [outcome]).length := by
    rw [CircuitBreaker.total, hsuccesses, hfailures, ← hlength, Nat.mod_eq_of_lt (by omega)]
  refine ⟨htotal, ?_⟩
  rw [CircuitBreaker.failureRatio, htotal, if_neg (by omega), hfailures, failureShare]

/-! ## One act -/

theorem Tracks.allow {now : Nat} (h : f.Tracks) (hstep : f.allow now = some g) : g.Tracks := by
  obtain ⟨htime, ⟨hstate, rfl⟩ | ⟨hstate, -, rfl⟩ | ⟨hstate, rfl⟩⟩ := allow_cases h hstep
  · refine ⟨by simp [hstate], h.successes, h.failures, h.flag, by simp [hstate], fun r hr hp => ?_⟩
    obtain hr | hr := List.mem_append.mp hr
    · rw [(h.probes r hr hp).1] at hstate
      cases hstate
    · obtain rfl := List.mem_singleton.mp hr
      cases hp
  · refine ⟨by simp, by simp, by simp, rfl, fun _ => ⟨f.issued, rfl, by simp⟩, fun r hr hp => ?_⟩
    obtain hr | hr := List.mem_append.mp hr
    · rw [(h.probes r hr hp).1] at hstate
      cases hstate
    · obtain rfl := List.mem_singleton.mp hr
      exact ⟨rfl, rfl⟩
  · exact ⟨fun hopened => (h.clock hopened).trans htime, h.successes, h.failures, h.flag,
      h.probing, h.probes⟩

theorem Tracks.no_probe (h : f.Tracks) (hstate : f.breaker.state ≠ .halfOpen) :
    ∀ r ∈ f.inFlight, r.probe = false := by
  intro r hr
  by_contra hprobe
  exact hstate (h.probes r hr (by simpa using hprobe)).1

theorem Tracks.no_probe_left {id : Nat} (h : f.Tracks) (hid : f.admitted = [id]) :
    ∀ r ∈ f.inFlight.filter (·.id != id), r.probe = false := by
  intro r hr
  obtain ⟨hr, hne⟩ := List.mem_filter.mp hr
  by_contra hprobe
  have hadmitted := (h.probes r hr (by simpa using hprobe)).2
  rw [hid] at hadmitted
  exact absurd (List.cons.inj hadmitted).1.symm (by simpa using hne)

theorem Tracks.of_quiet (hstate : f.breaker.state ≠ .halfOpen)
    (hflag : f.breaker.probeInflight = false) (hprobe : ∀ r ∈ f.inFlight, r.probe = false)
    (hclock : f.breaker.state = .opened → f.breaker.openedAt ≤ f.now)
    (hcounts : f.breaker.state = .closed →
      f.breaker.successes = f.window.count .success % counterSize ∧
        f.breaker.failures = f.window.count .failure % counterSize) : f.Tracks where
  clock := hclock
  successes h := (hcounts h).1
  failures h := (hcounts h).2
  flag := by simp [hflag, hstate]
  probing h := absurd h hstate
  probes r hr hp := by simp [hprobe r hr] at hp

theorem Tracks.report {id now : Nat} {outcome : Outcome} (h : f.Tracks)
    (hown : f.ProbeReports (.report id outcome now))
    (hstep : f.report id outcome now = some g) : g.Tracks := by
  obtain ⟨htime, rfl⟩ := report_cases hstep
  have hflag := h.flag
  cases hstate : f.breaker.state with
  | closed =>
    rw [hstate] at hflag
    have hquiet := h.no_probe (by simp [hstate])
    have hcounted := h.counted hstate outcome
    have hsame : (f.breaker.counted outcome).state = .closed ∧
        (f.breaker.counted outcome).probeInflight = false := by
      cases outcome <;> exact ⟨hstate, hflag⟩
    rw [CircuitBreaker.onOutcome_closed hstate]
    split
    · refine .of_quiet (by simp [CircuitBreaker.trip]) rfl
        (fun r hr => hquiet r (List.mem_filter.mp hr).1) (fun _ => Nat.le_refl _) ?_
      simp [CircuitBreaker.trip]
    · refine .of_quiet (by simp [hsame]) hsame.2
        (fun r hr => hquiet r (List.mem_filter.mp hr).1) (by simp [hsame]) fun _ => ?_
      simpa using hcounted
  | opened =>
    rw [hstate] at hflag
    obtain ⟨hopened, hsince, hsame⟩ : (f.breaker.onOutcome now outcome).state = .opened ∧ _ ∧ _ :=
      CircuitBreaker.onOutcome_opened hstate outcome
    have hquiet := h.no_probe (by simp [hstate])
    refine .of_quiet (by simp [hopened]) (by rw [hsame]; exact hflag)
      (fun r hr => hquiet r (List.mem_filter.mp hr).1) (fun _ => ?_) (by simp [hopened])
    dsimp only
    rw [hsince]
    exact (h.clock hstate).trans htime
  | halfOpen =>
    obtain ⟨p, hp, -⟩ := h.probing hstate
    have hid := hown hstate
    rw [hp, List.mem_singleton] at hid
    have hquiet := h.no_probe_left (hid ▸ hp)
    rw [CircuitBreaker.onOutcome_halfOpen hstate]
    split
    · refine .of_quiet (by simp [CircuitBreaker.close]) rfl hquiet ?_ fun _ => ?_
      · simp [CircuitBreaker.close]
      · simp [CircuitBreaker.close]
    · refine .of_quiet (by simp [CircuitBreaker.trip]) rfl hquiet (fun _ => Nat.le_refl _) ?_
      simp [CircuitBreaker.trip]

theorem Tracks.step (h : f.Tracks) (hown : f.ProbeReports a) (hstep : f.step a = some g) :
    g.Tracks := by
  cases a with
  | allow now => exact h.allow hstep
  | report id outcome now => exact h.report hown hstep

theorem Tracks.allow_guarded {now : Nat} (h : f.Tracks) (hstep : f.allow now = some g) :
    f.Guarded (.allow now) g := by
  obtain ⟨-, ⟨hstate, rfl⟩ | ⟨hstate, hwaited, rfl⟩ | ⟨hstate, rfl⟩⟩ := allow_cases h hstep
  · refine ⟨?_, ?_, ?_, ?_⟩ <;> simp [hstate]
  · refine ⟨fun _ _ => hwaited, ?_, ?_, ?_⟩ <;> simp [hstate]
  · refine ⟨?_, ?_, ?_, ?_⟩
    · simp
    · intro hhalf hclosed
      rw [hhalf] at hclosed
      cases hclosed
    · intro hhalf hopened
      rw [hhalf] at hopened
      cases hopened
    · intro hclosed
      exact absurd hclosed hstate

theorem Tracks.report_opens {id now : Nat} {outcome : Outcome} (h : f.Tracks)
    (hstate : f.breaker.state = .closed) (hfits : f.window.length + 1 < counterSize) :
    (f.breaker.onOutcome now outcome).state = .opened ↔
      (∃ id' now', Act.report id outcome now = .report id' .failure now') ∧
        f.breaker.minRequests ≤ (f.window ++ [outcome]).length ∧
        f.breaker.threshold ≤ failureShare (f.window ++ [outcome]) := by
  obtain ⟨htotal, hshare⟩ := h.counted_share hstate hfits outcome
  have hsame : (f.breaker.counted outcome).minRequests = f.breaker.minRequests ∧
      (f.breaker.counted outcome).threshold = f.breaker.threshold ∧
      (f.breaker.counted outcome).state = .closed := by
    cases outcome <;> exact ⟨rfl, rfl, hstate⟩
  rw [CircuitBreaker.onOutcome_closed hstate, htotal, hshare, hsame.1, hsame.2.1]
  split
  next htrips => simpa [CircuitBreaker.trip, htrips.1] using htrips.2
  next hstays =>
    simp only [hsame.2.2, reduceCtorEq, false_iff]
    rintro ⟨⟨id', now', hact⟩, hmin, hthreshold⟩
    exact hstays ⟨(Act.report.inj hact).2.1, hmin, hthreshold⟩

theorem Tracks.report_guarded {id now : Nat} {outcome : Outcome} (h : f.Tracks)
    (hfits : f.Fits (.report id outcome now)) (hstep : f.report id outcome now = some g) :
    f.Guarded (.report id outcome now) g ↔ f.ProbeReports (.report id outcome now) := by
  obtain ⟨-, rfl⟩ := report_cases hstep
  cases hstate : f.breaker.state with
  | closed =>
    have hopens : (f.breaker.onOutcome now outcome).state = .opened ↔
        (∃ id' now', Act.report id outcome now = .report id' .failure now') ∧ _ :=
      h.report_opens hstate (hfits hstate)
    refine ⟨fun _ => by simp [ProbeReports, hstate], fun _ => ⟨?_, ?_, ?_, fun _ => ?_⟩⟩
    · simp [hstate]
    · simp [hstate]
    · simp [hstate]
    · simpa [hstate] using hopens
  | opened =>
    refine ⟨fun _ => by simp [ProbeReports, hstate], fun _ => ⟨?_, ?_, ?_, ?_⟩⟩ <;> simp [hstate]
  | halfOpen =>
    obtain ⟨p, hp, -⟩ := h.probing hstate
    have hafter : f.breaker.onOutcome now outcome = _ :=
      CircuitBreaker.onOutcome_halfOpen hstate outcome
    constructor
    · intro hguarded _
      cases outcome with
      | success =>
        obtain ⟨q, t, hq, hact⟩ := hguarded.closes hstate (by simp [hafter, CircuitBreaker.close])
        rw [hq, (Act.report.inj hact).1]
        exact List.mem_singleton_self q
      | failure =>
        obtain ⟨q, t, hq, hact⟩ := hguarded.reopens hstate (by simp [hafter, CircuitBreaker.trip])
        rw [hq, (Act.report.inj hact).1]
        exact List.mem_singleton_self q
    · intro hown
      have hid := hown hstate
      rw [hp, List.mem_singleton] at hid
      subst hid
      refine ⟨?_, fun _ hclosed => ?_, fun _ hopened => ?_, ?_⟩
      · simp [hstate]
      · cases outcome with
        | success => exact ⟨id, now, hp, rfl⟩
        | failure => simp [hafter, CircuitBreaker.trip] at hclosed
      · cases outcome with
        | success => simp [hafter, CircuitBreaker.close] at hopened
        | failure => exact ⟨id, now, hp, rfl⟩
      · simp [hstate]

/-! ## Whole runs -/

theorem tracks_new (threshold : ℚ) (minRequests recoveryMs : Nat) :
    (new threshold minRequests recoveryMs).Tracks :=
  .of_quiet (by simp [new, CircuitBreaker.new]) rfl (by simp [new]) (fun _ => Nat.le_refl _)
    fun _ => ⟨rfl, rfl⟩

/-- In every run in which, half-open, only the probe reports and no counter wraps, the breaker
keeps to its purpose.  An act breaks it exactly when it is the report of another request. -/
theorem breaker_safe {threshold : ℚ} {minRequests recoveryMs : Nat} {acts : List Act}
    (hok : Runs.Along step (fun f a => f.ProbeReports a ∧ f.Fits a)
      (new threshold minRequests recoveryMs) acts)
    (hrun : Runs.run step (new threshold minRequests recoveryMs) acts = some f) :
    f.Sound ∧ ∀ a g, f.Fits a → f.step a = some g →
      (f.Guarded a g ∧ g.Sound ↔ f.ProbeReports a) := by
  have htracks : f.Tracks :=
    Runs.invariant_along (fun f a g hok h hstep => h.step hok.1 hstep) hok (tracks_new _ _ _) hrun
  refine ⟨htracks.sound, fun a g hfits hstep => ?_⟩
  have hguarded : f.Guarded a g ↔ f.ProbeReports a := by
    cases a with
    | allow now => exact iff_of_true (htracks.allow_guarded hstep) trivial
    | report id outcome now => exact htracks.report_guarded hfits hstep
  constructor
  · intro h
    exact hguarded.mp h.1
  · intro hown
    exact ⟨hguarded.mpr hown, (htracks.step hown hstep).sound⟩

/-- Three requests pass, two of them fail, and the breaker trips. -/
def tripped : List Act :=
  [.allow 0, .allow 0, .allow 0, .report 0 .failure 0, .report 1 .failure 5]

/-- The breaker after it has tripped and more acts. -/
def afterTrip (acts : List Act) : Option Front :=
  Runs.run step (new (1 / 2) 2 1000) (tripped ++ acts)

/-- The third request reports before the breaker admits its probe. -/
def probing : Front :=
  (afterTrip [.allow 500, .report 2 .success 600, .allow 1005]).get (by decide +kernel)

/-- The probe succeeds, and the breaker closes. -/
theorem breaker_safe_probe :
    probing.Sound ∧ ∃ g, probing.step (.report 3 .success 1010) = some g ∧
      g.breaker.state = .closed ∧ probing.Guarded (.report 3 .success 1010) g ∧ g.Sound := by
  obtain ⟨hsound, hacts⟩ := breaker_safe (by decide +kernel)
    (show afterTrip _ = some probing from (Option.some_get _).symm)
  have hstep : probing.step (.report 3 .success 1010) = some _ :=
    (Option.some_get (by decide +kernel)).symm
  obtain ⟨hguarded, hsound'⟩ := (hacts _ _ (by decide +kernel) hstep).mpr (by decide +kernel)
  exact ⟨hsound, _, hstep, by decide +kernel, hguarded, hsound'⟩

/-- The third request is still in flight when the probe is admitted. -/
def overtaken : Front := (afterTrip [.allow 1005]).get (by decide +kernel)

/-- It reports, and the breaker closes although the probe has not come back. -/
theorem breaker_closed_by_late :
    ¬ ∀ (threshold : ℚ) (minRequests recoveryMs : Nat) (acts : List Act) (f : Front) (a : Act)
      (g : Front), Runs.run step (new threshold minRequests recoveryMs) acts = some f →
      f.step a = some g → f.Guarded a g ∧ g.Sound := by
  intro h
  have hrun : afterTrip _ = some overtaken := (Option.some_get _).symm
  have hstep : overtaken.step (.report 2 .success 1010) = some _ :=
    (Option.some_get (by decide +kernel)).symm
  obtain ⟨p, now, hp, hact⟩ :=
    (h _ _ _ _ _ _ _ hrun hstep).1.closes (by decide +kernel) (by decide +kernel)
  rw [← (Act.report.inj hact).1] at hp
  revert hp
  decide +kernel

end Front

end CaveHome.Traefik
