import CaveHome.Lib.MachineData
import Mathlib.Logic.Function.Basic
import Mathlib.Tactic.Common

/-!
# Leader election

Participants share one lease.  Each of them takes it when it is free or expired and renews it while
it holds it, and believes that it leads until its last success is too long ago or it releases the
lease.  Times are signed 64-bit numbers of seconds, read from one clock.
-/

namespace CaveHome.ControllerManager

structure Lease where
  holderIdentity : String
  leaseDurationSecs : Int
  acquireTime : Int
  renewTime : Int
  leaseTransitions : Int
deriving DecidableEq

def Lease.isValid (l : Lease) (now : Int) : Bool :=
  decide (now < I64.wrappingAdd l.renewTime l.leaseDurationSecs)

inductive ElectionResult
  | acquiredLeadership (lease : Lease)
  | renewedLeadership (lease : Lease)
  | lost (currentHolder : String)
deriving DecidableEq

def tryAcquireOrRenew (current : Option Lease) (identity : String) (now leaseDurationSecs : Int) :
    ElectionResult :=
  match current with
  | none =>
    .acquiredLeadership {
      holderIdentity := identity, leaseDurationSecs, acquireTime := now, renewTime := now
      leaseTransitions := 0 }
  | some lease =>
    if lease.holderIdentity = identity then
      .renewedLeadership { lease with renewTime := now, leaseDurationSecs }
    -- A released lease has an empty holder and is free whatever its times are.
    else if lease.holderIdentity ≠ "" ∧ lease.isValid now then .lost lease.holderIdentity
    else
      .acquiredLeadership {
        holderIdentity := identity, leaseDurationSecs, acquireTime := now, renewTime := now
        leaseTransitions := lease.leaseTransitions + 1 }

structure LeaderElector where
  identity : String
  leaseDuration : Int

namespace LeaderElector

/-- Try, and write the lease back on success. -/
def tryAcquireOrRenew (e : LeaderElector) (lease : Option Lease) (now : Int) :
    ElectionResult × Option Lease :=
  let result := ControllerManager.tryAcquireOrRenew lease e.identity now e.leaseDuration
  match result with
  | .acquiredLeadership l => (result, some l)
  | .renewedLeadership l => (result, some l)
  | .lost _ => (result, lease)

def isLeader (e : LeaderElector) (lease : Option Lease) (now : Int) : Bool :=
  lease.any fun l => decide (l.holderIdentity = e.identity) && l.isValid now

/-- Clear the holder of a lease that the participant holds. -/
def release (e : LeaderElector) (lease : Option Lease) (now : Int) : Bool × Option Lease :=
  match lease with
  | none => (false, none)
  | some l =>
    if l.holderIdentity ≠ e.identity then (false, some l)
    else (true, some { l with holderIdentity := "", renewTime := now })

end LeaderElector

structure LeaderElectionConfig where
  leaseDuration : Int
  renewDeadline : Int
  retryPeriod : Int
  renewDeadline_pos : 0 < renewDeadline
  renewDeadline_lt : renewDeadline < leaseDuration
  retryPeriod_lt : retryPeriod < renewDeadline

namespace LeaderElectionConfig

def new (leaseDuration renewDeadline retryPeriod : Int) : Except String LeaderElectionConfig :=
  if hpos : renewDeadline ≤ 0 then .error "renew_deadline must be > 0"
  else if hlease : leaseDuration ≤ renewDeadline then
    .error "lease_duration must be greater than renew_deadline"
  else if hretry : renewDeadline ≤ retryPeriod then
    .error "renew_deadline must be greater than retry_period"
  else
    .ok {
      leaseDuration, renewDeadline, retryPeriod
      renewDeadline_pos := by omega
      renewDeadline_lt := by omega
      retryPeriod_lt := by omega }

def renewDeadlineExceeded (cfg : LeaderElectionConfig) (lastRenew now : Int) : Bool :=
  decide (cfg.renewDeadline < I64.wrappingAdd now (-lastRenew))

end LeaderElectionConfig

/-! ## The election -/

structure Participant where
  identity : String
  config : LeaderElectionConfig

def Participant.elector (p : Participant) : LeaderElector := ⟨p.identity, p.config.leaseDuration⟩

/-- The lease, the clock, and the time of the last success of each participant. -/
structure Election (ι : Type) where
  lease : Option Lease := none
  lastRenew : ι → Option Int := fun _ => none
  now : Int

namespace Election

inductive Step (ι : Type)
  | tryAcquireOrRenew (i : ι)
  | release (i : ι)
  | wait (secs : Nat)

variable {ι : Type} [DecidableEq ι]

def step (ps : ι → Participant) (s : Election ι) : Step ι → Election ι
  | .tryAcquireOrRenew i =>
    match (ps i).elector.tryAcquireOrRenew s.lease s.now with
    | (.lost _, lease) => { s with lease }
    | (_, lease) => { s with lease, lastRenew := Function.update s.lastRenew i (some s.now) }
  | .release i =>
    { s with
      lease := ((ps i).elector.release s.lease s.now).2
      lastRenew := Function.update s.lastRenew i none }
  | .wait secs => { s with now := s.now + secs }

def run (ps : ι → Participant) (s : Election ι) (steps : List (Step ι)) : Election ι :=
  steps.foldl (step ps) s

/-- The participant has a success that is not too long ago. -/
def Leads (ps : ι → Participant) (s : Election ι) (i : ι) : Prop :=
  ∃ t, s.lastRenew i = some t ∧ (ps i).config.renewDeadlineExceeded t s.now = false

/-- The participant has a name, and has it alone. -/
structure Named (ps : ι → Participant) (i : ι) : Prop where
  ne_empty : (ps i).identity ≠ ""
  unique : ∀ j, (ps j).identity = (ps i).identity → j = i

/-- The times of the participant's leases are in range up to that state. -/
def InRange (ps : ι → Participant) (s : Election ι) (i : ι) : Prop :=
  s.now + (ps i).config.leaseDuration ≤ I64.maxValue

/-- What the shared record owes a participant: its last success is what the record says, or the
lease of that success is over. -/
def Owes (ps : ι → Participant) (s : Election ι) (i : ι) : Prop :=
  ∀ t, s.lastRenew i = some t → 0 ≤ t ∧ t ≤ s.now ∧
    ((∃ l, s.lease = some l ∧ l.holderIdentity = (ps i).identity ∧ l.renewTime = t ∧
        l.leaseDurationSecs = (ps i).config.leaseDuration) ∨
      t + (ps i).config.leaseDuration ≤ s.now)

section Run

variable {ps : ι → Participant} {s : Election ι}

theorem now_le_step (ps : ι → Participant) (s : Election ι) (a : Step ι) :
    s.now ≤ (s.step ps a).now := by
  cases a with
  | tryAcquireOrRenew i =>
    unfold step
    dsimp only
    split <;> exact le_refl s.now
  | release i => exact le_refl s.now
  | wait secs => exact Int.le_add_of_nonneg_right (Int.natCast_nonneg secs)

theorem now_le_run (ps : ι → Participant) (s : Election ι) (steps : List (Step ι)) :
    s.now ≤ (s.run ps steps).now := by
  induction steps generalizing s with
  | nil => exact le_refl _
  | cons a steps ih => exact (now_le_step ps s a).trans (ih _)

theorem step_tryAcquireOrRenew (ps : ι → Participant) (s : Election ι) (i : ι) :
    (∃ l, s.lease = some l ∧ l.holderIdentity ≠ (ps i).identity ∧ l.holderIdentity ≠ "" ∧
        l.isValid s.now = true ∧ s.step ps (.tryAcquireOrRenew i) = s) ∨
      (∃ l, s.lease = some l ∧ l.holderIdentity = (ps i).identity ∧
        s.step ps (.tryAcquireOrRenew i) =
          { s with
            lease := some { l with
              renewTime := s.now, leaseDurationSecs := (ps i).config.leaseDuration }
            lastRenew := Function.update s.lastRenew i (some s.now) }) ∨
      (∀ l, s.lease = some l → l.holderIdentity ≠ (ps i).identity ∧
          (l.holderIdentity = "" ∨ l.isValid s.now = false)) ∧
        s.step ps (.tryAcquireOrRenew i) =
          { s with
            lease := some {
              holderIdentity := (ps i).identity
              leaseDurationSecs := (ps i).config.leaseDuration
              acquireTime := s.now, renewTime := s.now
              leaseTransitions := s.lease.elim 0 (·.leaseTransitions + 1) }
            lastRenew := Function.update s.lastRenew i (some s.now) } := by
  obtain ⟨lease, lastRenew, now⟩ := s
  simp only [step, LeaderElector.tryAcquireOrRenew, Participant.elector]
  cases lease with
  | none => exact Or.inr (Or.inr ⟨nofun, rfl⟩)
  | some l =>
    unfold ControllerManager.tryAcquireOrRenew
    by_cases hholder : l.holderIdentity = (ps i).identity
    · refine Or.inr (Or.inl ⟨l, rfl, hholder, ?_⟩)
      simp only [if_pos hholder]
    · by_cases hheld : l.holderIdentity ≠ "" ∧ l.isValid now = true
      · refine Or.inl ⟨l, rfl, hholder, hheld.1, hheld.2, ?_⟩
        simp only [if_neg hholder, if_pos hheld]
      · refine Or.inr (Or.inr ⟨?_, ?_⟩)
        · intro l' hl'
          obtain rfl := Option.some.inj hl'
          refine ⟨hholder, ?_⟩
          rw [not_and_or, not_not, Bool.not_eq_true] at hheld
          exact hheld
        · simp only [if_neg hholder, if_neg hheld, Option.elim_some]

theorem release_cases (e : LeaderElector) (lease : Option Lease) (now : Int) :
    (e.release lease now).2 = lease ∨
      ∃ l, lease = some l ∧ l.holderIdentity = e.identity ∧
        (e.release lease now).2 = some { l with holderIdentity := "", renewTime := now } := by
  cases lease with
  | none => exact Or.inl rfl
  | some l =>
    unfold LeaderElector.release
    by_cases hholder : l.holderIdentity = e.identity
    · refine Or.inr ⟨l, rfl, hholder, ?_⟩
      simp only [ne_eq, hholder, not_true_eq_false, if_false]
    · exact Or.inl (by simp only [ne_eq, hholder, not_false_eq_true, if_true])

theorem Owes.step {i : ι} (hname : Named ps i) (h : s.Owes ps i) (hnow : 0 ≤ s.now)
    (hrange : s.InRange ps i) (a : Step ι) : (s.step ps a).Owes ps i := by
  intro t ht
  cases a with
  | wait secs =>
    obtain ⟨h₀, hle, h⟩ := h t ht
    have hstep : (s.step ps (.wait secs)).now = s.now + secs := rfl
    refine ⟨h₀, by omega, h.imp_right fun h => by omega⟩
  | release j =>
    change Function.update s.lastRenew j none i = some t at ht
    by_cases hij : i = j
    · rw [hij, Function.update_self] at ht
      cases ht
    · rw [Function.update_of_ne hij] at ht
      obtain ⟨h₀, hle, h⟩ := h t ht
      refine ⟨h₀, hle, h.imp_left fun ⟨l, hl, hholder, hl'⟩ => ?_⟩
      rcases release_cases (ps j).elector s.lease s.now with heq | ⟨l', hl₂, hholder', -⟩
      · exact ⟨l, heq.trans hl, hholder, hl'⟩
      · -- Only the holder itself can release the lease.
        obtain rfl := Option.some.inj (hl.symm.trans hl₂)
        exact absurd (hname.unique j (hholder'.symm.trans hholder)).symm hij
  | tryAcquireOrRenew j =>
    rcases step_tryAcquireOrRenew ps s j with
      ⟨l, hl, -, -, -, heq⟩ | ⟨l, hl, hholder, heq⟩ | ⟨hfree, heq⟩
    · rw [heq] at ht ⊢
      exact h t ht
    · rw [heq] at ht ⊢
      change Function.update s.lastRenew j (some s.now) i = some t at ht
      by_cases hij : i = j
      · subst hij
        rw [Function.update_self] at ht
        obtain rfl := Option.some.inj ht
        exact ⟨hnow, le_refl s.now, Or.inl ⟨_, rfl, hholder, rfl, rfl⟩⟩
      · rw [Function.update_of_ne hij] at ht
        obtain ⟨h₀, hle, h⟩ := h t ht
        refine ⟨h₀, hle, Or.inr (h.resolve_left fun ⟨l', hl', hholder', _⟩ => ?_)⟩
        obtain rfl := Option.some.inj (hl.symm.trans hl')
        exact hij (hname.unique j (hholder.symm.trans hholder')).symm
    · rw [heq] at ht ⊢
      change Function.update s.lastRenew j (some s.now) i = some t at ht
      by_cases hij : i = j
      · subst hij
        rw [Function.update_self] at ht
        obtain rfl := Option.some.inj ht
        exact ⟨hnow, le_refl s.now, Or.inl ⟨_, rfl, rfl, rfl, rfl⟩⟩
      · rw [Function.update_of_ne hij] at ht
        obtain ⟨h₀, hle, h⟩ := h t ht
        refine ⟨h₀, hle, Or.inr ?_⟩
        rcases h with ⟨l, hl, hholder, hrenew, hduration⟩ | h
        · have hvalid := (hfree l hl).2.resolve_left (hholder ▸ hname.ne_empty)
          have hpos := (ps i).config.renewDeadline_pos
          have hlt := (ps i).config.renewDeadline_lt
          rw [InRange, I64.maxValue] at hrange
          rw [Lease.isValid, decide_eq_false_iff_not, hrenew, hduration,
            I64.wrappingAdd_eq (by rw [I64.minValue]; omega) (by rw [I64.maxValue]; omega)] at hvalid
          exact not_lt.mp hvalid
        · exact h

theorem Owes.run {i : ι} (hname : Named ps i) (h : s.Owes ps i) (hnow : 0 ≤ s.now)
    (steps : List (Step ι)) (hrange : (s.run ps steps).InRange ps i) :
    (s.run ps steps).Owes ps i := by
  induction steps generalizing s with
  | nil => exact h
  | cons a steps ih =>
    have hle := now_le_step ps s a
    have hle' := now_le_run ps (s.step ps a) steps
    have hrange' : s.InRange ps i := by
      unfold InRange at hrange ⊢
      change ((s.step ps a).run ps steps).now + _ ≤ _ at hrange
      omega
    exact ih (h.step hname hnow hrange' a) (hnow.trans hle) hrange

omit [DecidableEq ι] in
theorem Owes.holder {i : ι} (h : s.Owes ps i) (hrange : s.InRange ps i) (hleads : s.Leads ps i) :
    ∃ l, s.lease = some l ∧ l.holderIdentity = (ps i).identity := by
  obtain ⟨t, ht, hexceeded⟩ := hleads
  obtain ⟨h₀, hle, h⟩ := h t ht
  have hlt := (ps i).config.renewDeadline_lt
  have hpos := (ps i).config.renewDeadline_pos
  rw [InRange, I64.maxValue] at hrange
  rw [LeaderElectionConfig.renewDeadlineExceeded, decide_eq_false_iff_not,
    I64.wrappingAdd_eq (by rw [I64.minValue]; omega) (by rw [I64.maxValue]; omega)] at hexceeded
  rcases h with ⟨l, hl, hholder, -⟩ | h
  · exact ⟨l, hl, hholder⟩
  · omega

/-- The lease was taken before it was renewed, and the clock has not gone back. -/
def Ordered (s : Election ι) : Prop :=
  ∀ l, s.lease = some l → l.acquireTime ≤ l.renewTime ∧ l.renewTime ≤ s.now

theorem Ordered.step (h : s.Ordered) (a : Step ι) : (s.step ps a).Ordered := by
  cases a with
  | wait secs =>
    intro l hl
    obtain ⟨hle, hnow⟩ := h l hl
    have hstep : (s.step ps (.wait secs)).now = s.now + secs := rfl
    exact ⟨hle, by omega⟩
  | release i =>
    intro l hl
    change ((ps i).elector.release s.lease s.now).2 = some l at hl
    rcases release_cases (ps i).elector s.lease s.now with heq | ⟨l', hl', -, heq⟩
    · exact h l (heq.symm.trans hl)
    · obtain rfl := Option.some.inj (heq.symm.trans hl)
      obtain ⟨hle, hnow⟩ := h l' hl'
      exact ⟨hle.trans hnow, le_refl s.now⟩
  | tryAcquireOrRenew i =>
    intro l hl
    rcases step_tryAcquireOrRenew ps s i with
      ⟨-, -, -, -, -, heq⟩ | ⟨l', hl', -, heq⟩ | ⟨-, heq⟩
    · rw [heq] at hl ⊢
      exact h l hl
    · rw [heq] at hl ⊢
      obtain rfl := Option.some.inj hl
      obtain ⟨hle, hnow⟩ := h l' hl'
      exact ⟨hle.trans hnow, le_refl s.now⟩
    · rw [heq] at hl ⊢
      obtain rfl := Option.some.inj hl
      exact ⟨le_refl s.now, le_refl s.now⟩

theorem Ordered.run (h : s.Ordered) (steps : List (Step ι)) : (s.run ps steps).Ordered := by
  induction steps generalizing s with
  | nil => exact h
  | cons a steps ih => exact ih (h.step a)

/-- The step is an attempt that puts another identity into the lease. -/
def ChangesHolder (ps : ι → Participant) (s : Election ι) (a : Step ι) : Prop :=
  ∃ i l l', a = .tryAcquireOrRenew i ∧ s.lease = some l ∧ (s.step ps a).lease = some l' ∧
    l.holderIdentity ≠ (ps i).identity ∧ l'.holderIdentity = (ps i).identity

theorem leaseTransitions_step (s : Election ι) (a : Step ι) {l l' : Lease} (hl : s.lease = some l)
    (hl' : (s.step ps a).lease = some l') :
    s.ChangesHolder ps a ∧ l'.leaseTransitions = l.leaseTransitions + 1 ∨
      ¬s.ChangesHolder ps a ∧ l'.leaseTransitions = l.leaseTransitions := by
  cases a with
  | wait secs =>
    obtain rfl := Option.some.inj (hl.symm.trans hl')
    refine Or.inr ⟨?_, rfl⟩
    rintro ⟨_, _, _, ha, -⟩
    cases ha
  | release i =>
    change ((ps i).elector.release s.lease s.now).2 = some l' at hl'
    refine Or.inr ⟨?_, ?_⟩
    · rintro ⟨_, _, _, ha, -⟩
      cases ha
    rcases release_cases (ps i).elector s.lease s.now with heq | ⟨l₂, hl₂, -, heq⟩
    · rw [Option.some.inj (hl.symm.trans (heq.symm.trans hl'))]
    · rw [← Option.some.inj (heq.symm.trans hl'), Option.some.inj (hl.symm.trans hl₂)]
  | tryAcquireOrRenew i =>
    rcases step_tryAcquireOrRenew ps s i with
      ⟨l₂, hl₂, hholder, -, -, heq⟩ | ⟨l₂, hl₂, hholder, heq⟩ | ⟨hfree, heq⟩
    · obtain rfl := Option.some.inj (hl.symm.trans hl₂)
      rw [heq] at hl'
      obtain rfl := Option.some.inj (hl.symm.trans hl')
      refine Or.inr ⟨?_, rfl⟩
      rintro ⟨j, l₃, l₄, hj, hl₃, hl₄, hne, hid⟩
      obtain rfl := Step.tryAcquireOrRenew.inj hj
      rw [heq] at hl₄
      obtain rfl := Option.some.inj (hl₃.symm.trans hl₄)
      exact hne hid
    · obtain rfl := Option.some.inj (hl.symm.trans hl₂)
      refine Or.inr ⟨?_, ?_⟩
      · rintro ⟨j, l₃, l₄, hj, hl₃, -, hne, -⟩
        obtain rfl := Step.tryAcquireOrRenew.inj hj
        exact hne (Option.some.inj (hl.symm.trans hl₃) ▸ hholder)
      · rw [heq] at hl'
        rw [← Option.some.inj hl']
    · refine Or.inl ⟨⟨i, l, l', rfl, hl, hl', (hfree l hl).1, ?_⟩, ?_⟩
      · rw [heq] at hl'
        rw [← Option.some.inj hl']
      · rw [heq] at hl'
        rw [← Option.some.inj hl', hl, Option.elim_some]

end Run

/-- From a free lease, two participants that have their names alone never both believe that they
lead, as long as their times are in range; the times of the lease are in order; and its transitions
go up exactly when an attempt puts another identity into it. -/
theorem election_exclusive {ι : Type} [DecidableEq ι] (ps : ι → Participant) (start : Int)
    (hstart : 0 ≤ start) (steps : List (Step ι)) :
    let s := run ps { now := start } steps
    (∀ i j, Named ps i → Named ps j → (ps i).identity ≠ (ps j).identity →
      s.InRange ps i → s.InRange ps j → ¬(s.Leads ps i ∧ s.Leads ps j)) ∧
    (∀ l, s.lease = some l → l.acquireTime ≤ l.renewTime) ∧
    ∀ a l l', s.lease = some l → (s.step ps a).lease = some l' →
      (l.leaseTransitions < l'.leaseTransitions ↔ s.ChangesHolder ps a) ∧
        l.leaseTransitions ≤ l'.leaseTransitions := by
  intro s
  have howes : ∀ i, Named ps i → s.InRange ps i → s.Owes ps i := fun i hname hrange =>
    Owes.run hname (s := { now := start }) nofun hstart steps hrange
  refine ⟨fun i j hi hj hne hrangeᵢ hrangeⱼ ⟨hleadsᵢ, hleadsⱼ⟩ => ?_, fun l hl => ?_,
    fun a l l' hl hl' => ?_⟩
  · obtain ⟨l, hl, hholder⟩ := (howes i hi hrangeᵢ).holder hrangeᵢ hleadsᵢ
    obtain ⟨l', hl', hholder'⟩ := (howes j hj hrangeⱼ).holder hrangeⱼ hleadsⱼ
    obtain rfl := Option.some.inj (hl.symm.trans hl')
    exact hne (hholder.symm.trans hholder')
  · have hordered : Ordered s := Ordered.run (s := { now := start }) nofun steps
    exact (hordered l hl).1
  · rcases leaseTransitions_step s a hl hl' with ⟨hchange, heq⟩ | ⟨hchange, heq⟩
    · exact ⟨iff_of_true (by omega) hchange, by omega⟩
    · exact ⟨iff_of_false (by omega) hchange, by omega⟩

/-- A lease of 15 seconds, given up after 10 without a renewal. -/
def usual : LeaderElectionConfig where
  leaseDuration := 15
  renewDeadline := 10
  retryPeriod := 2
  renewDeadline_pos := by decide
  renewDeadline_lt := by decide
  retryPeriod_lt := by decide

/-- Two participants with names of their own take the lease one after the other. -/
theorem election_exclusive_pair :
    let ps : Bool → Participant := fun i => ⟨if i then "a" else "b", usual⟩
    let s := run ps { now := 0 } [.tryAcquireOrRenew true, .wait 15, .tryAcquireOrRenew false]
    ¬(s.Leads ps true ∧ s.Leads ps false) := by
  intro ps s
  have hname : ∀ i, Named ps i := by
    intro i
    refine ⟨?_, ?_⟩ <;> revert i <;> decide
  refine (election_exclusive ps 0 (le_refl 0)
    [.tryAcquireOrRenew true, .wait 15, .tryAcquireOrRenew false]).1 true false (hname true)
    (hname false) (by decide) ?_ ?_ <;> (unfold InRange; decide)

/-- Where two participants share a name, one of them can release the lease of the other, and then a
third one takes it; and the one that takes its lease again after releasing it counts as a
transition. -/
theorem election_shared_name :
    let ps : Fin 3 → Participant := fun i => ⟨if i = 2 then "b" else "a", usual⟩
    let taken : Election (Fin 3) := run ps { now := 0 }
      [.tryAcquireOrRenew 0, .release 1, .tryAcquireOrRenew 2]
    let again : Election (Fin 3) := run ps { now := 0 }
      [.tryAcquireOrRenew 0, .release 0, .tryAcquireOrRenew 0]
    (taken.Leads ps 0 ∧ taken.Leads ps 2 ∧ (ps 0).identity ≠ (ps 2).identity ∧
      (ps 0).identity ≠ "" ∧ (ps 2).identity ≠ "") ∧
    again.lease.map (·.leaseTransitions) = some 1 := by
  refine ⟨⟨⟨0, rfl, by decide⟩, ⟨0, rfl, by decide⟩, by decide, by decide, by decide⟩, by decide⟩

end Election

end CaveHome.ControllerManager
