import CaveHome.Alarm.Machine

/-!
# The alarm panel over whole runs

A run is watched from outside: how many wrong codes were tried since the last right one, and in
which state the panel was when the alarm started that is on.  The panel remembers exactly this, so
only a right code in time disarms it, and a siren that stops leaves it armed as it was.
-/

namespace CaveHome.Alarm

/-! ## Codes -/

theorem foldl_or_eq_zero (f : Nat → UInt8) (is : List Nat) (diff : UInt8) :
    is.foldl (fun diff i => diff ||| f i) diff = 0 ↔ diff = 0 ∧ ∀ i ∈ is, f i = 0 := by
  induction is generalizing diff with
  | nil => simp
  | cons i is ih =>
    rw [List.foldl_cons, ih, UInt8.or_eq_zero_iff, List.forall_mem_cons, and_assoc]

theorem CodeDigest.ctEq_iff {d e : CodeDigest} : d.ctEq e = true ↔ d = e := by
  have hbytes : d = e ↔ d.bytes = e.bytes := by
    cases d
    cases e
    simp
  rw [ctEq, beq_iff_eq, foldl_or_eq_zero, hbytes]
  constructor
  · rintro ⟨-, h⟩
    refine List.ext_getElem (d.length_bytes.trans e.length_bytes.symm) fun i hd he => ?_
    have hi := h i (List.mem_range.mpr (d.length_bytes ▸ hd))
    rw [UInt8.xor_eq_zero_iff, List.getD_eq_getElem?_getD, List.getD_eq_getElem?_getD,
      List.getElem?_eq_getElem hd, List.getElem?_eq_getElem he] at hi
    exact hi
  · intro h
    refine ⟨rfl, fun i _ => ?_⟩
    rw [h, UInt8.xor_self]

theorem CodeCredential.verify_of_locked {c : CodeCredential} (h : c.isLockedOut = true)
    (presented : UserCode) : c.verify presented = (.lockedOut, c) := by
  rw [verify, if_pos h]

theorem CodeCredential.verify_of_right {c : CodeCredential} {presented : UserCode}
    (h : c.isLockedOut = false) (hright : presented.digest = c.expected) :
    c.verify presented = (.accepted, c.reset) := by
  rw [verify, h, if_neg (by decide), if_pos (CodeDigest.ctEq_iff.mpr hright)]
  rfl

theorem CodeCredential.verify_of_wrong {c : CodeCredential} {presented : UserCode}
    (h : c.isLockedOut = false) (hwrong : presented.digest ≠ c.expected) :
    ∃ v, v ≠ .accepted ∧ c.verify presented = (v, { c with failures := c.failures + 1 }) := by
  have hlt : c.failures < c.maxFailures := by
    rw [isLockedOut, decide_eq_false_iff_not] at h
    omega
  have hmin : min (c.failures + 1) 4294967295 = c.failures + 1 := by
    have := c.maxFailures_le
    omega
  rw [verify, h, if_neg (by decide), if_neg (mt CodeDigest.ctEq_iff.mp hwrong)]
  dsimp only
  rw [hmin]
  refine ⟨_, ?_, rfl⟩
  split <;> decide

/-! ## Calls -/

/-- A call of the panel. -/
inductive Call
  | apply (command : AlarmCommand)
  | applyWithCode (command : AlarmCommand) (presented : UserCode)
  | sensorTrip (zone : Zone)
  | tick (secs : Nat)

namespace AlarmPanel

/-- What the call returns, and the panel after it. -/
def call (p : AlarmPanel) : Call → Except AlarmError AlarmState × AlarmPanel
  | .apply command => p.apply command
  | .applyWithCode command presented => p.applyWithCode command presented
  | .sensorTrip zone => (.ok (p.sensorTrip zone).state, p.sensorTrip zone)
  | .tick secs => (.ok (p.tick secs).state, p.tick secs)

/-- Whether the call compares a code, and whether it is the right one. -/
def triedCode (p : AlarmPanel) : Call → Option Bool
  | .applyWithCode command presented =>
    if p.checkLegal command = .ok () ∧ p.code.isLockedOut = false then
      some (decide (presented.digest = p.code.expected))
    else none
  | _ => none

theorem checkLegal_cases (p : AlarmPanel) (command : AlarmCommand) :
    p.checkLegal command = .ok () ∨ p.checkLegal command = .error .illegalTransition := by
  unfold checkLegal
  cases command <;> dsimp only <;> split_ifs <;> simp

theorem checkLegal_withCode (p : AlarmPanel) (code : CodeCredential) (command : AlarmCommand) :
    { p with code }.checkLegal command = p.checkLegal command := by
  cases command <;> rfl

theorem applyValidated_of_legal {p : AlarmPanel} {command : AlarmCommand}
    (h : p.checkLegal command = .ok ()) :
    p.applyValidated command = (.ok (p.applied command).state, p.applied command) := by
  rw [applyValidated, h]

/-- What a call does. -/
inductive Does (p : AlarmPanel) : Call → Except AlarmError AlarmState → AlarmPanel → Prop
  /-- A command was refused. -/
  | refused {c : Call} {e : AlarmError} (hcommand : (∀ z, c ≠ .sensorTrip z) ∧ ∀ n, c ≠ .tick n)
      (htried : p.triedCode c = none) : Does p c (.error e) p
  /-- A wrong code was tried. -/
  | rejected {command : AlarmCommand} {presented : UserCode} {c : Call}
      (hcall : c = .applyWithCode command presented) (hlegal : p.checkLegal command = .ok ())
      (htried : p.triedCode c = some false) :
      Does p c (.error .codeRejected) { p with code.failures := p.code.failures + 1 }
  /-- A command that needs no code. -/
  | commanded {command : AlarmCommand} {c : Call} (hcall : c = .apply command)
      (hlegal : p.checkLegal command = .ok ()) (hcode : command ≠ .disarm)
      (htried : p.triedCode c = none) : Does p c (.ok (p.applied command).state) (p.applied command)
  /-- A command with the right code. -/
  | accepted {command : AlarmCommand} {presented : UserCode} {c : Call}
      (hcall : c = .applyWithCode command presented) (hlegal : p.checkLegal command = .ok ())
      (hlocked : p.code.isLockedOut = false) (hright : presented.digest = p.code.expected)
      (htried : p.triedCode c = some true) :
      Does p c (.ok ({ p with code := p.code.reset }.applied command).state)
        ({ p with code := p.code.reset }.applied command)
  | tripped (zone : Zone) :
      Does p (.sensorTrip zone) (.ok (p.sensorTrip zone).state) (p.sensorTrip zone)
  | ticked (secs : Nat) : Does p (.tick secs) (.ok (p.tick secs).state) (p.tick secs)

theorem call_does (p : AlarmPanel) (c : Call) : p.Does c (p.call c).1 (p.call c).2 := by
  cases c with
  | sensorTrip zone => exact .tripped zone
  | tick secs => exact .ticked secs
  | apply command =>
    change p.Does _ (p.apply command).1 (p.apply command).2
    unfold apply
    split_ifs with hcode
    · exact .refused ⟨nofun, nofun⟩ rfl
    · rcases p.checkLegal_cases command with hlegal | hlegal
      · rw [applyValidated_of_legal hlegal]
        exact .commanded rfl hlegal (fun hd => hcode (by rw [hd]; rfl)) rfl
      · rw [applyValidated, hlegal]
        exact .refused ⟨nofun, nofun⟩ rfl
  | applyWithCode command presented =>
    change p.Does _ (p.applyWithCode command presented).1 (p.applyWithCode command presented).2
    unfold applyWithCode
    rcases p.checkLegal_cases command with hlegal | hlegal
    · rw [hlegal]
      dsimp only
      cases hlocked : p.code.isLockedOut with
      | true =>
        rw [CodeCredential.verify_of_locked hlocked]
        exact .refused ⟨nofun, nofun⟩ (if_neg (by simp [hlocked]))
      | false =>
        by_cases hright : presented.digest = p.code.expected
        · rw [CodeCredential.verify_of_right hlocked hright]
          dsimp only
          rw [applyValidated_of_legal ((p.checkLegal_withCode _ command).trans hlegal)]
          have htried : p.triedCode (.applyWithCode command presented) = some true := by
            rw [triedCode, if_pos ⟨hlegal, hlocked⟩, decide_eq_true hright]
          exact .accepted rfl hlegal hlocked hright htried
        · obtain ⟨v, hv, hverify⟩ := CodeCredential.verify_of_wrong hlocked hright
          have htried : p.triedCode (.applyWithCode command presented) = some false := by
            rw [triedCode, if_pos ⟨hlegal, hlocked⟩, decide_eq_false hright]
          rw [hverify]
          cases v with
          | accepted => exact absurd rfl hv
          | rejected => exact .rejected rfl hlegal htried
          | lockedOut => exact .rejected rfl hlegal htried
    · rw [hlegal]
      exact .refused ⟨nofun, nofun⟩ (if_neg (by simp [hlegal]))

end AlarmPanel

/-! ## What the panel remembers -/

/-- Whether the alarm is on: the entry delay runs or the siren sounds. -/
def AlarmState.inAlarm : AlarmState → Bool
  | pending | triggered => true
  | _ => false

theorem AlarmState.inAlarm_iff {s : AlarmState} :
    s.inAlarm = true ↔ s = .pending ∨ s = .triggered := by
  cases s <;> simp [inAlarm]

theorem AlarmState.inAlarm_of_isArmed {s : AlarmState} (h : s.isArmed = true) :
    s.inAlarm = false := by
  cases s <;> first | rfl | cases h

theorem AlarmCommand.targetArmedState_isArmed {command : AlarmCommand} {target : AlarmState}
    (h : command.targetArmedState = some target) : target.isArmed = true := by
  cases command <;> cases h <;> rfl

theorem AlarmPanel.applied_arm (p : AlarmPanel) {command : AlarmCommand} {target : AlarmState}
    (h : command.targetArmedState = some target) :
    p.applied command =
      if p.config.exitDelay = 0 then { p with state := target, elapsed := 0, pendingArm := none }
      else { p with state := .arming, elapsed := 0, pendingArm := some target } := by
  cases command <;> cases h <;> rfl

theorem AlarmPanel.inAlarm_of_arm (p : AlarmPanel) {command : AlarmCommand} {target : AlarmState}
    (h : command.targetArmedState = some target) (hlegal : p.checkLegal command = .ok ()) :
    p.state.inAlarm = false := by
  have hstate : ¬(p.state = .pending ∨ p.state = .triggered) := by
    intro hs
    cases command <;> cases h <;> simp [checkLegal, hs] at hlegal
  cases hs : p.state <;> simp [hs] at hstate <;> rfl

theorem AlarmPanel.sensorTrip_cases (p : AlarmPanel) (zone : Zone) :
    p.sensorTrip zone = p ∨
      p.state.isArmed = true ∧ ∃ s : AlarmState, s.inAlarm = true ∧
        p.sensorTrip zone = { p with priorArmed := some p.state, elapsed := 0, state := s } := by
  unfold sensorTrip
  split
  · exact Or.inl rfl
  next harmed =>
    dsimp only
    split
    · exact Or.inl rfl
    · refine Or.inr ⟨by simpa using harmed, _, ?_, rfl⟩
      split <;> rfl

/-- What a tick does to the state. -/
inductive AlarmPanel.Ticks (p : AlarmPanel) : AlarmPanel → Prop
  | waits (elapsed : Nat) : Ticks p { p with elapsed }
  | arms (hstate : p.state = .arming) :
    Ticks p { p with state := p.pendingArm.getD .armedAway, pendingArm := none, elapsed := 0 }
  | sounds (hstate : p.state = .pending) : Ticks p { p with state := .triggered, elapsed := 0 }
  | stops (prior : AlarmState) (hstate : p.state = .triggered) (hprior : p.priorArmed = some prior) :
    Ticks p { p with state := prior, priorArmed := none, elapsed := 0 }

theorem AlarmPanel.tick_ticks (p : AlarmPanel) (secs : Nat) : p.Ticks (p.tick secs) := by
  have hself : p.Ticks p := .waits p.elapsed
  unfold tick
  split
  · exact hself
  · dsimp only
    split
    next hstate =>
      split
      · exact .arms hstate
      · exact .waits _
    next hstate =>
      split
      · exact .sounds hstate
      · exact .waits _
    next hstate =>
      split
      · split
        next prior _ hprior => exact .stops prior hstate hprior
        next => exact .waits _
      · exact .waits _
    next => exact .waits _

/-- The state in which the alarm that is on in the second state started. -/
def alarmFromAfter (start : Option AlarmState) (before after : AlarmState) : Option AlarmState :=
  if after.inAlarm then if before.inAlarm then start else some before else none

/-- The panel remembers the armed state in which the alarm started. -/
structure Remembers (p : AlarmPanel) (start : Option AlarmState) : Prop where
  pendingArm : ∀ target, p.pendingArm = some target → target.isArmed
  priorArmed : p.priorArmed = start.filter AlarmState.isArmed
  start_isSome : start.isSome = p.state.inAlarm

namespace Remembers

variable {p : AlarmPanel} {start : Option AlarmState}

theorem start_eq_none (h : Remembers p start) (hs : p.state.inAlarm = false) : start = none := by
  have hsome := h.start_isSome
  rw [hs] at hsome
  cases start with
  | none => rfl
  | some s => cases hsome

theorem prior_isArmed (h : Remembers p start) {prior : AlarmState}
    (hprior : p.priorArmed = some prior) : prior.isArmed ∧ start = some prior := by
  rw [h.priorArmed, Option.filter_eq_some_iff] at hprior
  exact ⟨hprior.2, hprior.1⟩

theorem withCode (h : Remembers p start) (code : CodeCredential) :
    Remembers { p with code } start :=
  ⟨h.pendingArm, h.priorArmed, h.start_isSome⟩

theorem start_after (h : Remembers p start) {s : AlarmState} (hs : s.inAlarm = p.state.inAlarm) :
    alarmFromAfter start p.state s = start := by
  unfold alarmFromAfter
  rw [hs]
  cases hp : p.state.inAlarm with
  | true => rfl
  | false => exact (h.start_eq_none hp).symm

theorem isSome_alarmFromAfter (h : Remembers p start) (s : AlarmState) :
    (alarmFromAfter start p.state s).isSome = s.inAlarm := by
  unfold alarmFromAfter
  split_ifs with hs hp
  · rw [h.start_isSome, hp, hs]
  · rw [hs]
    rfl
  · rw [Bool.not_eq_true] at hs
    rw [hs]
    rfl

theorem leaves (h : Remembers p start) {p' : AlarmPanel}
    (hs : p'.state.inAlarm = false) (hprior : p'.priorArmed = none)
    (hpending : ∀ target, p'.pendingArm = some target → target.isArmed) :
    Remembers p' (alarmFromAfter start p.state p'.state) := by
  refine ⟨hpending, ?_, h.isSome_alarmFromAfter _⟩
  rw [hprior, alarmFromAfter, hs]
  rfl

theorem applied (h : Remembers p start) {command : AlarmCommand}
    (hlegal : p.checkLegal command = .ok ()) :
    Remembers (p.applied command)
      (alarmFromAfter start p.state (p.applied command).state) := by
  have harm : ∀ target, command.targetArmedState = some target → Remembers (p.applied command)
      (alarmFromAfter start p.state (p.applied command).state) := by
    intro target htarget
    have harmed := AlarmCommand.targetArmedState_isArmed htarget
    have hprior : p.priorArmed = none := by
      rw [h.priorArmed, h.start_eq_none (p.inAlarm_of_arm htarget hlegal)]
      rfl
    rw [p.applied_arm htarget]
    split
    · exact h.leaves (AlarmState.inAlarm_of_isArmed harmed) hprior nofun
    · exact h.leaves rfl hprior fun _ ht => Option.some.inj ht ▸ harmed
  cases command with
  | disarm => exact h.leaves rfl rfl nofun
  | trigger =>
    refine ⟨h.pendingArm, ?_, h.isSome_alarmFromAfter _⟩
    change (if p.state.isArmed then some p.state else p.priorArmed) =
      (if p.state.inAlarm then start else some p.state).filter AlarmState.isArmed
    split_ifs with harmed halarm halarm
    · rw [AlarmState.inAlarm_of_isArmed harmed] at halarm
      cases halarm
    · rw [Option.filter_some, if_pos harmed]
    · exact h.priorArmed
    · rw [Option.filter_some, if_neg harmed, h.priorArmed,
        h.start_eq_none (Bool.not_eq_true _ ▸ halarm)]
      rfl
  | armHome => exact harm _ rfl
  | armAway => exact harm _ rfl
  | armNight => exact harm _ rfl
  | armVacation => exact harm _ rfl

theorem sensorTrip (h : Remembers p start) (zone : Zone) :
    Remembers (p.sensorTrip zone)
      (alarmFromAfter start p.state (p.sensorTrip zone).state) := by
  rcases p.sensorTrip_cases zone with heq | ⟨harmed, s, halarm, heq⟩
  · rw [heq, h.start_after rfl]
    exact h
  · rw [heq]
    refine ⟨h.pendingArm, ?_, h.isSome_alarmFromAfter _⟩
    dsimp only
    rw [alarmFromAfter, if_pos halarm, AlarmState.inAlarm_of_isArmed harmed, if_neg (by decide),
      Option.filter_some, if_pos harmed]

theorem waits (h : Remembers p start) (elapsed : Nat) :
    Remembers { p with elapsed } (alarmFromAfter start p.state p.state) := by
  rw [h.start_after rfl]
  exact ⟨h.pendingArm, h.priorArmed, h.start_isSome⟩

theorem tick (h : Remembers p start) (secs : Nat) :
    Remembers (p.tick secs) (alarmFromAfter start p.state (p.tick secs).state) := by
  generalize p.tick secs = p', p.tick_ticks secs = hticks
  cases hticks with
  | waits elapsed => exact h.waits elapsed
  | arms hstate =>
    have harmed : (p.pendingArm.getD .armedAway).isArmed = true := by
      cases hpending : p.pendingArm with
      | none => rfl
      | some target => exact h.pendingArm target hpending
    have hprior : p.priorArmed = none := by
      rw [h.priorArmed, h.start_eq_none (by rw [hstate]; rfl)]
      rfl
    exact h.leaves (AlarmState.inAlarm_of_isArmed harmed) hprior nofun
  | sounds hstate =>
    refine ⟨h.pendingArm, ?_, h.isSome_alarmFromAfter _⟩
    rw [h.start_after (by rw [hstate]; rfl)]
    exact h.priorArmed
  | stops prior hstate hprior =>
    exact h.leaves (AlarmState.inAlarm_of_isArmed (h.prior_isArmed hprior).1) rfl h.pendingArm

theorem state_tick (h : Remembers p start) (secs : Nat) :
    (p.tick secs).state = p.state ∨
      p.state = .pending ∧ (p.tick secs).state = .triggered ∨
      p.state = .arming ∧ (p.tick secs).state.isArmed ∨
      p.state = .triggered ∧ (p.tick secs).state.isArmed ∧ start = some (p.tick secs).state := by
  generalize p.tick secs = p', p.tick_ticks secs = hticks
  cases hticks with
  | waits elapsed => exact Or.inl rfl
  | arms hstate =>
    refine Or.inr (Or.inr (Or.inl ⟨hstate, ?_⟩))
    cases hpending : p.pendingArm with
    | none => rfl
    | some target => exact h.pendingArm target hpending
  | sounds hstate => exact Or.inr (Or.inl ⟨hstate, rfl⟩)
  | stops prior hstate hprior => exact Or.inr (Or.inr (Or.inr ⟨hstate, h.prior_isArmed hprior⟩))

end Remembers

/-! ## Runs -/

/-- A panel that is watched: the number of wrong codes that were tried since the last right one, and
the state in which the alarm that is on started. -/
structure Watch where
  panel : AlarmPanel
  wrongCodes : Nat
  alarmFrom : Option AlarmState

namespace Watch

def new (config : PanelConfig) (code : UserCode) (maxFailures : UInt32) : Watch where
  panel := .new config (.enrollWithLimit code maxFailures)
  wrongCodes := 0
  alarmFrom := none

def step (w : Watch) (c : Call) : Watch where
  panel := (w.panel.call c).2
  wrongCodes :=
    match w.panel.triedCode c with
    | none => w.wrongCodes
    | some false => w.wrongCodes + 1
    | some true => 0
  alarmFrom := alarmFromAfter w.alarmFrom w.panel.state (w.panel.call c).2.state

def run (w : Watch) (calls : List Call) : Watch := calls.foldl step w

/-- What is known of the panel from having watched it. -/
structure Inv (code : UserCode) (maxFailures : UInt32) (w : Watch) : Prop where
  expected : w.panel.code.expected = code.digest
  maxFailures : w.panel.code.maxFailures = maxFailures.toNat
  failures : w.panel.code.failures = w.wrongCodes
  remembers : Remembers w.panel w.alarmFrom

variable {code : UserCode} {maxFailures : UInt32} {w : Watch}

theorem inv_new (config : PanelConfig) (code : UserCode) (maxFailures : UInt32) :
    Inv code maxFailures (new config code maxFailures) :=
  ⟨rfl, rfl, rfl, nofun, rfl, rfl⟩

theorem code_applied (p : AlarmPanel) (command : AlarmCommand) :
    (p.applied command).code = if command = .disarm then p.code.reset else p.code := by
  cases command <;> simp only [AlarmPanel.applied, reduceCtorEq, if_true, if_false] <;> split <;> rfl

theorem code_sensorTrip (p : AlarmPanel) (zone : Zone) : (p.sensorTrip zone).code = p.code := by
  rcases p.sensorTrip_cases zone with heq | ⟨-, s, -, heq⟩ <;> rw [heq]

theorem code_tick (p : AlarmPanel) (secs : Nat) : (p.tick secs).code = p.code := by
  generalize p.tick secs = p', p.tick_ticks secs = hticks
  cases hticks <;> rfl

theorem Inv.step (h : Inv code maxFailures w) (c : Call) : Inv code maxFailures (w.step c) := by
  obtain ⟨hexpected, hmax, hfailures, hremembers⟩ := h
  unfold Watch.step
  generalize (w.panel.call c).1 = r, (w.panel.call c).2 = p', w.panel.call_does c = hdoes
  cases hdoes with
  | refused _ htried =>
    rw [htried, hremembers.start_after rfl]
    exact ⟨hexpected, hmax, hfailures, hremembers⟩
  | rejected hcall hlegal htried =>
    rw [htried, hremembers.start_after rfl]
    exact ⟨hexpected, hmax, congrArg (· + 1) hfailures, hremembers.withCode _⟩
  | @commanded command _ hcall hlegal hcode htried =>
    rw [htried]
    refine ⟨?_, ?_, ?_, hremembers.applied hlegal⟩ <;>
      (dsimp only; rw [code_applied, if_neg hcode]; assumption)
  | @accepted command presented _ hcall hlegal hlocked hright htried =>
    rw [htried]
    have hcode := code_applied { w.panel with code := w.panel.code.reset } command
    have hlegal' := (w.panel.checkLegal_withCode w.panel.code.reset command).trans hlegal
    refine ⟨?_, ?_, ?_, (hremembers.withCode _).applied hlegal'⟩ <;>
      (dsimp only; rw [hcode]; split) <;> first | assumption | rfl
  | tripped zone =>
    refine ⟨?_, ?_, ?_, hremembers.sensorTrip zone⟩ <;>
      (dsimp only [AlarmPanel.triedCode]; rw [code_sensorTrip]; assumption)
  | ticked secs =>
    refine ⟨?_, ?_, ?_, hremembers.tick secs⟩ <;>
      (dsimp only [AlarmPanel.triedCode]; rw [code_tick]; assumption)

theorem Inv.run (h : Inv code maxFailures w) (calls : List Call) :
    Inv code maxFailures (w.run calls) := by
  induction calls generalizing w with
  | nil => exact h
  | cons c calls ih => exact ih (h.step c)

/-! ## Safety -/

theorem state_applied_eq_disarmed {p : AlarmPanel} {command : AlarmCommand}
    (h : (p.applied command).state = .disarmed) : command = .disarm := by
  cases command with
  | disarm => rfl
  | trigger => cases h
  | armHome | armAway | armNight | armVacation =>
    simp only [AlarmPanel.applied, AlarmCommand.targetArmedState, Option.getD_some] at h
    split at h <;> cases h

theorem inAlarm_applied {p : AlarmPanel} {command : AlarmCommand}
    (hlegal : p.checkLegal command = .ok ()) (hp : p.state.inAlarm = true)
    (h : (p.applied command).state.inAlarm = false) : command = .disarm := by
  have harm : ∀ target, command.targetArmedState ≠ some target := by
    intro target htarget
    rw [p.inAlarm_of_arm htarget hlegal] at hp
    cases hp
  cases command with
  | disarm => rfl
  | trigger => cases h
  | armHome | armAway | armNight | armVacation => exact absurd rfl (harm _)

/-- What a call of a watched panel does not do. -/
structure Safe (code : UserCode) (maxFailures : UInt32) (w : Watch) (c : Call) : Prop where
  /-- Only a right code disarms the panel, and only while the keypad is not locked. -/
  disarmed : w.panel.state ≠ .disarmed → (w.panel.call c).2.state = .disarmed →
    ∃ presented, c = .applyWithCode .disarm presented ∧ presented.digest = code.digest ∧
      w.wrongCodes < maxFailures.toNat
  /-- After too many wrong codes nothing disarms the panel, and commands with a code fail. -/
  locked : maxFailures.toNat ≤ w.wrongCodes → ∀ later : List Call,
    ((w.run later).panel.state ≠ .disarmed →
      ((w.run later).panel.call c).2.state ≠ .disarmed) ∧
    ∀ command presented, ∃ e,
      (w.run later).panel.applyWithCode command presented = (.error e, (w.run later).panel)
  /-- A call that fails changes nothing but the number of wrong codes. -/
  kept : ∀ e, (w.panel.call c).1 = .error e → ∃ failures,
    (w.panel.call c).2 = { w.panel with code.failures := failures }
  /-- An illegal command does not change that number either. -/
  illegal : ∀ command presented, w.panel.checkLegal command ≠ .ok () →
    (w.panel.apply command).2 = w.panel ∧ (w.panel.applyWithCode command presented).2 = w.panel
  /-- The remembered armed state is there during an alarm only. -/
  prior_inAlarm : w.panel.priorArmed ≠ none → w.panel.state = .pending ∨ w.panel.state = .triggered
  /-- It is the armed state in which the alarm started. -/
  prior_eq : w.panel.priorArmed = w.alarmFrom.filter AlarmState.isArmed
  /-- When the siren stops, the panel is armed as it was. -/
  siren : w.panel.state = .triggered → ∀ secs, (w.panel.tick secs).state ≠ .triggered →
    (w.panel.tick secs).state.isArmed ∧ w.alarmFrom = some (w.panel.tick secs).state
  /-- An alarm that did not start in an armed state ends with a right code only. -/
  unarmed : ∀ s, w.alarmFrom = some s → ¬s.isArmed → (w.panel.call c).2.state.inAlarm = false →
    ∃ presented, c = .applyWithCode .disarm presented ∧ presented.digest = code.digest

section Safe

variable (h : Inv code maxFailures w)
include h

theorem Inv.disarmed {c : Call} (hbefore : w.panel.state ≠ .disarmed)
    (hafter : (w.panel.call c).2.state = .disarmed) :
    ∃ presented, c = .applyWithCode .disarm presented ∧ presented.digest = code.digest ∧
      w.wrongCodes < maxFailures.toNat := by
  generalize (w.panel.call c).1 = r, (w.panel.call c).2 = p', w.panel.call_does c = hdoes at hafter
  cases hdoes with
  | refused _ _ => exact absurd hafter hbefore
  | rejected _ _ _ => exact absurd hafter hbefore
  | commanded _ _ hcode _ => exact absurd (state_applied_eq_disarmed hafter) hcode
  | @accepted command presented _ hcall _ hlocked hright _ =>
    obtain rfl := state_applied_eq_disarmed hafter
    refine ⟨presented, hcall, hright.trans h.expected, ?_⟩
    rw [CodeCredential.isLockedOut, decide_eq_false_iff_not, h.maxFailures, h.failures] at hlocked
    omega
  | tripped zone =>
    rcases w.panel.sensorTrip_cases zone with heq | ⟨-, s, halarm, heq⟩
    · rw [heq] at hafter
      exact absurd hafter hbefore
    · rw [heq] at hafter
      rw [show s = .disarmed from hafter] at halarm
      cases halarm
  | ticked secs =>
    rcases h.remembers.state_tick secs with heq | ⟨-, heq⟩ | ⟨-, harmed⟩ | ⟨-, harmed, -⟩
    · exact absurd (heq.symm.trans hafter) hbefore
    · rw [hafter] at heq
      cases heq
    · rw [hafter] at harmed
      cases harmed
    · rw [hafter] at harmed
      cases harmed

theorem Inv.triedCode_of_locked (hlocked : maxFailures.toNat ≤ w.wrongCodes) (c : Call) :
    w.panel.triedCode c = none := by
  have hlock : w.panel.code.isLockedOut = true := by
    rw [CodeCredential.isLockedOut, decide_eq_true_iff, h.maxFailures, h.failures]
    exact hlocked
  cases c with
  | applyWithCode command presented => exact if_neg (by simp [hlock])
  | apply command => rfl
  | sensorTrip zone => rfl
  | tick secs => rfl

theorem Inv.locked_run (hlocked : maxFailures.toNat ≤ w.wrongCodes) (calls : List Call) :
    maxFailures.toNat ≤ (w.run calls).wrongCodes := by
  induction calls generalizing w with
  | nil => exact hlocked
  | cons c calls ih =>
    refine ih (h.step c) ?_
    rw [Watch.step, h.triedCode_of_locked hlocked c]
    exact hlocked

theorem Inv.applyWithCode_of_locked (hlocked : maxFailures.toNat ≤ w.wrongCodes)
    (command : AlarmCommand) (presented : UserCode) :
    ∃ e, w.panel.applyWithCode command presented = (.error e, w.panel) := by
  have hnone := h.triedCode_of_locked hlocked (.applyWithCode command presented)
  have hdoes := w.panel.call_does (.applyWithCode command presented)
  change AlarmPanel.Does _ _ (w.panel.applyWithCode command presented).1
    (w.panel.applyWithCode command presented).2 at hdoes
  generalize w.panel.applyWithCode command presented = result at hdoes
  obtain ⟨r, p'⟩ := result
  cases hdoes with
  | refused _ _ => exact ⟨_, rfl⟩
  | rejected _ _ htried =>
    rw [hnone] at htried
    cases htried
  | commanded hcall _ _ _ => cases hcall
  | accepted _ _ _ _ htried =>
    rw [hnone] at htried
    cases htried

theorem Inv.unarmed {c : Call} {s : AlarmState} (hfrom : w.alarmFrom = some s) (hs : ¬s.isArmed)
    (hafter : (w.panel.call c).2.state.inAlarm = false) :
    ∃ presented, c = .applyWithCode .disarm presented ∧ presented.digest = code.digest := by
  have hbefore : w.panel.state.inAlarm = true := by
    rw [← h.remembers.start_isSome, hfrom]
    rfl
  generalize (w.panel.call c).1 = r, (w.panel.call c).2 = p', w.panel.call_does c = hdoes at hafter
  cases hdoes with
  | refused _ _ => exact absurd hafter (by simp [hbefore])
  | rejected _ _ _ => exact absurd hafter (by simp [hbefore])
  | commanded _ hlegal hcode _ => exact absurd (inAlarm_applied hlegal hbefore hafter) hcode
  | @accepted command presented _ hcall hlegal _ hright _ =>
    have hlegal' := (w.panel.checkLegal_withCode w.panel.code.reset command).trans hlegal
    obtain rfl := inAlarm_applied hlegal' hbefore hafter
    exact ⟨presented, hcall, hright.trans h.expected⟩
  | tripped zone =>
    rcases w.panel.sensorTrip_cases zone with heq | ⟨harmed, -⟩
    · rw [heq, hbefore] at hafter
      cases hafter
    · rw [AlarmState.inAlarm_of_isArmed harmed] at hbefore
      cases hbefore
  | ticked secs =>
    rcases h.remembers.state_tick secs with heq | ⟨-, heq⟩ | ⟨hstate, -⟩ | ⟨-, harmed, hstart⟩
    · rw [heq, hbefore] at hafter
      cases hafter
    · rw [heq] at hafter
      cases hafter
    · rw [hstate] at hbefore
      cases hbefore
    · rw [hfrom] at hstart
      exact absurd (Option.some.inj hstart ▸ harmed) hs

end Safe

theorem kept_of_error (p : AlarmPanel) {c : Call} {e : AlarmError} (herror : (p.call c).1 = .error e) :
    ∃ failures, (p.call c).2 = { p with code.failures := failures } := by
  generalize (p.call c).1 = r, (p.call c).2 = p', p.call_does c = hdoes at herror
  cases hdoes with
  | refused _ _ => exact ⟨_, rfl⟩
  | rejected _ _ _ => exact ⟨_, rfl⟩
  | commanded _ _ _ _ => cases herror
  | accepted _ _ _ _ _ => cases herror
  | tripped zone => cases herror
  | ticked secs => cases herror

theorem unchanged_of_illegal (p : AlarmPanel) {command : AlarmCommand} (presented : UserCode)
    (h : p.checkLegal command ≠ .ok ()) :
    (p.apply command).2 = p ∧ (p.applyWithCode command presented).2 = p := by
  have hlegal := (p.checkLegal_cases command).resolve_left h
  constructor
  · rw [AlarmPanel.apply, AlarmPanel.applyValidated, hlegal]
    split <;> rfl
  · rw [AlarmPanel.applyWithCode, hlegal]

/-- Whatever was done with a new panel, the next call is safe. -/
theorem alarm_safe (config : PanelConfig) (code : UserCode) (maxFailures : UInt32)
    (calls : List Call) (c : Call) :
    Safe code maxFailures ((new config code maxFailures).run calls) c := by
  have h := (inv_new config code maxFailures).run calls
  generalize (new config code maxFailures).run calls = w at h
  refine ⟨fun hbefore hafter => h.disarmed hbefore hafter, fun hlocked later => ⟨?_, ?_⟩,
    fun e => kept_of_error w.panel, fun command presented => unchanged_of_illegal w.panel presented,
    fun hprior => ?_, h.remembers.priorArmed, fun hstate secs hstops => ?_,
    fun s hfrom hs hafter => h.unarmed hfrom hs hafter⟩
  · intro hbefore hafter
    obtain ⟨-, -, -, hlt⟩ := (h.run later).disarmed hbefore hafter
    exact absurd (h.locked_run hlocked later) (by omega)
  · exact (h.run later).applyWithCode_of_locked (h.locked_run hlocked later)
  · obtain ⟨prior, hprior⟩ := Option.ne_none_iff_exists'.mp hprior
    have hsome := h.remembers.start_isSome
    rw [(h.remembers.prior_isArmed hprior).2] at hsome
    exact AlarmState.inAlarm_iff.mp hsome.symm
  · rcases h.remembers.state_tick secs with heq | ⟨-, heq⟩ | ⟨harming, -⟩ | ⟨-, harmed, hstart⟩
    · exact absurd (heq.trans hstate) hstops
    · exact absurd heq hstops
    · rw [hstate] at harming
      cases harming
    · exact ⟨harmed, hstart⟩

end Watch

/-! ## Slices of time -/

namespace AlarmPanel

variable {p : AlarmPanel} {a b : Nat}

theorem tick_of_settled (h : p.state.isTransient = false) (h' : p.state.isTriggered = false)
    (secs : Nat) : p.tick secs = p := by
  unfold tick
  rw [if_pos ⟨by simp [h], by simp [h']⟩]

theorem tick_of_isArmed (h : p.state.isArmed = true) (secs : Nat) : p.tick secs = p := by
  refine tick_of_settled ?_ ?_ secs
  · cases hs : p.state <;> rw [hs] at h <;> first | rfl | cases h
  · cases hs : p.state <;> rw [hs] at h <;> first | rfl | cases h

theorem tick_arming (h : p.state = .arming) {secs : Nat} (hsecs : p.elapsed + secs ≤ 4294967295) :
    p.tick secs = if p.config.exitDelay ≤ p.elapsed + secs then
      { p with state := p.pendingArm.getD .armedAway, pendingArm := none, elapsed := 0 }
    else { p with elapsed := p.elapsed + secs } := by
  unfold tick
  rw [if_neg (by simp [h, AlarmState.isTransient])]
  dsimp only
  rw [h, Nat.min_eq_left hsecs]

theorem tick_pending (h : p.state = .pending) {secs : Nat}
    (hsecs : p.elapsed + secs ≤ 4294967295) :
    p.tick secs = if p.config.entryDelay ≤ p.elapsed + secs then
      { p with state := .triggered, elapsed := 0 }
    else { p with elapsed := p.elapsed + secs } := by
  unfold tick
  rw [if_neg (by simp [h, AlarmState.isTransient])]
  dsimp only
  rw [h, Nat.min_eq_left hsecs]

/-- The armed state that the panel returns to when the siren stops. -/
def returnsTo (p : AlarmPanel) : Option AlarmState :=
  if p.config.stayTriggered then none else p.priorArmed

theorem tick_triggered (h : p.state = .triggered) {secs : Nat}
    (hsecs : p.elapsed + secs ≤ 4294967295) :
    p.tick secs = match p.returnsTo with
      | some prior =>
        if p.config.triggerTime ≤ p.elapsed + secs then
          { p with state := prior, priorArmed := none, elapsed := 0 }
        else { p with elapsed := p.elapsed + secs }
      | none => { p with elapsed := p.elapsed + secs } := by
  unfold tick returnsTo
  rw [if_neg (by simp [h, AlarmState.isTriggered])]
  dsimp only
  rw [h, Nat.min_eq_left hsecs]
  dsimp only
  cases p.config.stayTriggered with
  | true => split <;> rfl
  | false =>
    cases p.priorArmed with
    | none => split <;> rfl
    | some prior => rfl

theorem tick_tick_of_remembers {start : Option AlarmState} (h : Remembers p start)
    (hsecs : p.elapsed + a + b ≤ 4294967295) :
    (p.tick a).tick b = p.tick (a + b) ↔
      ¬(p.state = .pending ∧ p.config.entryDelay ≤ p.elapsed + a ∧ 0 < b) := by
  have hsum : p.elapsed + (a + b) = p.elapsed + a + b := (Nat.add_assoc _ _ _).symm
  by_cases harming : p.state = .arming
  · refine iff_of_true ?_ fun hcut => by rw [harming] at hcut; cases hcut.1
    rw [tick_arming harming (by omega), tick_arming harming (by omega), hsum]
    by_cases hend : p.config.exitDelay ≤ p.elapsed + a
    · rw [if_pos hend, if_pos (by omega)]
      refine tick_of_isArmed ?_ b
      cases htarget : p.pendingArm with
      | none => rfl
      | some target => exact h.pendingArm target htarget
    · rw [if_neg hend]
      exact tick_arming (p := { p with elapsed := p.elapsed + a }) harming hsecs
  by_cases htriggered : p.state = .triggered
  · refine iff_of_true ?_ fun hcut => by rw [htriggered] at hcut; cases hcut.1
    rw [tick_triggered htriggered (by omega), tick_triggered htriggered (by omega), hsum]
    cases hreturns : p.returnsTo with
    | none =>
      dsimp only
      rw [tick_triggered (p := { p with elapsed := p.elapsed + a }) htriggered hsecs]
      change (match p.returnsTo with | some _ => _ | none => _) = _
      rw [hreturns]
    | some prior =>
      dsimp only
      by_cases hend : p.config.triggerTime ≤ p.elapsed + a
      · rw [if_pos hend, if_pos (by omega)]
        refine tick_of_isArmed (h.prior_isArmed ?_).1 b
        unfold returnsTo at hreturns
        split at hreturns
        · cases hreturns
        · exact hreturns
      · rw [if_neg hend, tick_triggered (p := { p with elapsed := p.elapsed + a }) htriggered hsecs]
        change (match p.returnsTo with | some _ => _ | none => _) = _
        rw [hreturns]
  by_cases hpending : p.state = .pending
  · rw [tick_pending hpending (by omega), tick_pending hpending (by omega), hsum]
    by_cases hend : p.config.entryDelay ≤ p.elapsed + a
    · rw [if_pos hend, if_pos (by omega)]
      have hpos := p.config.triggerTime_pos
      rw [tick_triggered (p := { p with state := .triggered, elapsed := 0 }) rfl
        (by dsimp only; omega)]
      constructor
      · rintro heq ⟨-, -, hb⟩
        split at heq
        · split at heq
          · have hprior := congrArg priorArmed heq
            next prior hreturns _ =>
            unfold returnsTo at hreturns
            split at hreturns
            · cases hreturns
            · rw [hreturns] at hprior
              cases hprior
          · have helapsed : 0 + b = 0 := congrArg elapsed heq
            omega
        · have helapsed : 0 + b = 0 := congrArg elapsed heq
          omega
      · intro hcut
        obtain rfl : b = 0 := by
          by_contra hb
          exact hcut ⟨hpending, hend, Nat.pos_of_ne_zero hb⟩
        split
        · exact if_neg (by dsimp only; omega)
        · rfl
    · rw [if_neg hend]
      refine iff_of_true ?_ fun hcut => hend hcut.2.1
      exact tick_pending (p := { p with elapsed := p.elapsed + a }) hpending hsecs
  · refine iff_of_true ?_ fun hcut => hpending hcut.1
    have hsettled : ∀ secs, p.tick secs = p := by
      refine tick_of_settled ?_ ?_
      · cases hs : p.state <;> first | rfl | exact absurd hs harming | exact absurd hs hpending
      · cases hs : p.state <;> first | rfl | exact absurd hs htriggered
    rw [hsettled, hsettled, hsettled]

end AlarmPanel

/-- Whatever was done with a new panel, two ticks leave the panel that one tick of the whole time
does, unless the first one ends the entry delay and time is left: the single tick loses what is left
then, and the siren sounds that much longer. -/
theorem Watch.tick_tick_iff (config : PanelConfig) (code : UserCode) (maxFailures : UInt32)
    (calls : List Call) {p : AlarmPanel} (hp : p = ((new config code maxFailures).run calls).panel)
    (a b : Nat) (hsecs : p.elapsed + a + b ≤ 4294967295) :
    (p.tick a).tick b = p.tick (a + b) ↔
      ¬(p.state = .pending ∧ p.config.entryDelay ≤ p.elapsed + a ∧ 0 < b) := by
  subst hp
  exact AlarmPanel.tick_tick_of_remembers ((inv_new config code maxFailures).run calls).remembers
    hsecs

/-- A panel that is armed at once, with an entry delay of 5 seconds and a siren of 20. -/
def quickPanel : PanelConfig :=
  ⟨0, 5, 20, false, false, false, false, by decide, by decide, by decide, by decide⟩

def sampleCode : UserCode := ⟨[49, 51, 55, 57], by decide, by decide, by decide⟩

/-- In the entry delay, 4 seconds and then none are 4 seconds. -/
theorem Watch.tick_four_tick_zero :
    ((((Watch.new quickPanel sampleCode 5).run
        [.apply .armAway, .sensorTrip .perimeter]).panel.tick 4).tick 0) =
      ((Watch.new quickPanel sampleCode 5).run
        [.apply .armAway, .sensorTrip .perimeter]).panel.tick (4 + 0) :=
  (tick_tick_iff quickPanel sampleCode 5 [.apply .armAway, .sensorTrip .perimeter] rfl 4 0
    (by decide)).mpr (by simp)

/-- In the entry delay, 5 seconds and then 20 let the siren stop, and 25 seconds do not. -/
theorem Watch.tick_five_tick_twenty : ∃ config code maxFailures calls a b,
    ((new config code maxFailures).run calls).panel.elapsed + a + b ≤ 4294967295 ∧
    (((new config code maxFailures).run calls).panel.tick a).tick b ≠
      ((new config code maxFailures).run calls).panel.tick (a + b) := by
  refine ⟨quickPanel, sampleCode, 5, [.apply .armAway, .sensorTrip .perimeter], 5, 20, by decide,
    fun heq => ?_⟩
  exact absurd (congrArg AlarmPanel.state heq) (by decide)

end CaveHome.Alarm
