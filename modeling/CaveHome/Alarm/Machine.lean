import CaveHome.Lib.MachineData

/-!
# The alarm panel

The state machine of an alarm panel with a keypad: arming with an exit delay, sensor trips with an
entry delay, a siren that stops after some time, and a user code.  The caller passes the time that
went by.
-/

namespace CaveHome.Alarm

/-! ## States and commands -/

inductive AlarmState
  | disarmed
  | armedHome
  | armedAway
  | armedNight
  | armedVacation
  | armedCustomBypass
  | arming
  | pending
  | triggered
deriving DecidableEq

namespace AlarmState

def isArmed : AlarmState → Bool
  | armedHome | armedAway | armedNight | armedVacation | armedCustomBypass => true
  | disarmed | arming | pending | triggered => false

def isTransient : AlarmState → Bool
  | arming | pending => true
  | _ => false

def isTriggered : AlarmState → Bool
  | triggered => true
  | _ => false

end AlarmState

inductive AlarmCommand
  | disarm
  | armHome
  | armAway
  | armNight
  | armVacation
  | trigger
deriving DecidableEq

/-- The armed state that an arm command leads to. -/
def AlarmCommand.targetArmedState : AlarmCommand → Option AlarmState
  | armHome => some .armedHome
  | armAway => some .armedAway
  | armNight => some .armedNight
  | armVacation => some .armedVacation
  | disarm | trigger => none

inductive ConfigError
  | zeroTriggerTime
  | delayTooLong
deriving DecidableEq

/-- The longest delay of a phase, in seconds. -/
def maxDelay : Nat := 3600

structure PanelConfig where
  exitDelay : Nat
  entryDelay : Nat
  triggerTime : Nat
  armRequiresCode : Bool
  homeInstant : Bool
  nightInstant : Bool
  stayTriggered : Bool
  triggerTime_pos : 0 < triggerTime
  exitDelay_le : exitDelay ≤ maxDelay
  entryDelay_le : entryDelay ≤ maxDelay
  triggerTime_le : triggerTime ≤ maxDelay

def PanelConfig.new (exitDelay entryDelay triggerTime : Nat)
    (armRequiresCode homeInstant nightInstant stayTriggered : Bool) :
    Except ConfigError PanelConfig :=
  if hzero : triggerTime = 0 then .error .zeroTriggerTime
  else if hlong : maxDelay < exitDelay ∨ maxDelay < entryDelay ∨ maxDelay < triggerTime then
    .error .delayTooLong
  else
    .ok {
      exitDelay, entryDelay, triggerTime, armRequiresCode, homeInstant, nightInstant, stayTriggered
      triggerTime_pos := by omega
      exitDelay_le := by omega
      entryDelay_le := by omega
      triggerTime_le := by omega }

/-! ## User codes -/

inductive CodeError
  | empty
  | tooShort
  | tooLong
  | notDigits
deriving DecidableEq

def isAsciiDigit (b : UInt8) : Bool := 0x30 ≤ b && b ≤ 0x39

/-- A code of four to twelve digits. -/
structure UserCode where
  digits : Bytes
  length_ge : 4 ≤ digits.length
  length_le : digits.length ≤ 12
  all_digits : digits.all isAsciiDigit

def UserCode.parse (raw : Bytes) : Except CodeError UserCode :=
  if raw = [] then .error .empty
  else if hshort : raw.length < 4 then .error .tooShort
  else if hlong : 12 < raw.length then .error .tooLong
  else if hdigits : raw.all isAsciiDigit then
    .ok { digits := raw, length_ge := by omega, length_le := by omega, all_digits := hdigits }
  else .error .notDigits

/-- Eight bytes. -/
structure CodeDigest where
  bytes : Bytes
  length_bytes : bytes.length = 8
deriving DecidableEq

namespace CodeDigest

/-- A number of 64 bits as bytes with the least significant one first. -/
def toLeBytes (hash : UInt64) : Bytes :=
  (List.range 8).map fun k => (hash >>> UInt64.ofNat (8 * k)).toUInt8

/-- Fold the bytes and then their number into a hash. -/
def of (bytes : Bytes) : CodeDigest :=
  let hash := bytes.foldl (fun (hash : UInt64) b => (hash ^^^ b.toUInt64) * 0x00000100000001b3)
    0xcbf29ce484222325
  let hash := (hash ^^^ UInt64.ofNat bytes.length) * 0x00000100000001b3
  ⟨toLeBytes hash, by rw [toLeBytes, List.length_map, List.length_range]⟩

/-- Compare all the bytes, whatever the first ones say. -/
def ctEq (d e : CodeDigest) : Bool :=
  (List.range 8).foldl (fun diff i => diff ||| (d.bytes.getD i 0 ^^^ e.bytes.getD i 0)) 0 == 0

end CodeDigest

def UserCode.digest (code : UserCode) : CodeDigest := .of code.digits

inductive CodeVerdict
  | accepted
  | rejected
  | lockedOut
deriving DecidableEq

/-- What the panel keeps of the enrolled code, and the number of wrong codes in a row. -/
structure CodeCredential where
  expected : CodeDigest
  failures : Nat
  maxFailures : Nat
  maxFailures_le : maxFailures ≤ 4294967295

namespace CodeCredential

def enrollWithLimit (code : UserCode) (maxFailures : UInt32) : CodeCredential :=
  { expected := code.digest, failures := 0, maxFailures := maxFailures.toNat
    maxFailures_le := Nat.le_of_lt_succ maxFailures.toNat_lt }

def isLockedOut (c : CodeCredential) : Bool := decide (c.maxFailures ≤ c.failures)

/-- A locked keypad compares nothing.  The number of wrong codes stops at the end of its range. -/
def verify (c : CodeCredential) (presented : UserCode) : CodeVerdict × CodeCredential :=
  if c.isLockedOut then (.lockedOut, c)
  else if presented.digest.ctEq c.expected then (.accepted, { c with failures := 0 })
  else
    let c := { c with failures := min (c.failures + 1) 4294967295 }
    (if c.isLockedOut then .lockedOut else .rejected, c)

def reset (c : CodeCredential) : CodeCredential := { c with failures := 0 }

end CodeCredential

/-! ## The panel -/

inductive AlarmError
  | illegalTransition
  | codeRejected
deriving DecidableEq

inductive Zone
  | perimeter
  | interior
deriving DecidableEq

structure AlarmPanel where
  state : AlarmState
  config : PanelConfig
  code : CodeCredential
  /-- The seconds spent in the phase so far. -/
  elapsed : Nat
  /-- The armed state that the exit delay leads to. -/
  pendingArm : Option AlarmState
  /-- The armed state to return to when the siren stops. -/
  priorArmed : Option AlarmState

namespace AlarmPanel

def new (config : PanelConfig) (code : CodeCredential) : AlarmPanel :=
  { state := .disarmed, config, code, elapsed := 0, pendingArm := none, priorArmed := none }

def commandRequiresCode (p : AlarmPanel) : AlarmCommand → Bool
  | .disarm => true
  | .trigger => false
  | _ => p.config.armRequiresCode

/-- Whether a command makes sense in the state, whatever the code. -/
def checkLegal (p : AlarmPanel) (command : AlarmCommand) : Except AlarmError Unit :=
  match command with
  | .disarm => if p.state = .disarmed then .error .illegalTransition else .ok ()
  | .trigger => if p.state = .triggered then .error .illegalTransition else .ok ()
  | command =>
    if p.state = .pending ∨ p.state = .triggered then .error .illegalTransition
    else if p.state.isArmed ∧ p.state = command.targetArmedState.getD p.state then
      .error .illegalTransition
    else .ok ()

/-- The panel after a legal command. -/
def applied (p : AlarmPanel) : AlarmCommand → AlarmPanel
  | .disarm =>
    { p with
      state := .disarmed, elapsed := 0, pendingArm := none, priorArmed := none
      code := p.code.reset }
  | .trigger =>
    { p with
      priorArmed := if p.state.isArmed then some p.state else p.priorArmed
      state := .triggered, elapsed := 0 }
  | arm =>
    let target := arm.targetArmedState.getD .armedAway
    if p.config.exitDelay = 0 then { p with state := target, elapsed := 0, pendingArm := none }
    else { p with state := .arming, elapsed := 0, pendingArm := some target }

def applyValidated (p : AlarmPanel) (command : AlarmCommand) :
    Except AlarmError AlarmState × AlarmPanel :=
  match p.checkLegal command with
  | .error e => (.error e, p)
  | .ok () => (.ok (p.applied command).state, p.applied command)

/-- A command without a code. -/
def apply (p : AlarmPanel) (command : AlarmCommand) : Except AlarmError AlarmState × AlarmPanel :=
  if p.commandRequiresCode command then (.error .codeRejected, p) else p.applyValidated command

/-- A command with a code; an illegal command does not try the code. -/
def applyWithCode (p : AlarmPanel) (command : AlarmCommand) (presented : UserCode) :
    Except AlarmError AlarmState × AlarmPanel :=
  match p.checkLegal command with
  | .error e => (.error e, p)
  | .ok () =>
    match p.code.verify presented with
    | (.accepted, code) => { p with code }.applyValidated command
    | (.rejected, code) => (.error .codeRejected, { p with code })
    | (.lockedOut, code) => (.error .codeRejected, { p with code })

/-- Both classes of zones follow the flag of the mode. -/
def zoneIsInstant (p : AlarmPanel) (armed : AlarmState) (_zone : Zone) : Bool :=
  (armed = .armedHome && p.config.homeInstant) || (armed = .armedNight && p.config.nightInstant)

/-- A watched sensor was tripped; motion inside is not watched while people are at home. -/
def sensorTrip (p : AlarmPanel) (zone : Zone) : AlarmPanel :=
  if ¬p.state.isArmed then p
  else
    let instant := p.zoneIsInstant p.state zone
    if zone = .interior ∧ p.state = .armedHome ∧ ¬instant then p
    else
      { p with
        priorArmed := some p.state, elapsed := 0
        state := if instant ∨ p.config.entryDelay = 0 then .triggered else .pending }

/-- Time goes by; the seconds stop at the end of their range. -/
def tick (p : AlarmPanel) (secs : Nat) : AlarmPanel :=
  if ¬p.state.isTransient ∧ ¬p.state.isTriggered then p
  else
    let p := { p with elapsed := min (p.elapsed + secs) 4294967295 }
    match p.state with
    | .arming =>
      if p.config.exitDelay ≤ p.elapsed then
        { p with state := p.pendingArm.getD .armedAway, pendingArm := none, elapsed := 0 }
      else p
    | .pending =>
      if p.config.entryDelay ≤ p.elapsed then { p with state := .triggered, elapsed := 0 } else p
    | .triggered =>
      if p.config.triggerTime ≤ p.elapsed then
        match p.config.stayTriggered, p.priorArmed with
        | false, some prior => { p with state := prior, priorArmed := none, elapsed := 0 }
        -- Someone has to come and disarm the panel.
        | _, _ => p
      else p
    | _ => p

end AlarmPanel

end CaveHome.Alarm
