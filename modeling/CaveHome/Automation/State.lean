import CaveHome.Lib.GroupIndex
import CaveHome.Lib.Text

/-!
# The entity state machine

The states of all entities, an index of the entities of every domain, and the entity ids that are
reserved.  The three calls that change them are given the time they read and the context they make
up when the caller has none.  What a call hands to the event bus is a list, in the order of the
calls to `fire`; the time an event carries is left out, since nothing here reads it.

The attributes of an entity are only ever compared and stored.
-/

namespace CaveHome.Automation

/-! ## Contexts, errors, entity ids -/

structure Context where
  id : String
  userId : Option String
  parentId : Option String
deriving DecidableEq, Repr

inductive HassError where
  | invalidEntityFormat (entityId : String)
  | invalidState (message : String)
  | other (message : String)
deriving DecidableEq, Repr

def MAX_LENGTH_STATE_STATE : Nat := 255

def STATE_UNKNOWN : String := "unknown"

/-- Only the letters of ASCII have a lower case here. -/
def toAsciiLowercase (s : String) : String := String.ofList (s.toList.map Char.toLower)

/-- The domain and the object id. -/
def splitEntityId (entityId : String) : Except HassError (String × String) :=
  match Text.splitOnce ['.'] entityId.toList with
  | none => .error (.invalidEntityFormat entityId)
  | some (domain, objectId) =>
    if domain = [] ∨ objectId = [] then .error (.invalidEntityFormat entityId)
    else .ok (String.ofList domain, String.ofList objectId)

/-- The length is in bytes. -/
def validateState (state : String) : Except HassError String :=
  if state.utf8ByteSize > MAX_LENGTH_STATE_STATE then
    .error (.invalidState
      ("state value longer than " ++ toString MAX_LENGTH_STATE_STATE ++ " chars"))
  else .ok state

theorem splitEntityId_append {entityId domain objectId : String}
    (h : splitEntityId entityId = .ok (domain, objectId)) :
    entityId = domain ++ "." ++ objectId := by
  unfold splitEntityId at h
  split at h
  next => cases h
  next d o hsplit =>
    split at h
    next => cases h
    next =>
      cases h
      apply String.toList_injective
      simpa using (Text.splitOnce_append hsplit).symm

/-! ## The states of all entities -/

/-- The state of one entity. -/
structure State (A : Type) where
  entityId : String
  domain : String
  objectId : String
  state : String
  attributes : A
  lastChanged : Int
  lastReported : Int
  lastUpdated : Int
  context : Context
deriving DecidableEq, Repr

variable {A : Type}

/-- The context is replaced by one with the same three fields. -/
def State.expire (s : State A) : State A :=
  { s with context := ⟨s.context.id, s.context.userId, s.context.parentId⟩ }

@[simp] theorem State.expire_eq (s : State A) : s.expire = s := rfl

structure States (A : Type) where
  byEntity : Dict String (State A)
  byDomain : GroupIndex String String

namespace States

def empty : States A := ⟨∅, ∅⟩

def get (states : States A) (entityId : String) : Option (State A) :=
  states.byEntity.lookup entityId

def set (states : States A) (state : State A) : States A where
  byDomain := states.byDomain.add state.domain state.entityId
  byEntity := states.byEntity.insert state.entityId state

def remove (states : States A) (entityId : String) : Option (State A) × States A :=
  match states.byEntity.lookup entityId with
  | some state => (some state,
      ⟨states.byEntity.erase entityId, states.byDomain.drop state.domain entityId⟩)
  | none => (none, states)

theorem get_set (states : States A) (state : State A) (entityId : String) :
    (states.set state).get entityId
      = if state.entityId = entityId then some state else states.get entityId :=
  Dict.lookup_insert_if _ _ _ _

theorem remove_of_get {states : States A} {entityId : String} {state : State A}
    (h : states.get entityId = some state) :
    states.remove entityId = (some state,
      ⟨states.byEntity.erase entityId, states.byDomain.drop state.domain entityId⟩) := by
  unfold remove
  rw [show states.byEntity.lookup entityId = some state from h]

theorem remove_of_get_none {states : States A} {entityId : String}
    (h : states.get entityId = none) : states.remove entityId = (none, states) := by
  unfold remove
  rw [show states.byEntity.lookup entityId = none from h]

end States

/-! ## Events -/

structure StateChangedData (A : Type) where
  entityId : String
  oldState : Option (State A)
  newState : Option (State A)
deriving DecidableEq, Repr

structure StateReportedData (A : Type) where
  entityId : String
  lastReported : Int
  oldLastReported : Int
  newState : State A
deriving DecidableEq, Repr

/-- What an event of the state machine carries, before it is written as JSON. -/
inductive EventData (A : Type) where
  | stateChanged (data : StateChangedData A)
  | stateReported (data : StateReportedData A)
deriving DecidableEq, Repr

inductive EventOrigin where
  | Local
  | Remote
deriving DecidableEq, Repr

def EVENT_STATE_CHANGED : String := "state_changed"

def EVENT_STATE_REPORTED : String := "state_reported"

structure Event (A : Type) where
  eventType : String
  data : EventData A
  origin : EventOrigin
  context : Context
deriving DecidableEq, Repr

/-- The event that a state changed. -/
def Event.stateChanged (data : StateChangedData A) (context : Context) : Event A :=
  ⟨EVENT_STATE_CHANGED, .stateChanged data, .Local, context⟩

/-- The event that a state was reported again. -/
def Event.stateReported (data : StateReportedData A) (context : Context) : Event A :=
  ⟨EVENT_STATE_REPORTED, .stateReported data, .Local, context⟩

/-! ## The calls -/

structure StateMachine (A : Type) where
  states : States A
  reservations : Finset String

namespace StateMachine

def new : StateMachine A := ⟨States.empty, ∅⟩

/-- What a call leaves behind when it lets go of the locks, the events it then fires, and what it
returns. -/
structure Done (A ρ : Type) where
  machine : StateMachine A
  fires : List (Event A)
  result : ρ

/-- The id is looked up as it is given, and then in lower case. -/
def get (m : StateMachine A) (entityId : String) : Option (State A) :=
  (m.states.get entityId).or (m.states.get (toAsciiLowercase entityId))

def asyncRemove (m : StateMachine A) (entityId : String) (context : Option Context) :
    Done A Bool :=
  let entityId := toAsciiLowercase entityId
  match m.states.remove entityId with
  | (none, states) => ⟨⟨states, m.reservations.erase entityId⟩, [], false⟩
  | (some oldState, states) =>
    let oldState := oldState.expire
    let ctx := context.getD oldState.context
    let payload := ⟨entityId, some oldState, none⟩
    ⟨⟨states, m.reservations.erase entityId⟩, [.stateChanged payload ctx], true⟩

/-- The id is taken as it is given. -/
def asyncReserve (m : StateMachine A) (entityId : String) : Done A (Except HassError Unit) :=
  if (m.states.get entityId).isSome ∨ entityId ∈ m.reservations then
    ⟨m, [], .error (.other
      "async_reserve must not be called once the state is in the state machine")⟩
  else ⟨{ m with reservations := insert entityId m.reservations }, [], .ok ()⟩

def asyncAvailable (m : StateMachine A) (entityId : String) : Bool :=
  let entityId := toAsciiLowercase entityId
  (m.states.get entityId).isNone && decide (entityId ∉ m.reservations)

/-- A state that is too long is stored as unknown. -/
def effectiveState (newState : String) : String :=
  if newState.utf8ByteSize > MAX_LENGTH_STATE_STATE then STATE_UNKNOWN else newState

variable [BEq A]

/-- Whether the state and the attributes stay the same, and the time of the last change when the
state does. -/
def sameness (oldState : Option (State A)) (effectiveState : String) (attributes : A)
    (forceUpdate : Bool) : Bool × Bool × Option Int :=
  match oldState with
  | some prev =>
    (prev.state == effectiveState && !forceUpdate, prev.attributes == attributes,
      if prev.state == effectiveState && !forceUpdate then some prev.lastChanged else none)
  | none => (false, false, none)

def asyncSetInternal (m : StateMachine A) (now : Int) (fresh : Context)
    (entityId newState : String) (attributes : A) (forceUpdate : Bool) (context : Option Context) :
    Done A (Except HassError Unit) :=
  let effectiveState := effectiveState newState
  let context := context.getD fresh
  let oldState := m.states.get entityId
  let same := sameness oldState effectiveState attributes forceUpdate
  match oldState, same.1 && same.2.1 with
  | some existing, true =>
    let oldLastReported := existing.lastReported
    let existing := { existing with lastReported := now }
    let payload := ⟨entityId, now, oldLastReported, existing⟩
    ⟨{ m with states := m.states.set existing }, [.stateReported payload context], .ok ()⟩
  | _, _ =>
    let attributes := if same.2.1 then oldState.elim attributes State.attributes else attributes
    match splitEntityId entityId with
    | .error e => ⟨m, [], .error e⟩
    | .ok (domain, objectId) =>
      let new : State A :=
        { entityId, domain, objectId, state := effectiveState, attributes,
          lastChanged := same.2.2.getD now, lastReported := now, lastUpdated := now, context }
      let old := oldState.map State.expire
      let payload := ⟨entityId, old, some new⟩
      ⟨{ m with states := m.states.set new }, [.stateChanged payload context], .ok ()⟩

def asyncSet (m : StateMachine A) (now : Int) (fresh : Context) (entityId newState : String)
    (attributes : A) (forceUpdate : Bool) (context : Option Context) :
    Done A (Except HassError Unit) :=
  let entityId := toAsciiLowercase entityId
  match validateState newState with
  | .error e => ⟨m, [], .error e⟩
  | .ok newState =>
    m.asyncSetInternal now fresh entityId newState attributes forceUpdate context

end StateMachine

end CaveHome.Automation
