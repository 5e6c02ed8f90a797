import CaveHome.Automation.State
import CaveHome.Lib.Runs

/-!
# Runs of the state machine

The calls of a run come one after the other and read a clock that does not go back.  Nothing that
listens calls back, so a call's event is out before the next call begins.
-/

namespace CaveHome.Automation

variable {A : Type}

/-- The three calls, with the context that stands in for one not given. -/
inductive Request (A : Type) where
  | set (fresh : Context) (entityId newState : String) (attributes : A) (forceUpdate : Bool)
    (context : Option Context)
  | remove (entityId : String) (context : Option Context)
  | reserve (entityId : String)

structure Call (A : Type) where
  now : Int
  request : Request A

inductive Outcome where
  | returned (result : Except HassError Unit)
  | removed (found : Bool)

def StateMachine.Done.map {ρ σ : Type} (f : ρ → σ) (d : StateMachine.Done A ρ) :
    StateMachine.Done A σ :=
  ⟨d.machine, d.fires, f d.result⟩

def StateMachine.perform [BEq A] (m : StateMachine A) (c : Call A) :
    StateMachine.Done A Outcome :=
  match c.request with
  | .set fresh entityId newState attributes forceUpdate context =>
    (m.asyncSet c.now fresh entityId newState attributes forceUpdate context).map .returned
  | .remove entityId context => (m.asyncRemove entityId context).map .removed
  | .reserve entityId => (m.asyncReserve entityId).map .returned

/-- The state machine, the time of the last call and all the events fired so far. -/
structure System (A : Type) where
  machine : StateMachine A
  clock : Int
  fired : List (Event A)

namespace System

def init (start : Int) : System A := ⟨StateMachine.new, start, []⟩

/-- The next call, which does not come before the last one. -/
def step [BEq A] (sys : System A) (c : Call A) : Option (System A) :=
  if c.now < sys.clock then none
  else some ⟨(sys.machine.perform c).machine, c.now, sys.fired ++ (sys.machine.perform c).fires⟩

end System

/-! ## What one call does -/

/-- The time of the last change starts anew: the entity is new, its state is another one or the
update is forced. -/
def Restarts (old : Option (State A)) (newState : String) (forceUpdate : Bool) : Prop :=
  ∀ prev, old = some prev → prev.state ≠ newState ∨ forceUpdate = true

/-- The entity is new, its state or its attributes are others or the update is forced. -/
def Changes [BEq A] (old : Option (State A)) (newState : String) (attributes : A)
    (forceUpdate : Bool) : Prop :=
  ∀ prev, old = some prev →
    prev.state ≠ newState ∨ (prev.attributes == attributes) = false ∨ forceUpdate = true

/-- What a call to `asyncSet` leaves that succeeds: the entity is stored, every other one is as it
was, and exactly one event is fired. -/
structure SetDone [BEq A] (m : StateMachine A) (now : Int) (context : Context)
    (entityId newState : String) (attributes : A) (forceUpdate : Bool) (states : States A)
    (fires : List (Event A)) (new : State A) : Prop where
  stored : states.get entityId = some new
  others : ∀ id, id ≠ entityId → states.get id = m.states.get id
  state : new.state = newState
  reported : new.lastReported = now
  restarted : Restarts (m.states.get entityId) newState forceUpdate → new.lastChanged = now
  carried : ∀ prev, m.states.get entityId = some prev →
    ¬Restarts (m.states.get entityId) newState forceUpdate → new.lastChanged = prev.lastChanged
  changed : Changes (m.states.get entityId) newState attributes forceUpdate →
    fires = [.stateChanged ⟨entityId, m.states.get entityId, some new⟩ context]
  unchanged : ¬Changes (m.states.get entityId) newState attributes forceUpdate →
    ∃ prev, m.states.get entityId = some prev ∧
      fires = [.stateReported ⟨entityId, now, prev.lastReported, new⟩ context]

/-- A call accounts for what it does: an error leaves everything as it was, and a success fires
exactly the event of what it did. -/
structure Accounted [BEq A] (m : StateMachine A) (c : Call A) : Prop where
  error : ∀ e, (m.perform c).result = .returned (.error e) →
    (m.perform c).machine = m ∧ (m.perform c).fires = []
  set : ∀ fresh entityId newState attributes forceUpdate context,
    c.request = .set fresh entityId newState attributes forceUpdate context →
    (m.perform c).result = .returned (.ok ()) →
    ∃ new, SetDone m c.now (context.getD fresh) (toAsciiLowercase entityId) newState attributes
      forceUpdate (m.perform c).machine.states (m.perform c).fires new
  remove : ∀ entityId context, c.request = .remove entityId context →
    (m.perform c).result = .removed true →
    ∃ old, m.states.get (toAsciiLowercase entityId) = some old ∧
      (m.perform c).machine.states.get (toAsciiLowercase entityId) = none ∧
      (∀ id, id ≠ toAsciiLowercase entityId →
        (m.perform c).machine.states.get id = m.states.get id) ∧
      (m.perform c).fires =
        [.stateChanged ⟨toAsciiLowercase entityId, some old, none⟩ (context.getD old.context)]

namespace StateMachine

variable [BEq A] {m : StateMachine A} {now : Int} {fresh : Context} {entityId newState : String}
  {attributes : A} {forceUpdate : Bool} {context : Option Context}

omit [BEq A] in
theorem not_restarts_iff {old : Option (State A)} {newState : String} {forceUpdate : Bool} :
    ¬Restarts old newState forceUpdate ↔
      ∃ prev, old = some prev ∧ prev.state = newState ∧ forceUpdate = false := by
  simp [Restarts]

theorem not_changes_iff {old : Option (State A)} :
    ¬Changes old newState attributes forceUpdate ↔
      ∃ prev, old = some prev ∧ prev.state = newState ∧ (prev.attributes == attributes) = true ∧
        forceUpdate = false := by
  simp [Changes]

theorem sameness_of_changes {old : Option (State A)}
    (h : Changes old newState attributes forceUpdate) :
    ((sameness old newState attributes forceUpdate).1 &&
      (sameness old newState attributes forceUpdate).2.1) = false := by
  cases old with
  | none => rfl
  | some prev =>
    have hprev := h prev rfl
    simp only [sameness, Bool.and_eq_false_iff, beq_eq_false_iff_ne, Bool.not_eq_false']
    tauto

theorem getD_sameness (old : Option (State A)) (newState : String) (attributes : A)
    (forceUpdate : Bool) (now : Int) :
    (Restarts old newState forceUpdate →
      (sameness old newState attributes forceUpdate).2.2.getD now = now) ∧
    (∀ prev, old = some prev → ¬Restarts old newState forceUpdate →
      (sameness old newState attributes forceUpdate).2.2.getD now = prev.lastChanged) := by
  cases old with
  | none => simp [sameness]
  | some prev =>
    constructor
    · intro h
      have hprev := h prev rfl
      simp only [sameness]
      rw [if_neg (by simpa [imp_iff_not_or] using hprev)]
      rfl
    · intro old hold h
      cases hold
      obtain ⟨_, heq, hstate, hforce⟩ := not_restarts_iff.mp h
      cases heq
      simp [sameness, hstate, hforce]

theorem asyncSetInternal_unchanged (now : Int) (fresh : Context) (context : Option Context)
    (h : ¬Changes (m.states.get entityId) (effectiveState newState) attributes forceUpdate) :
    ∃ prev, m.states.get entityId = some prev ∧ prev.state = effectiveState newState ∧
      m.asyncSetInternal now fresh entityId newState attributes forceUpdate context =
        ⟨{ m with states := m.states.set { prev with lastReported := now } },
          [.stateReported ⟨entityId, now, prev.lastReported, { prev with lastReported := now }⟩
            (context.getD fresh)], .ok ()⟩ := by
  obtain ⟨prev, hget, hstate, hattr, hforce⟩ := not_changes_iff.mp h
  refine ⟨prev, hget, hstate, ?_⟩
  have hsame : sameness (some prev) (effectiveState newState) attributes forceUpdate
      = (true, true, some prev.lastChanged) := by
    simp [sameness, hstate, hattr, hforce]
  simp only [asyncSetInternal, hget, hsame, Bool.and_self]

theorem asyncSetInternal_of_changes (now : Int) (fresh : Context) (context : Option Context)
    (h : Changes (m.states.get entityId) (effectiveState newState) attributes forceUpdate) :
    (∃ e, splitEntityId entityId = .error e ∧
      m.asyncSetInternal now fresh entityId newState attributes forceUpdate context
        = ⟨m, [], .error e⟩) ∨
    ∃ new : State A, new.entityId = entityId ∧
      splitEntityId entityId = .ok (new.domain, new.objectId) ∧
      new.state = effectiveState newState ∧ new.lastReported = now ∧ new.lastUpdated = now ∧
      (Restarts (m.states.get entityId) (effectiveState newState) forceUpdate →
        new.lastChanged = now) ∧
      (∀ prev, m.states.get entityId = some prev →
        ¬Restarts (m.states.get entityId) (effectiveState newState) forceUpdate →
        new.lastChanged = prev.lastChanged) ∧
      m.asyncSetInternal now fresh entityId newState attributes forceUpdate context =
        ⟨{ m with states := m.states.set new },
          [.stateChanged ⟨entityId, m.states.get entityId, some new⟩ (context.getD fresh)],
          .ok ()⟩ := by
  have hsame := sameness_of_changes h
  have hlast := getD_sameness (m.states.get entityId) (effectiveState newState) attributes
    forceUpdate now
  simp only [asyncSetInternal]
  generalize sameness (m.states.get entityId) (effectiveState newState) attributes forceUpdate
    = same at hsame hlast
  rw [hsame]
  cases hsplit : splitEntityId entityId with
  | error e =>
    left
    refine ⟨e, rfl, ?_⟩
    cases m.states.get entityId <;> rfl
  | ok p =>
    right
    refine ⟨⟨entityId, p.1, p.2, effectiveState newState,
      if same.2.1 then (m.states.get entityId).elim attributes State.attributes else attributes,
      same.2.2.getD now, now, now, context.getD fresh⟩,
      rfl, rfl, rfl, rfl, rfl, hlast.1, hlast.2, ?_⟩
    cases m.states.get entityId <;> rfl

theorem asyncSet_cases (m : StateMachine A) (now : Int) (fresh : Context)
    (entityId newState : String) (attributes : A) (forceUpdate : Bool)
    (context : Option Context) :
    (∃ e, m.asyncSet now fresh entityId newState attributes forceUpdate context
      = ⟨m, [], .error e⟩) ∨
    effectiveState newState = newState ∧
      m.asyncSet now fresh entityId newState attributes forceUpdate context
        = m.asyncSetInternal now fresh (toAsciiLowercase entityId) newState attributes
            forceUpdate context := by
  unfold asyncSet validateState effectiveState
  by_cases h : newState.utf8ByteSize > MAX_LENGTH_STATE_STATE
  · left
    exact ⟨_, by rw [if_pos h]⟩
  · right
    refine ⟨if_neg h, ?_⟩
    rw [if_neg h]

omit [BEq A] in
theorem asyncRemove_of_get {old : State A}
    (h : m.states.get (toAsciiLowercase entityId) = some old) :
    m.asyncRemove entityId context =
      ⟨⟨⟨m.states.byEntity.erase (toAsciiLowercase entityId),
          m.states.byDomain.drop old.domain (toAsciiLowercase entityId)⟩,
        m.reservations.erase (toAsciiLowercase entityId)⟩,
        [.stateChanged ⟨toAsciiLowercase entityId, some old, none⟩ (context.getD old.context)],
        true⟩ := by
  simp only [asyncRemove, States.remove_of_get h, State.expire_eq]

omit [BEq A] in
theorem asyncRemove_of_get_none (h : m.states.get (toAsciiLowercase entityId) = none) :
    m.asyncRemove entityId context =
      ⟨⟨m.states, m.reservations.erase (toAsciiLowercase entityId)⟩, [], false⟩ := by
  simp only [asyncRemove, States.remove_of_get_none h]

end StateMachine

/-- Everything a call can do to the store, and the events it fires for it. -/
inductive Effect (m : StateMachine A) (now : Int) : StateMachine A → List (Event A) → Prop where
  | quiet (reservations : Finset String) : Effect m now { m with reservations } []
  | reported {entityId : String} {prev : State A} (context : Context)
    (hget : m.states.get entityId = some prev) :
    Effect m now { m with states := m.states.set { prev with lastReported := now } }
      [.stateReported ⟨entityId, now, prev.lastReported, { prev with lastReported := now }⟩ context]
  | changed {new : State A} (context : Context)
    (hsplit : splitEntityId new.entityId = .ok (new.domain, new.objectId))
    (hreported : new.lastReported = now) (hupdated : new.lastUpdated = now)
    (hchanged : new.lastChanged = now ∨
      ∃ prev, m.states.get new.entityId = some prev ∧ new.lastChanged = prev.lastChanged) :
    Effect m now { m with states := m.states.set new }
      [.stateChanged ⟨new.entityId, m.states.get new.entityId, some new⟩ context]
  | removed {entityId : String} {old : State A} (context : Context) (reservations : Finset String)
    (hget : m.states.get entityId = some old) :
    Effect m now ⟨⟨m.states.byEntity.erase entityId, m.states.byDomain.drop old.domain entityId⟩,
      reservations⟩ [.stateChanged ⟨entityId, some old, none⟩ context]

section Effects

variable {m m' : StateMachine A} {now clock : Int} {fires fired : List (Event A)}

open StateMachine

theorem asyncSetInternal_effect [BEq A] (m : StateMachine A) (now : Int) (fresh : Context)
    (entityId newState : String) (attributes : A) (forceUpdate : Bool)
    (context : Option Context) :
    Effect m now
      (m.asyncSetInternal now fresh entityId newState attributes forceUpdate context).machine
      (m.asyncSetInternal now fresh entityId newState attributes forceUpdate context).fires := by
  by_cases h : Changes (m.states.get entityId) (effectiveState newState) attributes forceUpdate
  · obtain ⟨e, -, heq⟩ | ⟨new, hid, hsplit, -, hrep, hupd, hnow, hcarried, heq⟩ :=
      asyncSetInternal_of_changes now fresh context h
    · rw [heq]
      exact .quiet m.reservations
    · subst hid
      rw [heq]
      refine .changed _ hsplit hrep hupd ?_
      by_cases hrestart : Restarts (m.states.get new.entityId) (effectiveState newState) forceUpdate
      · exact .inl (hnow hrestart)
      · obtain ⟨prev, hprev, -⟩ := not_restarts_iff.mp hrestart
        exact .inr ⟨prev, hprev, hcarried prev hprev hrestart⟩
  · obtain ⟨prev, hget, -, heq⟩ :=
      asyncSetInternal_unchanged now fresh context h
    rw [heq]
    exact .reported _ hget

theorem perform_effect [BEq A] (m : StateMachine A) (c : Call A) :
    Effect m c.now (m.perform c).machine (m.perform c).fires := by
  obtain ⟨now, request⟩ := c
  cases request with
  | set fresh entityId newState attributes forceUpdate context =>
    show Effect m now
      (m.asyncSet now fresh entityId newState attributes forceUpdate context).machine
      (m.asyncSet now fresh entityId newState attributes forceUpdate context).fires
    obtain ⟨e, heq⟩ | ⟨-, heq⟩ := asyncSet_cases m now fresh entityId newState attributes
      forceUpdate context
    · rw [heq]
      exact .quiet m.reservations
    · rw [heq]
      exact asyncSetInternal_effect m now fresh _ newState attributes forceUpdate context
  | remove entityId context =>
    show Effect m now (m.asyncRemove entityId context).machine
      (m.asyncRemove entityId context).fires
    cases hget : m.states.get (toAsciiLowercase entityId) with
    | none =>
      rw [asyncRemove_of_get_none hget]
      exact .quiet _
    | some old =>
      rw [asyncRemove_of_get hget]
      exact .removed _ _ hget
  | reserve entityId =>
    show Effect m now (m.asyncReserve entityId).machine (m.asyncReserve entityId).fires
    unfold asyncReserve
    split
    · exact .quiet m.reservations
    · exact .quiet _

end Effects

/-! ## The store keeps in step with its index, the clock and the events -/

/-- The state as it was when it last changed its value or its attributes. -/
def State.asUpdated (s : State A) : State A := { s with lastReported := s.lastUpdated }

/-- What a listener makes of an event that keeps a copy of the store. -/
def applyChange (copy : Dict String (State A)) (e : Event A) : Dict String (State A) :=
  match e.data with
  | .stateChanged ⟨entityId, _, some new⟩ => copy.insert entityId new
  | .stateChanged ⟨entityId, _, none⟩ => copy.erase entityId
  | .stateReported _ => copy

def replay (events : List (Event A)) : Dict String (State A) := events.foldl applyChange ∅

/-- Each event has the old state that the copy holds when it comes. -/
def Chained (copy : Dict String (State A)) : List (Event A) → Prop
  | [] => True
  | e :: es => (∀ data, e.data = .stateChanged data →
      copy.lookup data.entityId = data.oldState.map State.asUpdated) ∧
    Chained (applyChange copy e) es

theorem chained_append {copy : Dict String (State A)} {es fs : List (Event A)} :
    Chained copy (es ++ fs) ↔ Chained copy es ∧ Chained (es.foldl applyChange copy) fs := by
  induction es generalizing copy with
  | nil => simp [Chained]
  | cons e es ih => simp only [List.cons_append, Chained, ih, List.foldl_cons, and_assoc]

/-- Every state is stored under its own entity id. -/
def Keyed (states : States A) : Prop := ∀ id s, states.get id = some s → s.entityId = id

/-- The store at a time of the clock. -/
structure Consistent (states : States A) (clock : Int) : Prop where
  indexes : GroupIndex.Indexes State.domain states.byDomain states.byEntity
  keyed : Keyed states
  split : ∀ id s, states.get id = some s → splitEntityId id = .ok (s.domain, s.objectId)
  times : ∀ id s, states.get id = some s →
    s.lastChanged ≤ s.lastUpdated ∧ s.lastUpdated ≤ s.lastReported ∧ s.lastReported ≤ clock

/-- The copy is the store, each state as it last changed. -/
def Copies (copy : Dict String (State A)) (states : States A) : Prop :=
  ∀ id, copy.lookup id = (states.get id).map State.asUpdated

section Consistency

variable {states : States A} {m m' : StateMachine A} {now clock : Int}
  {fires fired : List (Event A)} {copy : Dict String (State A)}

theorem keyed_empty : Keyed (States.empty : States A) := by
  intro id s hs
  simp [States.empty, States.get] at hs

theorem Keyed.set {new : State A} (h : Keyed states) : Keyed (states.set new) := by
  intro id s hs
  rw [States.get_set] at hs
  split at hs
  next hid => rw [← Option.some.inj hs, hid]
  next => exact h id s hs

theorem get_of_get_erase {byDomain : GroupIndex String String} {entityId id : String} {s : State A}
    (hs : (⟨states.byEntity.erase entityId, byDomain⟩ : States A).get id = some s) :
    states.get id = some s := by
  rw [States.get, Dict.lookup_erase_if] at hs
  split at hs
  · cases hs
  · exact hs

theorem Effect.keyed (he : Effect m now m' fires) (h : Keyed m.states) : Keyed m'.states := by
  cases he with
  | quiet reservations => exact h
  | reported context hget => exact h.set
  | changed context hsplit hreported hupdated hchanged => exact h.set
  | removed context reservations hget => exact fun id s hs => h id s (get_of_get_erase hs)

theorem consistent_empty : Consistent (States.empty : States A) clock where
  indexes := GroupIndex.indexes_empty
  keyed := keyed_empty
  split := by simp [States.empty, States.get]
  times := by simp [States.empty, States.get]

theorem Consistent.set {new : State A} (h : Consistent states clock)
    (hsplit : splitEntityId new.entityId = .ok (new.domain, new.objectId))
    (htimes : new.lastChanged ≤ new.lastUpdated ∧ new.lastUpdated ≤ new.lastReported ∧
      new.lastReported ≤ now) (hclock : clock ≤ now) : Consistent (states.set new) now where
  indexes := by
    apply h.indexes.insert
    intro old hold
    have hsame := (h.split new.entityId old hold).symm.trans hsplit
    exact (Prod.mk.inj (Except.ok.inj hsame)).1
  keyed := h.keyed.set
  split := by
    intro id s hs
    rw [States.get_set] at hs
    split at hs
    next hid => rw [← Option.some.inj hs, ← hid, hsplit]
    next => exact h.split id s hs
  times := by
    intro id s hs
    rw [States.get_set] at hs
    split at hs
    next => exact Option.some.inj hs ▸ htimes
    next =>
      have hold := h.times id s hs
      omega

theorem Consistent.remove {entityId : String} {old : State A} (h : Consistent states clock)
    (hget : states.get entityId = some old) (hclock : clock ≤ now) :
    Consistent ⟨states.byEntity.erase entityId, states.byDomain.drop old.domain entityId⟩ now := by
  refine ⟨h.indexes.erase hget, fun id s hs => h.keyed id s (get_of_get_erase hs),
    fun id s hs => h.split id s (get_of_get_erase hs), fun id s hs => ?_⟩
  have hold := h.times id s (get_of_get_erase hs)
  omega

theorem Effect.consistent (he : Effect m now m' fires) (h : Consistent m.states clock)
    (hclock : clock ≤ now) : Consistent m'.states now := by
  cases he with
  | quiet reservations =>
    refine ⟨h.indexes, h.keyed, h.split, fun id s hs => ?_⟩
    have hold := h.times id s hs
    omega
  | @reported id prev context hget =>
    have hold := h.times id prev hget
    refine h.set ?_ ?_ hclock
    · show splitEntityId prev.entityId = .ok (prev.domain, prev.objectId)
      rw [h.keyed id prev hget]
      exact h.split id prev hget
    · show prev.lastChanged ≤ prev.lastUpdated ∧ prev.lastUpdated ≤ now ∧ now ≤ now
      omega
  | @changed new context hsplit hreported hupdated hchanged =>
    refine h.set hsplit ?_ hclock
    rw [hreported, hupdated]
    obtain hnow | ⟨prev, hprev, hcarried⟩ := hchanged
    · omega
    · have hold := h.times _ prev hprev
      omega
  | removed context reservations hget => exact h.remove hget hclock

theorem Effect.copies (he : Effect m now m' fires) (h : Keyed m.states)
    (hcopy : Copies copy m.states) :
    Chained copy fires ∧ Copies (fires.foldl applyChange copy) m'.states := by
  cases he with
  | quiet reservations => exact ⟨trivial, hcopy⟩
  | @reported entityId prev context hget =>
    refine ⟨⟨fun data hdata => (by cases hdata), trivial⟩, fun id => ?_⟩
    show copy.lookup id = _
    rw [States.get_set, hcopy id]
    split
    next hid =>
      have hold : m.states.get id = some prev := by
        rw [← hid, show prev.entityId = entityId from h entityId prev hget]
        exact hget
      rw [hold]
      rfl
    next => rfl
  | @changed new context hsplit hreported hupdated hchanged =>
    refine ⟨⟨fun data hdata => ?_, trivial⟩, fun id => ?_⟩
    · cases hdata
      exact hcopy new.entityId
    · show (copy.insert new.entityId new).lookup id = _
      rw [States.get_set, Dict.lookup_insert_if]
      split
      · have hnew : new.asUpdated = new := by
          cases new
          simp_all [State.asUpdated]
        rw [Option.map_some, hnew]
      · exact hcopy id
  | @removed entityId old context reservations hget =>
    refine ⟨⟨fun data hdata => ?_, trivial⟩, fun id => ?_⟩
    · cases hdata
      rw [hcopy, hget]
    · show (copy.erase entityId).lookup id = ((m.states.byEntity.erase entityId).lookup id).map _
      rw [Dict.lookup_erase_if, Dict.lookup_erase_if]
      split
      · rfl
      · exact hcopy id

end Consistency

section Accounting

variable [BEq A] {m : StateMachine A} {clock now : Int} {fresh : Context}
  {entityId newState : String} {attributes : A} {forceUpdate : Bool} {context : Option Context}

open StateMachine

theorem asyncSetInternal_error {e : HassError}
    (h : (m.asyncSetInternal now fresh entityId newState attributes forceUpdate context).result
      = .error e) :
    m.asyncSetInternal now fresh entityId newState attributes forceUpdate context
      = ⟨m, [], .error e⟩ := by
  by_cases hc : Changes (m.states.get entityId) (effectiveState newState) attributes forceUpdate
  · obtain ⟨e', -, heq⟩ | ⟨new, -, -, -, -, -, -, -, heq⟩ :=
      asyncSetInternal_of_changes now fresh context hc
    · rw [heq] at h ⊢
      rw [show e' = e from Except.error.inj h]
    · rw [heq] at h
      cases h
  · obtain ⟨prev, -, -, heq⟩ :=
      asyncSetInternal_unchanged now fresh context hc
    rw [heq] at h
    cases h

theorem asyncSetInternal_done (hm : Consistent m.states clock)
    (hstate : effectiveState newState = newState)
    (h : (m.asyncSetInternal now fresh entityId newState attributes forceUpdate context).result
      = .ok ()) :
    ∃ new, SetDone m now (context.getD fresh) entityId newState attributes forceUpdate
      (m.asyncSetInternal now fresh entityId newState attributes forceUpdate context).machine.states
      (m.asyncSetInternal now fresh entityId newState attributes forceUpdate context).fires
      new := by
  by_cases hc : Changes (m.states.get entityId) newState attributes forceUpdate
  · obtain ⟨e, -, heq⟩ | ⟨new, hid, hsplit, hnew, hrep, -, hnow, hcarried, heq⟩ :=
      asyncSetInternal_of_changes now fresh context
        (hstate.symm ▸ hc)
    · rw [heq] at h
      cases h
    · rw [hstate] at hnew hnow hcarried
      subst hid
      refine ⟨new, ?_⟩
      rw [heq]
      exact ⟨by rw [States.get_set, if_pos rfl],
        fun id hne => by rw [States.get_set, if_neg (Ne.symm hne)], hnew, hrep, hnow, hcarried,
        fun _ => rfl, fun hnot => absurd hc hnot⟩
  · obtain ⟨prev, hget, hprev, heq⟩ :=
      asyncSetInternal_unchanged now fresh context
        (hstate.symm ▸ hc)
    obtain ⟨_, hget', -, -, hforce⟩ := not_changes_iff.mp hc
    have hkept : ¬Restarts (m.states.get entityId) newState forceUpdate :=
      not_restarts_iff.mpr ⟨prev, hget, hprev.trans hstate, hforce⟩
    have hkey : ({ prev with lastReported := now } : State A).entityId = entityId :=
      hm.keyed entityId prev hget
    refine ⟨{ prev with lastReported := now }, ?_⟩
    rw [heq]
    refine ⟨by rw [States.get_set, if_pos hkey],
      fun id hne => by rw [States.get_set, hkey, if_neg (Ne.symm hne)], hprev.trans hstate, rfl,
      fun hrestart => absurd hrestart hkept, fun p hp _ => ?_, fun hchange => absurd hchange hc,
      fun _ => ⟨prev, hget, rfl⟩⟩
    rw [Option.some.inj (hget.symm.trans hp)]

theorem accounted (hm : Consistent m.states clock) (c : Call A) : Accounted m c := by
  obtain ⟨now, request⟩ := c
  cases request with
  | set fresh entityId newState attributes forceUpdate context =>
    have hcases := asyncSet_cases m now fresh entityId newState attributes forceUpdate context
    refine ⟨fun e he => ?_, fun f i n a u x hreq hok => ?_, fun i x hreq => ?_⟩
    · have he : (m.asyncSet now fresh entityId newState attributes forceUpdate context).result
          = .error e := Outcome.returned.inj he
      show (m.asyncSet now fresh entityId newState attributes forceUpdate context).machine = m ∧
        (m.asyncSet now fresh entityId newState attributes forceUpdate context).fires = []
      obtain ⟨e', heq⟩ | ⟨-, heq⟩ := hcases
      · rw [heq]
        exact ⟨rfl, rfl⟩
      · rw [heq] at he ⊢
        rw [asyncSetInternal_error he]
        exact ⟨rfl, rfl⟩
    · cases hreq
      have hok : (m.asyncSet now fresh entityId newState attributes forceUpdate context).result
          = .ok () := Outcome.returned.inj hok
      show ∃ new, SetDone m now (context.getD fresh) (toAsciiLowercase entityId) newState attributes
        forceUpdate
        (m.asyncSet now fresh entityId newState attributes forceUpdate context).machine.states
        (m.asyncSet now fresh entityId newState attributes forceUpdate context).fires new
      obtain ⟨e', heq⟩ | ⟨hstate, heq⟩ := hcases
      · rw [heq] at hok
        cases hok
      · rw [heq] at hok ⊢
        exact asyncSetInternal_done hm hstate hok
    · cases hreq
  | remove entityId context =>
    refine ⟨fun e he => (by cases he), fun f i n a u x hreq => (by cases hreq),
      fun i x hreq hfound => ?_⟩
    cases hreq
    have hfound : (m.asyncRemove entityId context).result = true := Outcome.removed.inj hfound
    cases hget : m.states.get (toAsciiLowercase entityId) with
    | none =>
      rw [asyncRemove_of_get_none hget] at hfound
      cases hfound
    | some old =>
      refine ⟨old, rfl, ?_⟩
      show (m.asyncRemove entityId context).machine.states.get (toAsciiLowercase entityId) = none ∧
        (∀ id, id ≠ toAsciiLowercase entityId →
          (m.asyncRemove entityId context).machine.states.get id = m.states.get id) ∧
        (m.asyncRemove entityId context).fires = _
      rw [asyncRemove_of_get hget]
      refine ⟨AList.lookup_erase _ _, fun id hne => AList.lookup_erase_ne hne, rfl⟩
  | reserve entityId =>
    refine ⟨fun e he => ?_, fun f i n a u x hreq => (by cases hreq),
      fun i x hreq => (by cases hreq)⟩
    have he : (m.asyncReserve entityId).result = .error e := Outcome.returned.inj he
    show (m.asyncReserve entityId).machine = m ∧ (m.asyncReserve entityId).fires = []
    unfold asyncReserve at he ⊢
    split
    · exact ⟨rfl, rfl⟩
    next hfree =>
      rw [if_neg hfree] at he
      cases he

end Accounting

/-! ## Every run -/

namespace System

/-- The store, its index and the events of a run are in step. -/
structure InStep (sys : System A) : Prop where
  index : ∀ domain id, id ∈ sys.machine.states.byDomain.listed domain ↔
    ∃ s, sys.machine.states.get id = some s ∧ s.domain = domain
  noEmpty : ∀ domain ids, sys.machine.states.byDomain.lookup domain = some ids → ids.Nonempty
  named : ∀ id s, sys.machine.states.get id = some s →
    s.entityId = id ∧ s.entityId = s.domain ++ "." ++ s.objectId
  times : ∀ id s, sys.machine.states.get id = some s →
    s.lastChanged ≤ s.lastUpdated ∧ s.lastUpdated ≤ s.lastReported
  replayed : ∀ id, (replay sys.fired).lookup id
    = (sys.machine.states.get id).map State.asUpdated
  chained : Chained ∅ sys.fired

/-- What every call keeps of a run. -/
structure Inv (sys : System A) : Prop where
  consistent : Consistent sys.machine.states sys.clock
  chained : Chained ∅ sys.fired
  copies : Copies (replay sys.fired) sys.machine.states

theorem inv_init (start : Int) : Inv (init start : System A) where
  consistent := consistent_empty
  chained := trivial
  copies := by
    intro id
    simp [init, replay, StateMachine.new, States.empty, States.get]

theorem inv_step [BEq A] (sys : System A) (c : Call A) (sys' : System A) (h : Inv sys)
    (hstep : step sys c = some sys') : Inv sys' := by
  unfold step at hstep
  split at hstep
  · cases hstep
  next hclock =>
    rw [← Option.some.inj hstep]
    have heffect := perform_effect sys.machine c
    obtain ⟨hchained, hcopies⟩ := heffect.copies h.consistent.keyed h.copies
    refine ⟨heffect.consistent h.consistent (Int.not_lt.mp hclock), ?_, ?_⟩
    · exact chained_append.mpr ⟨h.chained, hchained⟩
    · show Copies (replay (sys.fired ++ _)) _
      rw [replay, List.foldl_append]
      exact hcopies

theorem Inv.inStep {sys : System A} (h : Inv sys) : InStep sys where
  index := h.consistent.indexes.mem_listed
  noEmpty := h.consistent.indexes.nonempty
  named := by
    intro id s hs
    have hid := h.consistent.keyed id s hs
    exact ⟨hid, splitEntityId_append (hid.symm ▸ h.consistent.split id s hs)⟩
  times := by
    intro id s hs
    have htimes := h.consistent.times id s hs
    exact ⟨htimes.1, htimes.2.1⟩
  replayed := h.copies
  chained := h.chained

/-- A lamp that is set, reported again, dimmed, given a bad id and removed. -/
def demoCalls : List (Call Nat) :=
  let context : Context := ⟨"c", none, none⟩
  [⟨1, .reserve "light.kitchen"⟩,
    ⟨2, .set context "Light.Kitchen" "on" 200 false none⟩,
    ⟨3, .set context "light.kitchen" "on" 200 false none⟩,
    ⟨3, .set context "light.kitchen" "on" 50 false none⟩,
    ⟨4, .set context "kitchen" "on" 50 false none⟩,
    ⟨5, .remove "light.kitchen" none⟩]

end System

end CaveHome.Automation
