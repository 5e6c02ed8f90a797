import CaveHome.Automation.StateRuns
import CaveHome.Lib.Fanout

/-!
# The event bus and its callers

`fire` takes a copy of the listeners of an event and calls them one after the other on the thread
that fires.  A listener may itself change the state machine before it returns, and other threads
may do so at any time.  A change is committed in one step, under the lock of the store; its event
is fired in later ones.

What a listener does is up to it, so a listener is its number and its filter here.
-/

namespace CaveHome.Automation

variable {A : Type}

def MATCH_ALL : String := "*"

structure Listener (A : Type) where
  id : Nat
  filter : Option (Event A → Bool)

/-- A listener without a filter is called for every event. -/
def Listener.accepts (l : Listener A) (e : Event A) : Bool := l.filter.elim true fun f => f e

/-! ## Registering listeners -/

structure BusInner (A : Type) where
  listeners : Dict String (List (Listener A))
  nextId : Nat

namespace BusInner

def new : BusInner A := ⟨∅, 0⟩

/-- The listeners of an event type. -/
def entry (bus : BusInner A) (eventType : String) : List (Listener A) :=
  (bus.listeners.lookup eventType).getD []

def listen (bus : BusInner A) (eventType : String) (filter : Option (Event A → Bool)) :
    BusInner A :=
  let id := bus.nextId + 1
  { nextId := id
    listeners := bus.listeners.insert eventType (bus.entry eventType ++ [⟨id, filter⟩]) }

def asyncListenDyn (bus : BusInner A) (eventType : String) : BusInner A :=
  bus.listen eventType none

def asyncListenFiltered (bus : BusInner A) (eventType : String) (filter : Event A → Bool) :
    BusInner A :=
  bus.listen eventType (some filter)

/-- What a handle does when it is dropped. -/
def remove (bus : BusInner A) (eventType : String) (id : Nat) : BusInner A :=
  match bus.listeners.lookup eventType with
  | none => bus
  | some vec =>
    let vec := vec.filter fun l => l.id ≠ id
    if vec = [] ∧ eventType ≠ MATCH_ALL then
      { bus with listeners := bus.listeners.erase eventType }
    else { bus with listeners := bus.listeners.insert eventType vec }

/-- The listeners that `fire` calls, in this order. -/
def snapshot (bus : BusInner A) (eventType : String) : List (Listener A) :=
  bus.entry eventType ++ if eventType ≠ EVENT_STATE_REPORTED then bus.entry MATCH_ALL else []

/-- The listeners whose filter lets the event pass. -/
def audience (bus : BusInner A) (e : Event A) : List Nat :=
  ((bus.snapshot e.eventType).filter fun l => l.accepts e).map Listener.id

end BusInner

inductive Registration (A : Type) where
  | listen (eventType : String)
  | listenFiltered (eventType : String) (filter : Event A → Bool)
  | drop (eventType : String) (id : Nat)

def BusInner.apply (bus : BusInner A) : Registration A → BusInner A
  | .listen eventType => bus.asyncListenDyn eventType
  | .listenFiltered eventType filter => bus.asyncListenFiltered eventType filter
  | .drop eventType id => bus.remove eventType id

/-- The bus after listeners came and went. -/
def BusInner.registered (registrations : List (Registration A)) : BusInner A :=
  registrations.foldl BusInner.apply BusInner.new

/-! ### No two listeners have one number -/

namespace BusInner

structure WellFormed (bus : BusInner A) : Prop where
  bounded : ∀ t, ∀ l ∈ bus.entry t, l.id ≤ bus.nextId
  nodup : ∀ t, ((bus.entry t).map Listener.id).Nodup
  apart : ∀ t t', ∀ l ∈ bus.entry t, ∀ l' ∈ bus.entry t', l.id = l'.id → t = t'

variable {bus : BusInner A}

theorem entry_insert (t t' : String) (ls : List (Listener A)) (n : Nat) :
    entry ⟨bus.listeners.insert t ls, n⟩ t' = if t = t' then ls else bus.entry t' := by
  unfold entry
  rw [Dict.lookup_insert_if]
  split
  · rfl
  · rfl

theorem entry_remove (t t' : String) (id : Nat) : (bus.remove t id).entry t'
    = if t = t' then (bus.entry t).filter (fun l => l.id ≠ id) else bus.entry t' := by
  unfold remove
  split
  next hnone =>
    split
    next h =>
      rw [← h, entry, hnone]
      rfl
    next => rfl
  next vec hvec =>
    have hentry : bus.entry t = vec := by rw [entry, hvec]; rfl
    rw [hentry]
    dsimp only
    split
    next hempty =>
      unfold entry
      rw [Dict.lookup_erase_if]
      split
      · rw [hempty.1]
        rfl
      · rfl
    next => exact entry_insert _ _ _ _

theorem nextId_remove (t : String) (id : Nat) : (bus.remove t id).nextId = bus.nextId := by
  unfold remove
  split
  · rfl
  · dsimp only
    split
    · rfl
    · rfl

theorem WellFormed.listen (h : WellFormed bus) (t : String) (filter : Option (Event A → Bool)) :
    WellFormed (bus.listen t filter) where
  bounded := by
    intro t' l hl
    rw [BusInner.listen, entry_insert] at hl
    show l.id ≤ bus.nextId + 1
    split at hl
    next =>
      obtain hl | hl := List.mem_append.mp hl
      · exact (h.bounded t l hl).trans (Nat.le_succ _)
      · rw [List.mem_singleton.mp hl]
    next => exact (h.bounded t' l hl).trans (Nat.le_succ _)
  nodup := by
    intro t'
    rw [BusInner.listen, entry_insert]
    split
    next =>
      rw [List.map_append]
      apply (h.nodup t).append (List.nodup_singleton _)
      intro n hn hn'
      obtain ⟨l, hl, rfl⟩ := List.mem_map.mp hn
      have hle := h.bounded t l hl
      have heq : l.id = bus.nextId + 1 := List.mem_singleton.mp hn'
      omega
    next => exact h.nodup t'
  apart := by
    intro t₁ t₂ l₁ hl₁ l₂ hl₂ hid
    rw [BusInner.listen, entry_insert] at hl₁ hl₂
    -- a number given out before is at most the last one, and the new one is above it
    have hold : ∀ t' l, l ∈ (if t = t' then bus.entry t ++ [⟨bus.nextId + 1, filter⟩]
        else bus.entry t') → l ∈ bus.entry t' ∨ l.id = bus.nextId + 1 ∧ t = t' := by
      intro t' l hl
      split at hl
      next ht =>
        subst ht
        obtain hl | hl := List.mem_append.mp hl
        · exact .inl hl
        · exact .inr ⟨by rw [List.mem_singleton.mp hl], rfl⟩
      next => exact .inl hl
    obtain h₁ | ⟨hn₁, ht₁⟩ := hold t₁ l₁ hl₁
    · obtain h₂ | ⟨hn₂, ht₂⟩ := hold t₂ l₂ hl₂
      · exact h.apart t₁ t₂ l₁ h₁ l₂ h₂ hid
      · have hle := h.bounded t₁ l₁ h₁
        omega
    · obtain h₂ | ⟨hn₂, ht₂⟩ := hold t₂ l₂ hl₂
      · have hle := h.bounded t₂ l₂ h₂
        omega
      · exact ht₁.symm.trans ht₂

theorem mem_of_mem_entry_remove {t t' : String} {id : Nat} {l : Listener A}
    (hl : l ∈ (bus.remove t id).entry t') : l ∈ bus.entry t' := by
  rw [entry_remove] at hl
  split at hl
  next ht => exact ht ▸ (List.mem_filter.mp hl).1
  next => exact hl

theorem WellFormed.remove (h : WellFormed bus) (t : String) (id : Nat) :
    WellFormed (bus.remove t id) where
  bounded := by
    intro t' l hl
    rw [nextId_remove]
    exact h.bounded t' l (mem_of_mem_entry_remove hl)
  nodup := by
    intro t'
    rw [entry_remove]
    split
    · exact (h.nodup t).sublist ((List.filter_sublist).map _)
    · exact h.nodup t'
  apart := by
    intro t₁ t₂ l₁ hl₁ l₂ hl₂
    exact h.apart t₁ t₂ l₁ (mem_of_mem_entry_remove hl₁) l₂ (mem_of_mem_entry_remove hl₂)

theorem wellFormed_registered (registrations : List (Registration A)) :
    WellFormed (registered registrations) := by
  unfold registered
  induction registrations using List.reverseRecOn with
  | nil => exact ⟨by simp [new, entry], by simp [new, entry], by simp [new, entry]⟩
  | append_singleton rs r ih =>
    rw [List.foldl_append]
    cases r with
    | listen eventType => exact ih.listen eventType none
    | listenFiltered eventType filter => exact ih.listen eventType (some filter)
    | drop eventType id => exact ih.remove eventType id

theorem WellFormed.nodup_snapshot (h : WellFormed bus) {t : String} (ht : t ≠ MATCH_ALL) :
    ((bus.snapshot t).map Listener.id).Nodup := by
  unfold snapshot
  rw [List.map_append]
  split
  next =>
    apply (h.nodup t).append (h.nodup MATCH_ALL)
    intro n hn hn'
    obtain ⟨l, hl, rfl⟩ := List.mem_map.mp hn
    obtain ⟨l', hl', hid⟩ := List.mem_map.mp hn'
    exact ht (h.apart t MATCH_ALL l hl l' hl' hid.symm)
  next =>
    rw [List.map_nil, List.append_nil]
    exact h.nodup t

theorem WellFormed.nodup_audience (h : WellFormed bus) {e : Event A}
    (ht : e.eventType ≠ MATCH_ALL) : (bus.audience e).Nodup :=
  (h.nodup_snapshot ht).sublist ((List.filter_sublist).map _)

theorem WellFormed.mem_audience_iff (h : WellFormed bus) {e : Event A}
    (ht : e.eventType ≠ MATCH_ALL) {l : Listener A} (hl : l ∈ bus.snapshot e.eventType) :
    l.id ∈ bus.audience e ↔ l.accepts e = true := by
  unfold audience
  constructor
  · intro hid
    obtain ⟨l', hl', heq⟩ := List.mem_map.mp hid
    obtain ⟨hmem, haccepts⟩ := List.mem_filter.mp hl'
    rwa [← List.inj_on_of_nodup_map (h.nodup_snapshot ht) hmem hl heq]
  · intro haccepts
    exact List.mem_map_of_mem (List.mem_filter.mpr ⟨hl, haccepts⟩)

end BusInner

end CaveHome.Automation

/-!
## Callers on several threads

Every thread has a stack of events that it is firing: the topmost one is served, and while one of
its listeners runs, that listener may call the state machine again, which puts another event on
top.  The steps of the threads interleave in every order.

The number of an event is its place in the order of the commits.  It and the list of what has been
committed are not part of the program.
-/

namespace CaveHome.Automation

variable {A τ : Type}

/-- How far a thread is with an event. -/
inductive Firing (A : Type) where
  /-- The change is committed and the lock let go, and `fire` is yet to be called. -/
  | committed
  /-- `fire` has these listeners left, and may be waiting for one it called. -/
  | serving (listeners : List (Listener A)) (inCallback : Bool)

structure Frame (A : Type) where
  number : Nat
  event : Event A
  firing : Firing A

/-- The listeners to which the event is still to be handed. -/
def Frame.owes (bus : BusInner A) (fr : Frame A) : List Nat :=
  match fr.firing with
  | .committed => bus.audience fr.event
  | .serving listeners _ => (listeners.filter fun l => l.accepts fr.event).map Listener.id

structure Callers (A τ : Type) where
  machine : StateMachine A
  threads : τ → List (Frame A)
  committed : List (Event A)
  received : Nat → List (Nat × Event A)

inductive Label (A τ : Type) where
  /-- A call takes its effect on the store. -/
  | commit (t : τ) (c : Call A)
  /-- The call fires its event, and `fire` copies the listeners. -/
  | fire (t : τ)
  /-- `fire` turns to the next listener. -/
  | serve (t : τ)
  /-- The listener returns. -/
  | back (t : τ)
  /-- `fire` returns, and the call with it. -/
  | finish (t : τ)

namespace Callers

def init : Callers A τ := ⟨StateMachine.new, fun _ => [], [], fun _ => []⟩

/-- A thread calls from the outside when it fires nothing, and from a listener that it runs. -/
def mayCall : List (Frame A) → Bool
  | [] => true
  | ⟨_, _, .serving _ true⟩ :: _ => true
  | _ => false

/-- All calls have returned. -/
def Quiet (sys : Callers A τ) : Prop := ∀ t, sys.threads t = []

variable [BEq A] [DecidableEq τ]

def step (bus : BusInner A) (sys : Callers A τ) : Label A τ → Option (Callers A τ)
  | .commit t c =>
    if mayCall (sys.threads t) then
      let d := sys.machine.perform c
      let frames := d.fires.mapIdx fun i e => ⟨sys.committed.length + i, e, .committed⟩
      some { sys with
        machine := d.machine
        threads := Function.update sys.threads t (frames ++ sys.threads t)
        committed := sys.committed ++ d.fires }
    else none
  | .fire t =>
    match sys.threads t with
    | ⟨n, e, .committed⟩ :: outer =>
      let fr := ⟨n, e, .serving (bus.snapshot e.eventType) false⟩
      some { sys with threads := Function.update sys.threads t (fr :: outer) }
    | _ => none
  | .serve t =>
    match sys.threads t with
    | ⟨n, e, .serving (l :: ls) false⟩ :: outer =>
      if l.accepts e then
        some { sys with
          threads := Function.update sys.threads t (⟨n, e, .serving ls true⟩ :: outer)
          received := Function.update sys.received l.id (sys.received l.id ++ [(n, e)]) }
      else
        some { sys with
          threads := Function.update sys.threads t (⟨n, e, .serving ls false⟩ :: outer) }
    | _ => none
  | .back t =>
    match sys.threads t with
    | ⟨n, e, .serving ls true⟩ :: outer =>
      some { sys with
        threads := Function.update sys.threads t (⟨n, e, .serving ls false⟩ :: outer) }
    | _ => none
  | .finish t =>
    match sys.threads t with
    | ⟨_, _, .serving [] false⟩ :: outer =>
      some { sys with threads := Function.update sys.threads t outer }
    | _ => none

end Callers

/-! ## What one step can do -/

namespace Callers

variable {bus : BusInner A} {sys sys' : Callers A τ} {t t' : τ} {top : Option (Frame A)}
  {outer : List (Frame A)}

/-- The top of one stack is replaced, or taken away. -/
def setTop [DecidableEq τ] (sys : Callers A τ) (t : τ) (top : Option (Frame A))
    (outer : List (Frame A)) : Callers A τ :=
  { sys with threads := Function.update sys.threads t (top.toList ++ outer) }

theorem threads_setTop_self [DecidableEq τ] :
    (sys.setTop t top outer).threads t = top.toList ++ outer :=
  Function.update_self _ _ _

theorem threads_setTop_of_ne [DecidableEq τ] (ht : t' ≠ t) :
    (sys.setTop t top outer).threads t' = sys.threads t' :=
  Function.update_of_ne ht _ _

variable [BEq A] [DecidableEq τ]

theorem step_commit {c : Call A} (h : step bus sys (.commit t c) = some sys') :
    sys' = { sys with
      machine := (sys.machine.perform c).machine
      threads := Function.update sys.threads t ((sys.machine.perform c).fires.mapIdx
        (fun i e => ⟨sys.committed.length + i, e, .committed⟩) ++ sys.threads t)
      committed := sys.committed ++ (sys.machine.perform c).fires } := by
  rw [step] at h
  split at h
  · exact (Option.some.inj h).symm
  · cases h

theorem step_fire (h : step bus sys (.fire t) = some sys') :
    ∃ n e outer, sys.threads t = ⟨n, e, .committed⟩ :: outer ∧
      sys' = sys.setTop t (some ⟨n, e, .serving (bus.snapshot e.eventType) false⟩) outer := by
  rw [step] at h
  split at h
  next n e outer hstack => exact ⟨n, e, outer, hstack, (Option.some.inj h).symm⟩
  next => cases h

theorem step_serve (h : step bus sys (.serve t) = some sys') :
    ∃ n e l ls outer, sys.threads t = ⟨n, e, .serving (l :: ls) false⟩ :: outer ∧
      (l.accepts e = true ∧ sys' = { sys.setTop t (some ⟨n, e, .serving ls true⟩) outer with
          received := Function.update sys.received l.id (sys.received l.id ++ [(n, e)]) } ∨
        l.accepts e = false ∧ sys' = sys.setTop t (some ⟨n, e, .serving ls false⟩) outer) := by
  rw [step] at h
  split at h
  next n e l ls outer hstack =>
    refine ⟨n, e, l, ls, outer, hstack, ?_⟩
    split at h
    next haccepts => exact .inl ⟨haccepts, (Option.some.inj h).symm⟩
    next haccepts => exact .inr ⟨by simpa using haccepts, (Option.some.inj h).symm⟩
  next => cases h

theorem step_back (h : step bus sys (.back t) = some sys') :
    ∃ n e ls outer, sys.threads t = ⟨n, e, .serving ls true⟩ :: outer ∧
      sys' = sys.setTop t (some ⟨n, e, .serving ls false⟩) outer := by
  rw [step] at h
  split at h
  next n e ls outer hstack => exact ⟨n, e, ls, outer, hstack, (Option.some.inj h).symm⟩
  next => cases h

theorem step_finish (h : step bus sys (.finish t) = some sys') :
    ∃ n e outer, sys.threads t = ⟨n, e, .serving [] false⟩ :: outer ∧
      sys' = sys.setTop t none outer := by
  rw [step] at h
  split at h
  next n e outer hstack => exact ⟨n, e, outer, hstack, (Option.some.inj h).symm⟩
  next => cases h

end Callers

end CaveHome.Automation
