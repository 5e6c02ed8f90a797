import CaveHome.Automation.StateRuns

/-!
# The spelling of entity ids

An id in any spelling is meant to be the one id that it has in lower case.  This is so in the runs
whose calls store valid ids only and reserve ids in lower case: storing an id checks no more than
that it has two parts, and reserving an id takes it as it is spelled.
-/

namespace CaveHome.Automation

variable {A : Type}

/-! ## Valid ids -/

def isIdChar (c : Char) : Bool := c.isLower || c.isDigit || c == '_'

def validDomain (domain : List Char) : Bool := !domain.isEmpty && domain.all isIdChar

def validEntityId (entityId : String) : Bool :=
  match Text.splitOnce ['.'] entityId.toList with
  | none => false
  | some (domain, objectId) =>
    if validDomain domain then !objectId.isEmpty && objectId.all isIdChar else false

namespace StateMachine

def isState (m : StateMachine A) (entityId state : String) : Bool :=
  (m.get entityId).any fun s => s.state == state

end StateMachine

/-- The ids are spellings of the same. -/
def SameId (id id' : String) : Prop := toAsciiLowercase id = toAsciiLowercase id'

theorem toLower_of_not_upper {c : Char} (h : ¬ (c.val ≥ 'A'.val ∧ c.val ≤ 'Z'.val)) :
    c.toLower = c := dif_neg h

theorem toLower_toLower (c : Char) : c.toLower.toLower = c.toLower := by
  by_cases h : c.val ≥ 'A'.val ∧ c.val ≤ 'Z'.val
  · refine toLower_of_not_upper fun hlower => ?_
    have hval : c.toLower.val = c.val + 32 := by
      unfold Char.toLower
      rw [dif_pos h]
      rfl
    have hA : 'A'.val.toNat = 65 := rfl
    have hZ : 'Z'.val.toNat = 90 := rfl
    have h32 : (32 : UInt32).toNat = 32 := rfl
    rw [hval] at hlower
    simp only [ge_iff_le, UInt32.le_iff_toNat_le, UInt32.toNat_add, h32] at h hlower
    omega
  · rw [toLower_of_not_upper h, toLower_of_not_upper h]

theorem toAsciiLowercase_toAsciiLowercase (id : String) :
    toAsciiLowercase (toAsciiLowercase id) = toAsciiLowercase id := by
  unfold toAsciiLowercase
  rw [String.toList_ofList, List.map_map]
  congr 2
  funext c
  exact toLower_toLower c

theorem toLower_of_isIdChar {c : Char} (h : isIdChar c = true) : c.toLower = c := by
  refine toLower_of_not_upper fun hupper => ?_
  unfold isIdChar Char.isLower Char.isDigit at h
  simp only [Bool.or_eq_true, Bool.and_eq_true, decide_eq_true_eq, beq_iff_eq] at h
  rcases h with (h | h) | rfl
  · exact absurd (UInt32.le_trans h.1 hupper.2) (by decide)
  · exact absurd (UInt32.le_trans hupper.1 h.2) (by decide)
  · exact absurd hupper.2 (by decide)

theorem map_toLower_of_all {l : List Char} (h : l.all isIdChar = true) :
    l.map Char.toLower = l := by
  refine (List.map_congr_left fun c hc => ?_).trans (List.map_id l)
  exact toLower_of_isIdChar (List.all_eq_true.mp h c hc)

theorem validEntityId_spec {id : String} (h : validEntityId id = true) :
    toAsciiLowercase id = id ∧ ∃ p, splitEntityId id = .ok p := by
  unfold validEntityId at h
  split at h
  next => cases h
  next domain objectId hsplit =>
    split at h
    next hdomain =>
      obtain ⟨hempty, hobject⟩ := Bool.and_eq_true_iff.mp h
      obtain ⟨hempty', hchars⟩ := Bool.and_eq_true_iff.mp hdomain
      have hlist := Text.splitOnce_append hsplit
      constructor
      · apply String.toList_injective
        unfold toAsciiLowercase
        rw [String.toList_ofList, ← hlist, List.map_append, List.map_append,
          map_toLower_of_all hchars, map_toLower_of_all hobject]
        rfl
      · refine ⟨(String.ofList domain, String.ofList objectId), ?_⟩
        unfold splitEntityId
        rw [hsplit]
        refine if_neg ?_
        rintro (rfl | rfl)
        · cases hempty'
        · cases hempty
    next => cases h

/-! ## Runs and what is asked of them -/

/-- The machine after some calls. -/
def after [BEq A] (calls : List (Call A)) : StateMachine A :=
  calls.foldl (fun m c => (m.perform c).machine) .new

namespace StateMachine

/-- An entity that is stored or reserved. -/
def Claims (m : StateMachine A) (id : String) : Prop :=
  (m.states.get id).isSome = true ∨ id ∈ m.reservations

end StateMachine

namespace Request

/-- A call that removes an id in some spelling. -/
def Removes (id : String) : Request A → Prop
  | remove id' _ => SameId id' id
  | _ => False

/-- A call that stores its state. -/
def Stores : Request A → Prop
  | set _ id newState _ _ _ => newState.utf8ByteSize ≤ MAX_LENGTH_STATE_STATE ∧
      ∃ p, splitEntityId (toAsciiLowercase id) = .ok p
  | _ => False

/-- What is stored has a valid id, and what is reserved is in lower case. -/
def Spelled (r : Request A) : Prop :=
  match r with
  | set _ id _ _ _ _ => r.Stores → validEntityId (toAsciiLowercase id) = true
  | remove _ _ => True
  | reserve id => toAsciiLowercase id = id

end Request

/-- An id that was reserved and not removed since. -/
def Held [BEq A] (calls : List (Call A)) (id : String) : Prop :=
  ∃ first now mid, calls = first ++ ⟨now, .reserve id⟩ :: mid ∧
    ((after first).asyncReserve id).result = .ok () ∧ ∀ c ∈ mid, ¬ c.request.Removes id

/-- What is asked of a machine after some calls. -/
structure Normalised [BEq A] (calls : List (Call A)) : Prop where
  valid : ∀ id s, (after calls).states.get id = some s → validEntityId id = true
  distinct : ∀ id id', (after calls).Claims id → (after calls).Claims id' → SameId id id' → id = id'
  unavailable : ∀ id id', Held calls id → SameId id' id → (after calls).asyncAvailable id' = false
  /-- When the last call reserves an id that is held, it fails. -/
  refused : ∀ before now id id', calls = before ++ [⟨now, .reserve id'⟩] → Held before id →
    SameId id' id → ((after before).asyncReserve id').result ≠ .ok ()
  same : ∀ id id', SameId id id' → (after calls).get id = (after calls).get id' ∧
    (∀ state, (after calls).isState id state = (after calls).isState id' state) ∧
    (after calls).asyncAvailable id = (after calls).asyncAvailable id' ∧
    ∀ context, (after calls).asyncRemove id context = (after calls).asyncRemove id' context

/-! ## What a call does to the ids -/

section Calls

open StateMachine

variable {m : StateMachine A} {id : String}

/-- All that is stored is valid, and all that is reserved is in lower case. -/
structure Lowered (m : StateMachine A) : Prop where
  keyed : Keyed m.states
  valid : ∀ id s, m.states.get id = some s → validEntityId id = true
  reserved : ∀ id ∈ m.reservations, toAsciiLowercase id = id

theorem lowered_new : Lowered (StateMachine.new : StateMachine A) where
  keyed := keyed_empty
  valid := by
    intro id s hs
    simp [StateMachine.new, States.empty, States.get] at hs
  reserved := by
    intro id hid
    simp [StateMachine.new] at hid

theorem Lowered.get_eq (h : Lowered m) (id : String) :
    m.get id = m.states.get (toAsciiLowercase id) := by
  unfold StateMachine.get
  cases hget : m.states.get id with
  | none => rfl
  | some s =>
    rw [(validEntityId_spec (h.valid id s hget)).1, hget]
    rfl

theorem Lowered.lower_of_claims (h : Lowered m) (hid : m.Claims id) : toAsciiLowercase id = id := by
  rcases hid with hid | hid
  · obtain ⟨s, hs⟩ := Option.isSome_iff_exists.mp hid
    exact (validEntityId_spec (h.valid id s hs)).1
  · exact h.reserved id hid

theorem get_asyncRemove {context : Option Context} {id' : String} {s : State A}
    (h : (m.asyncRemove id context).machine.states.get id' = some s) :
    m.states.get id' = some s := by
  cases hget : m.states.get (toAsciiLowercase id) with
  | none => rwa [asyncRemove_of_get_none hget] at h
  | some old =>
    rw [asyncRemove_of_get hget] at h
    exact get_of_get_erase h

theorem reservations_asyncRemove (m : StateMachine A) (id : String) (context : Option Context) :
    (m.asyncRemove id context).machine.reservations =
      m.reservations.erase (toAsciiLowercase id) := by
  cases hget : m.states.get (toAsciiLowercase id) with
  | none => rw [asyncRemove_of_get_none hget]
  | some old => rw [asyncRemove_of_get hget]

variable [BEq A] {calls : List (Call A)} {c : Call A}

theorem after_concat (calls : List (Call A)) (c : Call A) :
    after (calls ++ [c]) = ((after calls).perform c).machine := List.foldl_concat ..

theorem reservations_asyncSetInternal {now : Int} {fresh : Context} {newState : String}
    {attributes : A} {forceUpdate : Bool} {context : Option Context} :
    (m.asyncSetInternal now fresh id newState attributes forceUpdate context).machine.reservations =
      m.reservations := by
  by_cases hchanges : Changes (m.states.get id) (effectiveState newState) attributes forceUpdate
  · obtain ⟨e, -, heq⟩ | ⟨new, -, -, -, -, -, -, -, heq⟩ :=
      asyncSetInternal_of_changes now fresh context hchanges
    · rw [heq]
    · rw [heq]
  · obtain ⟨prev, -, -, heq⟩ := asyncSetInternal_unchanged now fresh context hchanges
    rw [heq]

theorem asyncSet_of_stores (now : Int) {fresh : Context} {newState : String} {attributes : A}
    {forceUpdate : Bool} {context : Option Context} (h : Keyed m.states)
    (hstores : (Request.set fresh id newState attributes forceUpdate context).Stores) :
    ∃ new : State A, new.entityId = toAsciiLowercase id ∧
      (m.asyncSet now fresh id newState attributes forceUpdate context).machine =
        { m with states := m.states.set new } := by
  obtain ⟨hsize, p, hsplit⟩ := hstores
  unfold asyncSet validateState
  rw [if_neg (Nat.not_lt.mpr hsize)]
  dsimp only
  by_cases hchanges : Changes (m.states.get (toAsciiLowercase id)) (effectiveState newState)
      attributes forceUpdate
  · obtain ⟨e, herror, -⟩ | ⟨new, hid, -, -, -, -, -, -, heq⟩ :=
      asyncSetInternal_of_changes now fresh context hchanges
    · rw [hsplit] at herror
      cases herror
    · exact ⟨new, hid, by rw [heq]⟩
  · obtain ⟨prev, hget, -, heq⟩ :=
      asyncSetInternal_unchanged now fresh context hchanges
    exact ⟨{ prev with lastReported := now }, h _ prev hget, by rw [heq]⟩

theorem asyncSet_of_not_stores {now : Int} {fresh : Context} {newState : String} {attributes : A}
    {forceUpdate : Bool} {context : Option Context} (h : Lowered m)
    (hstores : ¬ (Request.set fresh id newState attributes forceUpdate context).Stores) :
    (m.asyncSet now fresh id newState attributes forceUpdate context).machine = m := by
  unfold asyncSet validateState
  by_cases hsize : newState.utf8ByteSize ≤ MAX_LENGTH_STATE_STATE
  · rw [if_neg (Nat.not_lt.mpr hsize)]
    dsimp only
    have hsplit : ¬ ∃ p, splitEntityId (toAsciiLowercase id) = .ok p := fun hp =>
      hstores ⟨hsize, hp⟩
    have hnone : m.states.get (toAsciiLowercase id) = none := by
      cases hget : m.states.get (toAsciiLowercase id) with
      | none => rfl
      | some s => exact absurd (validEntityId_spec (h.valid _ s hget)).2 hsplit
    have hchanges : Changes (m.states.get (toAsciiLowercase id)) (effectiveState newState)
        attributes forceUpdate := by
      intro prev hprev
      rw [hnone] at hprev
      cases hprev
    obtain ⟨e, -, heq⟩ | ⟨new, -, hok, -⟩ :=
      asyncSetInternal_of_changes now fresh context hchanges
    · rw [heq]
    · exact absurd ⟨_, hok⟩ hsplit
  · rw [if_pos (Nat.not_le.mp hsize)]

theorem Lowered.perform (h : Lowered m) (hc : c.request.Spelled) :
    Lowered (m.perform c).machine := by
  obtain ⟨now, request⟩ := c
  cases request with
  | set fresh id newState attributes forceUpdate context =>
    change Lowered (m.asyncSet now fresh id newState attributes forceUpdate context).machine
    by_cases hstores : (Request.set fresh id newState attributes forceUpdate context).Stores
    · obtain ⟨new, hid, heq⟩ := asyncSet_of_stores now h.keyed hstores
      rw [heq]
      refine ⟨h.keyed.set, fun id' s hs => ?_, h.reserved⟩
      rw [States.get_set] at hs
      split at hs
      next hkey =>
        rw [← hkey, hid]
        exact hc hstores
      next => exact h.valid id' s hs
    · rw [asyncSet_of_not_stores h hstores]
      exact h
  | remove id context =>
    change Lowered (m.asyncRemove id context).machine
    refine ⟨fun id' s hs => h.keyed id' s (get_asyncRemove hs),
      fun id' s hs => h.valid id' s (get_asyncRemove hs), fun id' hid => ?_⟩
    rw [reservations_asyncRemove] at hid
    exact h.reserved id' (Finset.mem_of_mem_erase hid)
  | reserve id =>
    change Lowered (m.asyncReserve id).machine
    unfold asyncReserve
    split
    next => exact h
    next =>
      refine ⟨h.keyed, h.valid, fun id' hid => ?_⟩
      rcases Finset.mem_insert.mp hid with rfl | hid
      · exact hc
      · exact h.reserved id' hid

theorem mem_reservations_perform (hid : id ∈ m.reservations) (hc : ¬ c.request.Removes id) :
    id ∈ (m.perform c).machine.reservations := by
  obtain ⟨now, request⟩ := c
  cases request with
  | set fresh id' newState attributes forceUpdate context =>
    change id ∈
      (m.asyncSet now fresh id' newState attributes forceUpdate context).machine.reservations
    obtain ⟨e, heq⟩ | ⟨-, heq⟩ := asyncSet_cases m now fresh id' newState attributes forceUpdate
      context
    · rw [heq]
      exact hid
    · rw [heq, reservations_asyncSetInternal]
      exact hid
  | remove id' context =>
    change id ∈ (m.asyncRemove id' context).machine.reservations
    rw [reservations_asyncRemove]
    refine Finset.mem_erase.mpr ⟨?_, hid⟩
    rintro rfl
    exact hc (toAsciiLowercase_toAsciiLowercase id').symm
  | reserve id' =>
    change id ∈ (m.asyncReserve id').machine.reservations
    unfold asyncReserve
    split
    next => exact hid
    next => exact Finset.mem_insert_of_mem hid

theorem lowered_after (h : ∀ c ∈ calls, c.request.Spelled) : Lowered (after calls) := by
  induction calls using List.reverseRecOn with
  | nil => exact lowered_new
  | append_singleton calls c ih =>
    rw [after_concat]
    have hcalls := ih fun c hc => h c (List.mem_append_left _ hc)
    exact hcalls.perform (h c (List.mem_append_right _ (List.mem_singleton_self c)))

theorem mem_reservations_of_held (h : Held calls id) : id ∈ (after calls).reservations := by
  obtain ⟨first, now, mid, rfl, hok, hmid⟩ := h
  induction mid using List.reverseRecOn with
  | nil =>
    rw [after_concat]
    change id ∈ ((after first).asyncReserve id).machine.reservations
    unfold asyncReserve at hok ⊢
    split at hok
    next => cases hok
    next hfree =>
      rw [if_neg hfree]
      exact Finset.mem_insert_self id _
  | append_singleton mid c ih =>
    rw [← List.cons_append, ← List.append_assoc, after_concat]
    exact mem_reservations_perform (ih fun c hc => hmid c (List.mem_append_left _ hc))
      (hmid c (List.mem_append_right _ (List.mem_singleton_self c)))

theorem normalised_of_spelled (h : ∀ c ∈ calls, c.request.Spelled) : Normalised calls := by
  have hlow := lowered_after h
  refine ⟨hlow.valid, fun id id' hid hid' hsame => ?_, fun id id' hheld hsame => ?_,
    fun before now id id' hcalls hheld hsame => ?_, fun id id' hsame => ?_⟩
  · rw [← hlow.lower_of_claims hid, ← hlow.lower_of_claims hid']
    exact hsame
  · have hmem := mem_reservations_of_held hheld
    have hid : toAsciiLowercase id' = id := hsame.trans (hlow.reserved id hmem)
    unfold asyncAvailable
    rw [hid]
    dsimp only
    rw [decide_eq_false (not_not_intro hmem), Bool.and_false]
  · subst hcalls
    have hmem := mem_reservations_of_held hheld
    have hbefore := lowered_after fun c hc => h c (List.mem_append_left _ hc)
    have hlower : toAsciiLowercase id' = id' :=
      h _ (List.mem_append_right before (List.mem_singleton_self _))
    have hid : id' = id := hlower.symm.trans (hsame.trans (hbefore.reserved id hmem))
    unfold asyncReserve
    rw [if_pos (.inr (hid ▸ hmem))]
    exact fun hok => by cases hok
  · have hget : (after calls).get id = (after calls).get id' := by
      rw [hlow.get_eq, hlow.get_eq, hsame]
    refine ⟨hget, fun state => ?_, ?_, fun context => ?_⟩
    · rw [isState, isState, hget]
    · rw [asyncAvailable, asyncAvailable, hsame]
    · rw [asyncRemove, asyncRemove, hsame]

theorem spelled_of_normalised (hcalls : Lowered (after calls))
    (h : Normalised (calls ++ [c])) : c.request.Spelled := by
  have hafter := after_concat calls c
  obtain ⟨now, request⟩ := c
  cases request with
  | set fresh id newState attributes forceUpdate context =>
    intro hstores
    obtain ⟨new, hid, heq⟩ := asyncSet_of_stores now hcalls.keyed hstores
    refine h.valid _ new ?_
    rw [hafter]
    change (asyncSet _ now fresh id newState attributes forceUpdate
      context).machine.states.get _ = _
    rw [heq]
    exact (States.get_set _ new _).trans (if_pos hid)
  | remove id context => trivial
  | reserve id =>
    by_contra hupper
    have hfree : ¬ ((after calls).Claims id) := fun hid => hupper (hcalls.lower_of_claims hid)
    have hreserve : (after calls).asyncReserve id =
        ⟨{ after calls with reservations := insert id (after calls).reservations }, [], .ok ()⟩ :=
      if_neg hfree
    have hmachine : after (calls ++ [⟨now, .reserve id⟩]) =
        { after calls with reservations := insert id (after calls).reservations } := by
      rw [hafter]
      change ((after calls).asyncReserve id).machine = _
      rw [hreserve]
    have hheld : Held (calls ++ [⟨now, .reserve id⟩]) id :=
      ⟨calls, now, [], rfl, by rw [hreserve], fun c hc => absurd hc List.not_mem_nil⟩
    have hlower : ¬ (after (calls ++ [⟨now, .reserve id⟩])).Claims (toAsciiLowercase id) := by
      intro hclaims
      have hid : (after (calls ++ [⟨now, .reserve id⟩])).Claims id := by
        rw [hmachine]
        exact .inr (Finset.mem_insert_self id _)
      exact hupper (h.distinct _ _ hclaims hid (toAsciiLowercase_toAsciiLowercase id))
    have hnot := h.unavailable id id hheld rfl
    unfold asyncAvailable at hnot
    unfold Claims at hlower
    simp only [Bool.and_eq_false_iff, decide_eq_false_iff_not, not_not,
      Option.isNone_eq_false_iff] at hnot
    exact hlower hnot

/-- The ids are as they are meant to be all along exactly in the runs that are spelled well. -/
theorem normalised_iff (calls : List (Call A)) :
    (∀ before, before <+: calls → Normalised before) ↔ ∀ c ∈ calls, c.request.Spelled := by
  constructor
  · intro h
    induction calls using List.reverseRecOn with
    | nil => exact fun c hc => absurd hc List.not_mem_nil
    | append_singleton calls c ih =>
      have hcalls := ih fun before hbefore => h before (hbefore.trans (List.prefix_append _ _))
      intro c' hc'
      rcases List.mem_append.mp hc' with hc' | hc'
      · exact hcalls c' hc'
      · rw [List.mem_singleton.mp hc']
        exact spelled_of_normalised (lowered_after hcalls) (h _ List.prefix_rfl)
  · intro h before hbefore
    exact normalised_of_spelled fun c hc => h c (hbefore.subset hc)

/-- An id that is reserved with capitals stays available, and an id with a blank is stored. -/
theorem spellings_kept :
    ¬ Normalised [(⟨0, .reserve "Light.Kitchen"⟩ : Call Unit)] ∧
      ¬ Normalised [(⟨0, .set ⟨"c", none, none⟩ "light.top shelf" "on" () false none⟩ :
        Call Unit)] := by
  constructor
  · intro h
    have hheld : Held [(⟨0, .reserve "Light.Kitchen"⟩ : Call Unit)] "Light.Kitchen" :=
      ⟨[], 0, [], rfl, by decide, fun c hc => absurd hc List.not_mem_nil⟩
    exact absurd (h.unavailable _ "light.kitchen" hheld (by unfold SameId; decide))
      (by decide)
  · intro h
    have hstored : ((after [(⟨0, .set ⟨"c", none, none⟩ "light.top shelf" "on" () false none⟩ :
        Call Unit)]).states.get "light.top shelf").isSome = true := by decide
    obtain ⟨s, hs⟩ := Option.isSome_iff_exists.mp hstored
    exact absurd (h.valid _ s hs) (by decide)

end Calls

end CaveHome.Automation
