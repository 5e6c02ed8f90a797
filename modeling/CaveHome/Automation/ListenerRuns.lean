import CaveHome.Automation.EventOrder

/-!
# What a listener receives over a run

From the numbers that are handed out to the changes a listener sees, and from the last of them to
the state that the store holds.
-/

namespace CaveHome.Automation

variable {A τ : Type} {id : String}

/-! ## The changes of one entity -/

/-- The change of the entity that an event reports. -/
def changeOf (id : String) (e : Event A) : Option (StateChangedData A) :=
  match e.data with
  | .stateChanged data => if data.entityId = id then some data else none
  | .stateReported _ => none

def changesOf (id : String) (es : List (Event A)) : List (StateChangedData A) :=
  es.filterMap (changeOf id)

theorem changeOf_of_topic {e : Event A} (h : topic e = some id) :
    ∃ data, e.data = .stateChanged data ∧ changeOf id e = some data := by
  unfold topic at h
  split at h
  next data hdata =>
    refine ⟨data, hdata, ?_⟩
    simp only [changeOf, hdata]
    exact if_pos (Option.some.inj h)
  next => cases h

theorem changeOf_of_topic_ne {e : Event A} (h : topic e ≠ some id) : changeOf id e = none := by
  unfold topic at h
  unfold changeOf
  split
  next data hdata =>
    rw [hdata] at h
    exact if_neg fun hid => h (congrArg some hid)
  next => rfl

theorem lookup_replay (es : List (Event A)) :
    (replay es).lookup id = (changesOf id es).getLast?.bind StateChangedData.newState := by
  induction es using List.reverseRecOn with
  | nil => rfl
  | append_singleton es e ih =>
    have hreplay : replay (es ++ [e]) = applyChange (replay es) e := by
      rw [replay, List.foldl_append]
      rfl
    have hchanges : changesOf id (es ++ [e]) = changesOf id es ++ (changeOf id e).toList := by
      rw [changesOf, List.filterMap_append]
      cases hchange : changeOf id e with
      | none => simp [hchange, changesOf]
      | some data => simp [hchange, changesOf]
    rw [hreplay, hchanges]
    obtain ⟨eventType, data, origin, context⟩ := e
    cases data with
    | stateReported data =>
      show (replay es).lookup id = _
      rw [ih]
      simp [changeOf]
    | stateChanged data =>
      obtain ⟨entityId, oldState, newState⟩ := data
      by_cases hid : entityId = id
      · subst hid
        cases newState with
        | none =>
          show ((replay es).erase entityId).lookup entityId = _
          simp [changeOf]
        | some new =>
          show ((replay es).insert entityId new).lookup entityId = _
          simp [changeOf]
      · cases newState with
        | none =>
          show ((replay es).erase entityId).lookup id = _
          rw [AList.lookup_erase_ne (Ne.symm hid), ih]
          simp [changeOf, hid]
        | some new =>
          show ((replay es).insert entityId new).lookup id = _
          rw [AList.lookup_insert_ne (Ne.symm hid), ih]
          simp [changeOf, hid]

theorem filterMap_range_getElem? {α β : Type} (l : List α) (g : α → Option β) :
    (List.range l.length).filterMap (fun n => l[n]?.bind g) = l.filterMap g := by
  induction l using List.reverseRecOn with
  | nil => rfl
  | append_singleton l a ih =>
    rw [List.length_append, List.length_singleton, List.range_succ, List.filterMap_append,
      List.filterMap_append, ← ih]
    refine congrArg₂ _ ?_ ?_
    · apply List.filterMap_congr
      intro n hn
      rw [List.getElem?_append_left (List.mem_range.mp hn)]
    · simp [List.filterMap_cons]

namespace Callers

variable {bus : BusInner A} {sys sys' : Callers A τ} {f : Fanout (Option String) Nat}
  {l : Listener A}

theorem Sim.changesOf_received (h : Sim bus sys f) (r : Nat) :
    changesOf id ((sys.received r).map Prod.snd)
      = (f.got (some id) r).filterMap fun n => sys.committed[n]?.bind (changeOf id) := by
  rw [Fanout.got, h.received, List.filter_map, List.filterMap_map, changesOf, List.filterMap_map,
    List.filterMap_filter]
  apply List.filterMap_congr
  intro p hp
  show changeOf id p.2 = if decide (f.About (some id) p.1) then _ else _
  have hevent := h.delivered r p hp
  split
  next => simp [hevent]
  next hnot =>
    apply changeOf_of_topic_ne
    intro htopic
    exact hnot (decide_eq_true (h.about_iff.mpr ⟨p.2, hevent, htopic⟩))

theorem Sim.changesOf_numbers (h : Sim bus sys f) (hbus : bus.WellFormed)
    (hproper : ∀ e ∈ sys.committed, Proper e) (hl : l ∈ bus.snapshot EVENT_STATE_CHANGED) :
    ((f.numbers (some id) l.id).filterMap fun n => sys.committed[n]?.bind (changeOf id))
      = changesOf id (sys.committed.filter fun e => l.accepts e) := by
  have hlength : f.items.length = sys.committed.length := by rw [h.items, List.length_map]
  rw [changesOf, List.filterMap_filter, ← filterMap_range_getElem? sys.committed, Fanout.numbers,
    List.filterMap_filter, hlength]
  apply List.filterMap_congr
  intro n hn
  obtain ⟨e, hevent⟩ : ∃ e, sys.committed[n]? = some e :=
    ⟨_, List.getElem?_eq_getElem (List.mem_range.mp hn)⟩
  rw [hevent, Option.bind_some, Option.bind_some]
  by_cases htopic : topic e = some id
  · obtain ⟨data, hdata, -⟩ := changeOf_of_topic htopic
    have htype : e.eventType = EVENT_STATE_CHANGED := by
      have he := hproper e (List.mem_of_getElem? hevent)
      rwa [Proper, hdata] at he
    have habout : f.About (some id) n := h.about_iff.mpr ⟨e, hevent, htopic⟩
    have hmem : l.id ∈ f.audience n ↔ l.accepts e = true := by
      rw [h.audience_eq hevent]
      exact hbus.mem_audience_iff (htype ▸ by decide) (htype ▸ hl)
    simp only [habout, hmem, true_and, Bool.decide_eq_true]
  · rw [changeOf_of_topic_ne htopic, ite_self, ite_self]

/-! ## Runs -/

/-- What every step keeps: the events fired are well formed and make up a copy of the store. -/
structure Inv (sys : Callers A τ) : Prop where
  keyed : Keyed sys.machine.states
  proper : ∀ e ∈ sys.committed, Proper e
  copies : Copies (replay sys.committed) sys.machine.states

theorem inv_init : Inv (init : Callers A τ) where
  keyed := keyed_empty
  proper := by simp [init]
  copies := by
    intro id
    simp [init, replay, StateMachine.new, States.empty, States.get]

theorem inv_step [BEq A] [DecidableEq τ] {label : Label A τ} (h : Inv sys)
    (hstep : step bus sys label = some sys') : Inv sys' := by
  cases label with
  | commit t c =>
    obtain rfl := step_commit hstep
    have heffect := perform_effect sys.machine c
    refine ⟨heffect.keyed h.keyed, ?_, ?_⟩
    · intro e he
      obtain hold | hnew := List.mem_append.mp he
      · exact h.proper e hold
      · obtain hfires | ⟨e', hfires, hproper⟩ := heffect.fires_cases
        · rw [hfires] at hnew
          cases hnew
        · rw [hfires] at hnew
          exact List.mem_singleton.mp hnew ▸ hproper
    · show Copies (replay (sys.committed ++ _)) _
      rw [replay, List.foldl_append]
      exact (heffect.copies h.keyed h.copies).2
  | fire t =>
    obtain ⟨n, e, outer, -, rfl⟩ := step_fire hstep
    exact ⟨h.keyed, h.proper, h.copies⟩
  | serve t =>
    obtain ⟨n, e, l, ls, outer, -, ⟨-, rfl⟩ | ⟨-, rfl⟩⟩ := step_serve hstep
    · exact ⟨h.keyed, h.proper, h.copies⟩
    · exact ⟨h.keyed, h.proper, h.copies⟩
  | back t =>
    obtain ⟨n, e, ls, outer, -, rfl⟩ := step_back hstep
    exact ⟨h.keyed, h.proper, h.copies⟩
  | finish t =>
    obtain ⟨n, e, outer, -, rfl⟩ := step_finish hstep
    exact ⟨h.keyed, h.proper, h.copies⟩

theorem run_sim [BEq A] [DecidableEq τ] (hbus : bus.WellFormed) {labels : List (Label A τ)}
    (hrun : Runs.run (step bus) init labels = some sys) :
    Inv sys ∧ ∃ f, Sim bus sys f ∧ f.Exact := by
  apply Runs.invariant _ _ hrun
  · rintro s label t ⟨hinv, f, hsim, he⟩ hstep
    obtain ⟨f', hsim', he', -⟩ := hsim.step hbus he hstep
    exact ⟨inv_step hinv hstep, f', hsim', he'⟩
  · exact ⟨inv_init, _, sim_init, Fanout.exact_empty⟩

theorem run_ordered [BEq A] [DecidableEq τ] (hbus : bus.WellFormed) {labels : List (Label A τ)}
    (hrun : Runs.run (step bus) init labels = some sys)
    (hturn : Runs.Along (step bus) (InTurn bus id) init labels) :
    ∃ f, Sim bus sys f ∧ f.Exact ∧ f.Ordered (some id) := by
  apply Runs.invariant_along _ hturn _ hrun
  · rintro s label t hlabel ⟨f, hsim, he, ho⟩ hstep
    obtain ⟨f', hsim', he', ho'⟩ := hsim.step hbus he hstep
    exact ⟨f', hsim', he', ho' id ho hlabel⟩
  · exact ⟨_, sim_init, Fanout.exact_empty, Fanout.ordered_empty⟩

theorem Sim.owed_nil (h : Sim bus sys f) (hquiet : Quiet sys) (n : Nat) : f.owed n = [] := by
  by_contra howed
  obtain ⟨t, fr, hfr, -⟩ := h.held n howed
  rw [hquiet t] at hfr
  cases hfr

/-- The listener received only what was committed, nothing twice, and once all calls have returned
every change that its filter lets pass. -/
structure Once (sys : Callers A τ) (l : Listener A) : Prop where
  nodup : ((sys.received l.id).map Prod.fst).Nodup
  committed : ∀ p ∈ sys.received l.id, sys.committed[p.1]? = some p.2
  all : Quiet sys → ∀ n e data, sys.committed[n]? = some e → e.data = .stateChanged data →
    ((n, e) ∈ sys.received l.id ↔ l.accepts e = true)

/-- The listener received the changes of the entity in the order of the commits, and once all calls
have returned the last of them has the state that the store holds, as it was last updated. -/
structure InOrder (sys : Callers A τ) (l : Listener A) (id : String) : Prop where
  begins : changesOf id ((sys.received l.id).map Prod.snd)
    <+: changesOf id (sys.committed.filter fun e => l.accepts e)
  complete : Quiet sys → changesOf id ((sys.received l.id).map Prod.snd)
    = changesOf id (sys.committed.filter fun e => l.accepts e)
  last : Quiet sys → l.filter = none →
    (changesOf id ((sys.received l.id).map Prod.snd)).getLast?.bind StateChangedData.newState
      = (sys.machine.states.get id).map State.asUpdated

/-- In every run each listener gets each change once, and the changes of an entity in the order of
the commits if they are fired in turn. -/
theorem listeners_follow [BEq A] [DecidableEq τ] {registrations : List (Registration A)}
    {labels : List (Label A τ)} {sys : Callers A τ}
    (hrun : Runs.run (step (.registered registrations)) init labels = some sys)
    {l : Listener A} (hl : l ∈ (BusInner.registered registrations).snapshot EVENT_STATE_CHANGED) :
    Once sys l ∧ ∀ id,
      Runs.Along (step (.registered registrations)) (InTurn (.registered registrations) id) init
        labels → InOrder sys l id := by
  have hbus := BusInner.wellFormed_registered registrations
  obtain ⟨hinv, f, hsim, he⟩ := run_sim hbus hrun
  refine ⟨⟨?_, hsim.delivered l.id, ?_⟩, fun id hturn => ?_⟩
  · rw [← hsim.received]
    exact he.nodup_received l.id
  · intro hquiet n e data hevent hdata
    have htype : e.eventType = EVENT_STATE_CHANGED := by
      have hproper := hinv.proper e (List.mem_of_getElem? hevent)
      rwa [Proper, hdata] at hproper
    have hmem := he.mem_received_iff (r := l.id) (hsim.owed_nil hquiet n)
    rw [hsim.audience_eq hevent, hbus.mem_audience_iff (htype ▸ by decide) (htype ▸ hl),
      hsim.received] at hmem
    rw [← hmem]
    constructor
    · exact fun hin => List.mem_map_of_mem hin
    · intro hin
      obtain ⟨p, hp, rfl⟩ := List.mem_map.mp hin
      have hp' := hsim.delivered l.id p hp
      rwa [← Option.some.inj (hp'.symm.trans hevent)]
  · obtain ⟨f, hsim, he, ho⟩ := run_ordered hbus hrun hturn
    have hcomplete : Quiet sys → changesOf id ((sys.received l.id).map Prod.snd)
        = changesOf id (sys.committed.filter fun e => l.accepts e) := by
      intro hquiet
      rw [hsim.changesOf_received, ho.got_eq (hsim.owed_nil hquiet),
        hsim.changesOf_numbers hbus hinv.proper hl]
    refine ⟨?_, hcomplete, fun hquiet hfilter => ?_⟩
    · rw [hsim.changesOf_received, ← hsim.changesOf_numbers hbus hinv.proper hl]
      exact (ho.got_prefix l.id).filterMap _
    · have hall : sys.committed.filter (fun e => l.accepts e) = sys.committed :=
        List.filter_eq_self.mpr fun e _ => by rw [Listener.accepts, hfilter]; rfl
      rw [hcomplete hquiet, hall, ← lookup_replay]
      exact hinv.copies id

/-- Two listeners to changes. -/
def demoListeners : List (Registration Nat) :=
  [.listen EVENT_STATE_CHANGED, .listen EVENT_STATE_CHANGED]

def demoSet (t : Bool) (state : String) : Label Nat Bool :=
  .commit t ⟨0, .set ⟨"c", none, none⟩ "light.kitchen" state 0 false none⟩

/-- One thread fires its change before the next one does. -/
def demoInTurn : List (Label Nat Bool) :=
  [demoSet false "on", .fire false, .serve false, .back false, .serve false, demoSet false "off",
    .fire false, .serve false, .back false, .serve false, .back false, .finish false,
    .back false, .finish false]

/-- The second listener is the last one to be served when it switches the lamp off. -/
theorem listeners_follow_demo :
    ∃ sys, Runs.run (step (.registered demoListeners)) init demoInTurn = some sys ∧
      Once sys ⟨2, none⟩ ∧ InOrder sys ⟨2, none⟩ "light.kitchen" := by
  have hrun : Runs.run (step (.registered demoListeners)) init demoInTurn
      = some ((Runs.run (step (.registered demoListeners)) init demoInTurn).get
        (by decide)) :=
    (Option.some_get _).symm
  have hl : (⟨2, none⟩ : Listener Nat) ∈
      (BusInner.registered demoListeners).snapshot EVENT_STATE_CHANGED := by
    show (⟨2, none⟩ : Listener Nat) ∈ [⟨1, none⟩, ⟨2, none⟩]
    exact List.mem_cons_of_mem _ List.mem_cons_self
  have hfollow := listeners_follow hrun hl
  exact ⟨_, hrun, hfollow.1, hfollow.2 "light.kitchen" (by decide)⟩

/-- The first listener switches the lamp off again as soon as it is on. -/
def demoNested : List (Label Nat Bool) :=
  [demoSet false "on", .fire false, .serve false, demoSet false "off", .fire false,
    .serve false, .back false, .serve false, .back false, .finish false,
    .back false, .serve false, .back false, .finish false]

/-- The second listener is told of the later change first: it takes the lamp for on, and the store
has it off. -/
theorem nested_change_overtakes :
    ∃ sys, Runs.run (step (.registered demoListeners)) init demoNested = some sys ∧ Quiet sys ∧
      ¬changesOf "light.kitchen" ((sys.received 2).map Prod.snd)
        <+: changesOf "light.kitchen" sys.committed ∧
      (((changesOf "light.kitchen" ((sys.received 2).map Prod.snd)).getLast?.bind
        StateChangedData.newState).map State.state) = some "on" ∧
      (sys.machine.states.get "light.kitchen").map State.state = some "off" := by
  have hrun : Runs.run (step (.registered demoListeners)) init demoNested
      = some ((Runs.run (step (.registered demoListeners)) init demoNested).get
        (by decide)) :=
    (Option.some_get _).symm
  refine ⟨_, hrun, ?_, by decide, by decide, by decide⟩
  intro t
  cases t
  · decide
  · decide

end Callers

end CaveHome.Automation
