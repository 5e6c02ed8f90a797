import CaveHome.Lib.Decoder
import CaveHome.Scheduler.Plugins

/-!
# Scheduling one pod

The nodes that pass the filters are scored, and the best of them is suggested.  Where no node
passes, preemption may nominate one.
-/

namespace CaveHome.Scheduler

structure ScheduleResult where
  suggestedHost : Option String := none
  evaluatedNodes : Nat
  feasibleNodes : Nat := 0
  nominatedNode : Option String := none
  filterFailures : FilterFailureMap
  error : Option Status := none

namespace ScheduleResult

def unschedulable (failures : FilterFailureMap) (total : Nat) : ScheduleResult :=
  { evaluatedNodes := total, filterFailures := failures }

/-- The scores could not be computed. -/
def scoreError (status : Status) (total feasible : Nat) (failures : FilterFailureMap) :
    ScheduleResult :=
  { evaluatedNodes := total, feasibleNodes := feasible, filterFailures := failures,
    error := some status }

end ScheduleResult

def NodeInfo.name (node : NodeInfo) : String := node.node.metadata.name

variable (pod : Pod)

/-- Prepare the state of the cycle and narrow the nodes down. -/
def applyPreFilters (allNodes : List NodeInfo) :
    List PreFilterPlugin → Option (List String) → CycleState →
      Except ScheduleResult (List NodeInfo × CycleState)
  | [], none, state => .ok (allNodes, state)
  | [], some names, state => .ok (allNodes.filter (names.contains ·.name), state)
  | plugin :: plugins, allowed, state =>
    let (state, result, status) := plugin.preFilter state pod
    if status.isSuccess then
      match result >>= (·.nodeNames), allowed with
      | none, allowed => applyPreFilters allNodes plugins allowed state
      | some names, none => applyPreFilters allNodes plugins (some names) state
      | some names, some existing =>
        applyPreFilters allNodes plugins (some (existing.filter (names.contains ·))) state
    else
      let failures := allNodes.foldl (fun failures node => failures.insert node.name status) ∅
      .error { ScheduleResult.unschedulable failures allNodes.length with
        error := if status.code = .error then some status else none }

/-- The nodes that pass the filters, up to the limit. -/
def filterNodes (filters : List FilterPlugin) (limit : Nat) :
    List NodeInfo → List NodeInfo → FilterFailureMap → CycleState →
      List NodeInfo × FilterFailureMap × CycleState
  | [], feasible, failures, state => (feasible, failures, state)
  | node :: nodes, feasible, failures, state =>
    if limit ≤ feasible.length then (feasible, failures, state)
    else
      let (state, status) := runFilters pod node filters state
      if status.isSuccess then filterNodes filters limit nodes (feasible ++ [node]) failures state
      else filterNodes filters limit nodes feasible (failures.insert node.name status) state

/-- The first nomination of a plugin. -/
def runPostFilters (nodes : List NodeInfo) (failures : FilterFailureMap)
    (registry : FilterRegistry) : List PostFilterPlugin → CycleState → Option String
  | [], _ => none
  | plugin :: plugins, state =>
    let (state, nominee, status) := plugin.postFilter state pod nodes failures registry
    if status.isSuccess && nominee.isSome then nominee
    else runPostFilters nodes failures registry plugins state

/-! ## Scoring -/

def runPreScores (feasible : List NodeInfo) :
    List PreScorePlugin → CycleState → Except Status CycleState
  | [], state => .ok state
  | plugin :: plugins, state =>
    let (state, status) := plugin.preScore state pod feasible
    if status.isSuccess then runPreScores feasible plugins state else .error status

/-- The scores that a plugin gives the nodes. -/
def scoreNodes (plugin : ScorePlugin) :
    List NodeInfo → CycleState → Except Status (List NodeScore × CycleState)
  | [], state => .ok ([], state)
  | node :: nodes, state => do
    let (state, score, status) := plugin.score state pod node
    if status.isSuccess then
      let (scores, state) ← scoreNodes plugin nodes state
      return (⟨node.name, score⟩ :: scores, state)
    else .error status

/-- Add the scores of a plugin to the totals, once they are in range. -/
def accumulate (plugin : ScorePlugin) :
    List (String × Int) → List NodeScore → Except Status (List (String × Int))
  | slot :: totals, ns :: scores =>
    if ns.score < minNodeScore ∨ maxNodeScore < ns.score then
      .error (.error plugin.name ("score " ++ toString ns.score ++ " for node " ++ ns.name ++
        " out of range [" ++ toString minNodeScore ++ ", " ++ toString maxNodeScore ++ "]"))
    else do
      let totals ← accumulate plugin totals scores
      return (slot.1, I64.saturatingAdd slot.2 (I64.saturatingMul ns.score plugin.weight)) :: totals
  | totals, _ => .ok totals

def runScores (feasible : List NodeInfo) :
    List ScorePlugin → List (String × Int) → CycleState → Except Status (List (String × Int))
  | [], totals, _ => .ok totals
  | plugin :: plugins, totals, state => do
    let (scores, state) ← scoreNodes pod plugin feasible state
    let (state, scores, status) := plugin.normalizeScore state pod scores
    if status.isSuccess then
      let totals ← accumulate plugin totals scores
      runScores feasible plugins totals state
    else .error status

/-- The name with the greatest total, the last of them. -/
def bestOf : List (String × Int) → Option (String × Int)
  | [] => none
  | slot :: totals =>
    match bestOf totals with
    | none => some slot
    | some best => if best.2 < slot.2 then some slot else some best

def scheduleOneLimited (cache : SchedulerCache) (registry : PluginRegistry) (feasibleLimit : Nat) :
    ScheduleResult :=
  let allNodes := cache.snapshot
  let total := allNodes.length
  match applyPreFilters pod allNodes registry.preFilters none {} with
  | .error result => result
  | .ok (nodes, state) =>
    let (feasible, failures, state) :=
      filterNodes pod registry.filters feasibleLimit nodes [] ∅ state
    if feasible.isEmpty then
      { ScheduleResult.unschedulable failures total with
        nominatedNode := runPostFilters pod nodes failures registry.toFilterRegistry
          registry.postFilters state }
    else
      match runPreScores pod feasible registry.preScores state with
      | .error status => .scoreError status total feasible.length failures
      | .ok state =>
        match runScores pod feasible registry.scores (feasible.map fun n => (n.name, 0)) state with
        | .error status => .scoreError status total feasible.length failures
        | .ok totals =>
          { suggestedHost := (bestOf totals).map (·.1), evaluatedNodes := total,
            feasibleNodes := feasible.length, filterFailures := failures }

/-- Without a limit on the nodes, which is the largest machine number. -/
def scheduleOne (cache : SchedulerCache) (registry : PluginRegistry) : ScheduleResult :=
  scheduleOneLimited pod cache registry 18446744073709551615

/-! ## The suggested host passes the filters -/

variable {pod}

theorem filterNodes_mem {filters : List FilterPlugin} (hstateless : Stateless filters) {limit : Nat}
    {nodes feasible : List NodeInfo} {failures : FilterFailureMap} {state : CycleState}
    {node : NodeInfo} (h : node ∈ (filterNodes pod filters limit nodes feasible failures state).1) :
    node ∈ feasible ∨ node ∈ nodes ∧ (runFilters pod node filters state).2.isSuccess := by
  induction nodes generalizing feasible failures with
  | nil => exact .inl h
  | cons n nodes ih =>
    rw [filterNodes] at h
    split at h
    · exact .inl h
    · simp only [runFilters_stateless hstateless] at h
      split at h
      next hpass =>
        obtain hmem | ⟨hmem, hnode⟩ := ih h
        · obtain hmem | hmem := List.mem_append.mp hmem
          · exact .inl hmem
          · rw [List.mem_singleton.mp hmem]
            exact .inr ⟨List.mem_cons_self, hpass⟩
        · exact .inr ⟨List.mem_cons_of_mem n hmem, hnode⟩
      · obtain hmem | ⟨hmem, hnode⟩ := ih h
        · exact .inl hmem
        · exact .inr ⟨List.mem_cons_of_mem n hmem, hnode⟩

theorem accumulate_names {plugin : ScorePlugin} {totals totals' : List (String × Int)}
    {scores : List NodeScore} (h : accumulate plugin totals scores = .ok totals') :
    totals'.map (·.1) = totals.map (·.1) := by
  induction totals generalizing scores totals' with
  | nil =>
    obtain rfl := Except.ok.inj h
    rfl
  | cons slot totals ih =>
    cases scores with
    | nil =>
      obtain rfl := Except.ok.inj h
      rfl
    | cons ns scores =>
      rw [accumulate] at h
      split at h
      · cases h
      · obtain ⟨rest, hrest, hcons⟩ := Except.bind_eq_ok_iff.mp h
        obtain rfl := Except.ok.inj hcons
        rw [List.map_cons, List.map_cons, ih hrest]

theorem runScores_names {feasible : List NodeInfo} {plugins : List ScorePlugin}
    {totals totals' : List (String × Int)} {state : CycleState}
    (h : runScores pod feasible plugins totals state = .ok totals') :
    totals'.map (·.1) = totals.map (·.1) := by
  induction plugins generalizing totals state with
  | nil =>
    obtain rfl := Except.ok.inj h
    rfl
  | cons plugin plugins ih =>
    obtain ⟨⟨scores, state₁⟩, -, h⟩ := Except.bind_eq_ok_iff.mp h
    dsimp only at h
    split at h
    · obtain ⟨totals₁, htotals₁, hrest⟩ := Except.bind_eq_ok_iff.mp h
      rw [ih hrest, accumulate_names htotals₁]
    · cases h

theorem bestOf_mem {totals : List (String × Int)} {best : String × Int}
    (h : bestOf totals = some best) : best ∈ totals := by
  induction totals generalizing best with
  | nil => cases h
  | cons slot totals ih =>
    rw [bestOf] at h
    split at h
    · exact Option.some.inj h ▸ List.mem_cons_self
    next other hother =>
      split at h
      · exact Option.some.inj h ▸ List.mem_cons_self
      · exact List.mem_cons_of_mem slot (ih (hother.trans h))

theorem applyPreFilters_error {allNodes : List NodeInfo} {plugins : List PreFilterPlugin}
    {allowed : Option (List String)} {state : CycleState} {result : ScheduleResult}
    (h : applyPreFilters pod allNodes plugins allowed state = .error result) :
    result.suggestedHost = none := by
  induction plugins generalizing allowed state with
  | nil => cases allowed <;> cases h
  | cons plugin plugins ih =>
    rw [applyPreFilters] at h
    dsimp only at h
    split at h
    · split at h <;> exact ih h
    · obtain rfl := Except.error.inj h
      rfl

theorem scheduleOneLimited_host {cache : SchedulerCache} {registry : PluginRegistry} {limit : Nat}
    {host : String} (hstateless : Stateless registry.filters)
    (h : (scheduleOneLimited pod cache registry limit).suggestedHost = some host) :
    ∃ nodes state, applyPreFilters pod cache.snapshot registry.preFilters none {} =
        .ok (nodes, state) ∧
      ∃ node ∈ nodes, node.name = host ∧
        ∀ f ∈ registry.filters, (f.filter state pod node).2.isSuccess := by
  rw [scheduleOneLimited] at h
  dsimp only at h
  split at h
  next result hresult =>
    rw [applyPreFilters_error hresult] at h
    cases h
  next nodes state hok =>
    refine ⟨nodes, state, hok, ?_⟩
    split at h
    · cases h
    split at h
    · cases h
    split at h
    · cases h
    next totals htotals =>
      obtain ⟨best, hbest, rfl⟩ := Option.map_eq_some_iff.mp h
      have hname : best.1 ∈ totals.map (·.1) := List.mem_map_of_mem (bestOf_mem hbest)
      rw [runScores_names htotals, List.map_map] at hname
      obtain ⟨node, hnode, heq⟩ := List.mem_map.mp hname
      obtain hmem | ⟨hmem, hpass⟩ := filterNodes_mem hstateless hnode
      · cases hmem
      · exact ⟨node, hmem, heq, runFilters_isSuccess hstateless hpass⟩

end CaveHome.Scheduler
