import CaveHome.Scheduler.ScheduleOne
import Mathlib.Data.List.Nodup
import Mathlib.Tactic.IntervalCases

/-!
# The choice of the host

The score plugins are asked one after the other, each for all the nodes that passed the filters, and
what they say is added up for each node by its position.  A node with the greatest total is
suggested.  Of several it is the last, where the first is meant.
-/

namespace CaveHome.Scheduler

variable {pod : Pod}

namespace SchedulerCache

variable {c : SchedulerCache}

/-- Nodes are filed under their names. -/
def Named (c : SchedulerCache) : Prop := Dict.All (fun key info => key = info.name) c.nodes

theorem Named.step (h : c.Named) (op : Op) : (c.step op).Named := by
  refine step_all (fun node info _ => rfl) (fun name info pod hname => ?_)
    (fun name info pod hname => ?_) h op
  · rw [NodeInfo.name, NodeInfo.addPod_node]
    exact hname
  · rw [NodeInfo.name, NodeInfo.removePod_node]
    exact hname

theorem Run.named {cond : SchedulerCache → Op → Prop} {ops : List Op} (hrun : Run cond ops c) :
    c.Named := by
  induction hrun with
  | start => exact Dict.all_empty
  | call _ op _ ih => exact ih.step op

theorem Named.nodup_snapshot (h : c.Named) : (c.snapshot.map (·.name)).Nodup := by
  have hperm := List.perm_insertionSort (fun e e' : Sigma fun _ : String => NodeInfo => e.1 ≤ e'.1)
    c.nodes.entries
  have hnames : c.nodes.entries.map (fun e => e.2.name) = c.nodes.entries.map (·.1) :=
    List.map_congr_left fun e he => (h e.1 e.2 (Dict.mem_entries_iff.mp he)).symm
  rw [snapshot, List.map_map]
  refine ((hperm.map fun e => e.2.name).nodup_iff).mpr ?_
  rw [hnames]
  exact c.nodes.nodupKeys

end SchedulerCache

/-! ## The feasible nodes -/

/-- Each filter accepts the node, in the state that those before it leave. -/
def Passes (pod : Pod) (node : NodeInfo) : List FilterPlugin → CycleState → Prop
  | [], _ => True
  | plugin :: plugins, state => (plugin.filter state pod node).2.isSuccess = true ∧
      Passes pod node plugins (plugin.filter state pod node).1

theorem runFilters_iff_passes {node : NodeInfo} {filters : List FilterPlugin} {state : CycleState} :
    (runFilters pod node filters state).2.isSuccess = true ↔ Passes pod node filters state := by
  induction filters generalizing state with
  | nil => exact iff_of_true rfl trivial
  | cons plugin plugins ih =>
    rw [runFilters, Passes]
    dsimp only
    split
    next hs => rw [ih, and_iff_right hs]
    next hs => exact iff_of_false hs fun h => hs h.1

/-- The filters accept the node when its turn comes. -/
def Accepted (pod : Pod) (filters : List FilterPlugin) (limit : Nat) (nodes : List NodeInfo)
    (state : CycleState) (node : NodeInfo) : Prop :=
  ∃ before after, nodes = before ++ node :: after ∧
    Passes pod node filters (filterNodes pod filters limit before [] ∅ state).2.2

theorem filterNodes_accepted {filters : List FilterPlugin} {limit : Nat}
    {nodes feasible : List NodeInfo} {failures : FilterFailureMap} {state : CycleState}
    {node : NodeInfo} (h : node ∈ (filterNodes pod filters limit nodes feasible failures state).1) :
    node ∈ feasible ∨ ∃ before after, nodes = before ++ node :: after ∧
      Passes pod node filters (filterNodes pod filters limit before feasible failures state).2.2 := by
  induction nodes generalizing feasible failures state with
  | nil => exact .inl h
  | cons n nodes ih =>
    -- what the rest does when `n` was filtered before it
    have hnext {feasible' : List NodeInfo} {failures' : FilterFailureMap} {state' : CycleState}
        (hstep : ∀ nodes, filterNodes pod filters limit (n :: nodes) feasible failures state =
          filterNodes pod filters limit nodes feasible' failures' state')
        (hrest : ∃ before after, nodes = before ++ node :: after ∧
          Passes pod node filters (filterNodes pod filters limit before feasible' failures'
            state').2.2) :
        ∃ before after, n :: nodes = before ++ node :: after ∧ Passes pod node filters
          (filterNodes pod filters limit before feasible failures state).2.2 := by
      obtain ⟨before, after, rfl, hpass⟩ := hrest
      exact ⟨n :: before, after, rfl, by rwa [hstep]⟩
    by_cases hlimit : limit ≤ feasible.length
    · rw [filterNodes, if_pos hlimit] at h
      exact .inl h
    by_cases hs : (runFilters pod n filters state).2.isSuccess = true
    · have hstep (nodes : List NodeInfo) :
          filterNodes pod filters limit (n :: nodes) feasible failures state =
            filterNodes pod filters limit nodes (feasible ++ [n]) failures
              (runFilters pod n filters state).1 := by
        rw [filterNodes, if_neg hlimit]
        exact if_pos hs
      rw [hstep] at h
      obtain hmem | hrest := ih h
      · obtain hmem | hmem := List.mem_append.mp hmem
        · exact .inl hmem
        · obtain rfl := List.mem_singleton.mp hmem
          exact .inr ⟨[], nodes, rfl, runFilters_iff_passes.mp hs⟩
      · exact .inr (hnext hstep hrest)
    · have hstep (nodes : List NodeInfo) :
          filterNodes pod filters limit (n :: nodes) feasible failures state =
            filterNodes pod filters limit nodes feasible
              (failures.insert n.name (runFilters pod n filters state).2)
              (runFilters pod n filters state).1 := by
        rw [filterNodes, if_neg hlimit]
        exact if_neg hs
      rw [hstep] at h
      exact (ih h).imp_right (hnext hstep)

theorem applyPreFilters_sublist {allNodes nodes : List NodeInfo} {plugins : List PreFilterPlugin}
    {allowed : Option (List String)} {state state' : CycleState}
    (h : applyPreFilters pod allNodes plugins allowed state = .ok (nodes, state')) :
    nodes.Sublist allNodes := by
  induction plugins generalizing allowed state with
  | nil =>
    cases allowed with
    | none =>
      obtain ⟨rfl, -⟩ := Prod.mk.inj (Except.ok.inj h)
      exact .refl _
    | some names =>
      obtain ⟨rfl, -⟩ := Prod.mk.inj (Except.ok.inj h)
      exact List.filter_sublist
  | cons plugin plugins ih =>
    rw [applyPreFilters] at h
    dsimp only at h
    split at h
    · split at h <;> exact ih h
    · cases h

theorem filterNodes_sublist {filters : List FilterPlugin} {limit : Nat}
    (nodes feasible : List NodeInfo) (failures : FilterFailureMap) (state : CycleState) :
    (filterNodes pod filters limit nodes feasible failures state).1.Sublist (feasible ++ nodes) := by
  induction nodes generalizing feasible failures state with
  | nil =>
    rw [List.append_nil]
    exact .refl _
  | cons n nodes ih =>
    rw [filterNodes]
    split
    · exact List.sublist_append_left _ _
    dsimp only
    split
    · have h := ih (feasible ++ [n]) failures (runFilters pod n filters state).1
      rwa [List.append_assoc, List.singleton_append] at h
    · exact (ih feasible _ _).trans ((List.sublist_cons_self n nodes).append_left feasible)

/-! ## The totals -/

/-- The normalised scores of each plugin, where all of them succeed. -/
def scoreTable (pod : Pod) (feasible : List NodeInfo) :
    List ScorePlugin → CycleState → Except Status (List (ScorePlugin × List NodeScore))
  | [], _ => .ok []
  | plugin :: plugins, state => do
    let (scores, state) ← scoreNodes pod plugin feasible state
    let (state, scores, status) := plugin.normalizeScore state pod scores
    if status.isSuccess then
      let table ← scoreTable pod feasible plugins state
      return (plugin, scores) :: table
    else .error status

/-- A total with a weighted score added to it, as signed 64-bit numbers. -/
def weigh (plugin : ScorePlugin) (total : Int) : Option NodeScore → Int
  | some ns => I64.saturatingAdd total (I64.saturatingMul ns.score plugin.weight)
  | none => total

/-- The weighted scores of the node at a position, added up. -/
def totalAt (table : List (ScorePlugin × List NodeScore)) (i : Nat) : Int :=
  table.foldl (fun total row => weigh row.1 total row.2[i]?) 0

/-- A score that plugins may give. -/
def NodeScore.InRange (ns : NodeScore) : Prop := minNodeScore ≤ ns.score ∧ ns.score ≤ maxNodeScore

theorem accumulate_getElem? (plugin : ScorePlugin) {scores : List NodeScore}
    (h : ∀ ns ∈ scores, ns.InRange) (totals : List (String × Int)) :
    ∃ totals', accumulate plugin totals scores = .ok totals' ∧
      ∀ i : Nat, totals'[i]? =
        (totals[i]?).map fun slot => (slot.1, weigh plugin slot.2 scores[i]?) := by
  induction totals generalizing scores with
  | nil => exact ⟨[], by rw [accumulate]; simp, fun i => rfl⟩
  | cons slot totals ih =>
    cases scores with
    | nil =>
      refine ⟨slot :: totals, by rw [accumulate]; simp, fun i => ?_⟩
      simp [weigh]
    | cons ns scores =>
      obtain ⟨totals', hok, hslots⟩ := ih fun ns' hns => h ns' (List.mem_cons_of_mem ns hns)
      have hns : ns.InRange := h ns List.mem_cons_self
      refine ⟨(slot.1, weigh plugin slot.2 (some ns)) :: totals', ?_, fun i => ?_⟩
      · rw [accumulate, if_neg (not_or.mpr ⟨not_lt.mpr hns.1, not_lt.mpr hns.2⟩), hok]
        rfl
      · cases i with
        | zero => rfl
        | succ i => simpa using hslots i

theorem runScores_getElem? {feasible : List NodeInfo} {plugins : List ScorePlugin}
    {state : CycleState} {table : List (ScorePlugin × List NodeScore)}
    (htable : scoreTable pod feasible plugins state = .ok table)
    (hrange : ∀ row ∈ table, ∀ ns ∈ row.2, ns.InRange) (totals : List (String × Int)) :
    ∃ totals', runScores pod feasible plugins totals state = .ok totals' ∧
      ∀ i : Nat, totals'[i]? = (totals[i]?).map fun slot =>
        (slot.1, table.foldl (fun total row => weigh row.1 total row.2[i]?) slot.2) := by
  induction plugins generalizing state table totals with
  | nil =>
    obtain rfl := Except.ok.inj htable
    exact ⟨totals, rfl, fun i => by simp⟩
  | cons plugin plugins ih =>
    obtain ⟨⟨scores, state₁⟩, hscores, htable⟩ := Except.bind_eq_ok_iff.mp htable
    dsimp only at htable
    split at htable
    next hs =>
      obtain ⟨rest, hrest, hcons⟩ := Except.bind_eq_ok_iff.mp htable
      obtain rfl := Except.ok.inj hcons
      obtain ⟨totals₁, hok₁, hslots₁⟩ :=
        accumulate_getElem? plugin (hrange _ List.mem_cons_self) totals
      obtain ⟨totals₂, hok₂, hslots₂⟩ :=
        ih hrest (fun row hrow => hrange row (List.mem_cons_of_mem _ hrow)) totals₁
      refine ⟨totals₂, ?_, fun i => ?_⟩
      · refine Except.bind_eq_ok_iff.mpr ⟨_, hscores, ?_⟩
        dsimp only
        rw [if_pos hs]
        exact Except.bind_eq_ok_iff.mpr ⟨totals₁, hok₁, hok₂⟩
      · rw [hslots₂, hslots₁, Option.map_map]
        rfl
    next => cases htable

theorem bestOf_spec {totals : List (String × Int)} {best : String × Int}
    (h : bestOf totals = some best) :
    ∃ i : Nat, totals[i]? = some best ∧
      (∀ (j : Nat) slot, totals[j]? = some slot → slot.2 ≤ best.2) ∧
      ∀ (j : Nat) slot, i < j → totals[j]? = some slot → slot.2 < best.2 := by
  induction totals generalizing best with
  | nil => cases h
  | cons slot totals ih =>
    rw [bestOf] at h
    cases hrest : bestOf totals with
    | none =>
      rw [hrest] at h
      obtain rfl := Option.some.inj h
      have hnil : totals = [] := by
        cases totals with
        | nil => rfl
        | cons s totals =>
          rw [bestOf] at hrest
          split at hrest
          · cases hrest
          · split at hrest <;> cases hrest
      subst hnil
      refine ⟨0, rfl, fun j s hj => ?_, fun j s hlt hj => ?_⟩
      · cases j with
        | zero => exact le_of_eq (congrArg Prod.snd (Option.some.inj hj).symm)
        | succ j => cases hj
      · cases j with
        | zero => exact absurd hlt (lt_irrefl 0)
        | succ j => cases hj
    | some other =>
      obtain ⟨i, hi, hmax, hlast⟩ := ih hrest
      rw [hrest] at h
      dsimp only at h
      split at h
      next hlt =>
        obtain rfl := Option.some.inj h
        refine ⟨0, rfl, fun j s hj => ?_, fun j s h0 hj => ?_⟩
        · cases j with
          | zero => exact le_of_eq (congrArg Prod.snd (Option.some.inj hj).symm)
          | succ j => exact (hmax j s hj).trans hlt.le
        · cases j with
          | zero => exact absurd h0 (lt_irrefl 0)
          | succ j => exact (hmax j s hj).trans_lt hlt
      next hle =>
        obtain rfl := Option.some.inj h
        refine ⟨i + 1, hi, fun j s hj => ?_, fun j s hlt hj => ?_⟩
        · cases j with
          | zero =>
            obtain rfl := Option.some.inj hj
            exact not_lt.mp hle
          | succ j => exact hmax j s hj
        · cases j with
          | zero => exact absurd hlt (Nat.not_lt_zero _)
          | succ j => exact hlast j s (Nat.lt_of_succ_lt_succ hlt) hj

theorem bestOf_isSome {totals : List (String × Int)} (h : totals ≠ []) :
    ∃ best, bestOf totals = some best := by
  cases totals with
  | nil => exact absurd rfl h
  | cons slot totals =>
    rw [bestOf]
    split
    · exact ⟨_, rfl⟩
    · split <;> exact ⟨_, rfl⟩

/-! ## The cycle -/

/-- The node at the position has the greatest total of the feasible ones. -/
def Greatest (table : List (ScorePlugin × List NodeScore)) (feasible : List NodeInfo) (i : Nat) :
    Prop :=
  i < feasible.length ∧ ∀ j < feasible.length, totalAt table j ≤ totalAt table i

/-- A cycle in which all plugins succeed, from the nodes that the pre-filters leave to the scores. -/
structure Scored (pod : Pod) (cache : SchedulerCache) (registry : PluginRegistry) (limit : Nat)
    (nodes : List NodeInfo) (state : CycleState) (feasible : List NodeInfo)
    (table : List (ScorePlugin × List NodeScore)) : Prop where
  preFilters : applyPreFilters pod cache.snapshot registry.preFilters none {} = .ok (nodes, state)
  filters : (filterNodes pod registry.filters limit nodes [] ∅ state).1 = feasible
  nonempty : feasible ≠ []
  scores : ∃ state', runPreScores pod feasible registry.preScores
      (filterNodes pod registry.filters limit nodes [] ∅ state).2.2 = .ok state' ∧
    scoreTable pod feasible registry.scores state' = .ok table
  inRange : ∀ row ∈ table, ∀ ns ∈ row.2, ns.InRange

section

variable {cache : SchedulerCache} {registry : PluginRegistry} {limit : Nat}
  {nodes feasible : List NodeInfo} {state : CycleState}
  {table : List (ScorePlugin × List NodeScore)}

theorem Scored.accepted (h : Scored pod cache registry limit nodes state feasible table)
    {node : NodeInfo} (hnode : node ∈ feasible) :
    Accepted pod registry.filters limit nodes state node := by
  rw [← h.filters] at hnode
  exact (filterNodes_accepted hnode).resolve_left List.not_mem_nil

theorem Scored.nodup (h : Scored pod cache registry limit nodes state feasible table)
    (hnamed : cache.Named) : (feasible.map (·.name)).Nodup := by
  have hsub : feasible.Sublist cache.snapshot := by
    rw [← h.filters]
    exact (filterNodes_sublist nodes [] ∅ state).trans (applyPreFilters_sublist h.preFilters)
  exact hnamed.nodup_snapshot.sublist (hsub.map _)

theorem Scored.suggested (h : Scored pod cache registry limit nodes state feasible table) :
    ∃ (i : Nat) (node : NodeInfo), feasible[i]? = some node ∧
      (scheduleOneLimited pod cache registry limit).suggestedHost = some node.name ∧
      Greatest table feasible i ∧ ∀ j, i < j → ¬ Greatest table feasible j := by
  obtain ⟨state', hprescores, htable⟩ := h.scores
  obtain ⟨totals, hok, hslots⟩ :=
    runScores_getElem? htable h.inRange (feasible.map fun n => (n.name, 0))
  have hslot (i : Nat) :
      totals[i]? = (feasible[i]?).map fun node => (node.name, totalAt table i) := by
    rw [hslots, List.getElem?_map, Option.map_map]
    rfl
  have hne : totals ≠ [] := by
    rintro rfl
    cases hf : feasible with
    | nil => exact h.nonempty hf
    | cons node rest =>
      have h0 := hslot 0
      rw [hf] at h0
      cases h0
  obtain ⟨best, hbest⟩ := bestOf_isSome hne
  have hhost : (scheduleOneLimited pod cache registry limit).suggestedHost = some best.1 := by
    have hempty : feasible.isEmpty = false := by
      rw [← Bool.not_eq_true, List.isEmpty_iff]
      exact h.nonempty
    rw [scheduleOneLimited]
    dsimp only
    rw [h.preFilters]
    dsimp only
    rw [h.filters, hempty, if_neg Bool.false_ne_true, hprescores]
    dsimp only
    rw [hok]
    dsimp only
    rw [hbest]
    rfl
  obtain ⟨i, hi, hmax, hlast⟩ := bestOf_spec hbest
  rw [hslot] at hi
  obtain ⟨node, hnode, rfl⟩ := Option.map_eq_some_iff.mp hi
  have hat (j : Nat) (hj : j < feasible.length) :
      totals[j]? = some (feasible[j].name, totalAt table j) := by
    rw [hslot, List.getElem?_eq_getElem hj]
    rfl
  have hlen : i < feasible.length := (List.getElem?_eq_some_iff.mp hnode).1
  refine ⟨i, node, hnode, hhost, ⟨hlen, fun j hj => hmax j _ (hat j hj)⟩, fun j hij hj => ?_⟩
  exact absurd (hlast j _ hij (hat j hj.1)) (not_lt.mpr (hj.2 i hlen))

/-- The host suggested passes every filter, has the greatest total, and is the first such node in
the order of the snapshot, exactly when no other node has that total. -/
theorem suggestedHost_first_iff {ops : List SchedulerCache.Op}
    (hrun : SchedulerCache.Run (fun _ _ => True) ops cache)
    (h : Scored pod cache registry limit nodes state feasible table) :
    (∃ (i : Nat) (node : NodeInfo), feasible[i]? = some node ∧
      (scheduleOneLimited pod cache registry limit).suggestedHost = some node.name ∧
      Accepted pod registry.filters limit nodes state node ∧
      Greatest table feasible i ∧ ∀ j < i, ¬ Greatest table feasible j) ↔
    ∀ i j, Greatest table feasible i → Greatest table feasible j → i = j := by
  obtain ⟨last, node, hnode, hhost, hlast, hbehind⟩ := h.suggested
  constructor
  · rintro ⟨i, node', hnode', hhost', -, hi, hfirst⟩ j k hj hk
    -- the name tells the position
    have hname : node'.name = node.name := Option.some.inj (hhost'.symm.trans hhost)
    have hpos : i = last := by
      refine (List.getElem?_inj (by simpa using hi.1) (h.nodup hrun.named)).mp ?_
      rw [List.getElem?_map, List.getElem?_map, hnode, hnode', Option.map_some, Option.map_some,
        hname]
    have hall (j : Nat) (hj : Greatest table feasible j) : j = last := by
      obtain hlt | heq | hgt := Nat.lt_trichotomy j last
      · exact absurd hj (hfirst j (hpos ▸ hlt))
      · exact heq
      · exact absurd hj (hbehind j hgt)
    exact (hall j hj).trans (hall k hk).symm
  · intro hunique
    refine ⟨last, node, hnode, hhost, h.accepted (List.mem_of_getElem? hnode), hlast, ?_⟩
    intro j hj hgreatest
    exact absurd (hunique j last hgreatest hlast) (Nat.ne_of_lt hj)

end

/-! ## Two rooms -/

def room (name : String) : Node := { metadata := { name := name } }

def twoRooms : SchedulerCache :=
  (({} : SchedulerCache).step (.addNode (room "attic"))).step (.addNode (room "cellar"))

theorem run_twoRooms :
    SchedulerCache.Run (fun _ _ => True) [.addNode (room "attic"), .addNode (room "cellar")]
      twoRooms :=
  (SchedulerCache.Run.start.call (.addNode (room "attic")) trivial).call
    (.addNode (room "cellar")) trivial

/-- A plugin with a fixed score for each room. -/
def warmth (attic cellar : Int) : ScorePlugin where
  name := "warmth"
  score state _ node := (state, if node.name = "attic" then attic else cellar, .success)

def warmest (attic cellar : Int) : PluginRegistry where
  preFilters := []
  filters := []
  preScores := []
  scores := [warmth attic cellar]
  postFilters := []

def warmths (attic cellar : Int) : List (ScorePlugin × List NodeScore) :=
  [(warmth attic cellar, [⟨"attic", attic⟩, ⟨"cellar", cellar⟩])]

def parcel : Pod := { metadata := { name := "parcel", uid := "parcel" } }

/-- The rooms in the order of their names. -/
def rooms : List NodeInfo := [.new (room "attic"), .new (room "cellar")]

theorem scored_twoRooms {attic cellar : Int}
    (hattic : minNodeScore ≤ attic ∧ attic ≤ maxNodeScore)
    (hcellar : minNodeScore ≤ cellar ∧ cellar ≤ maxNodeScore) :
    Scored parcel twoRooms (warmest attic cellar) 2 rooms {} rooms (warmths attic cellar) where
  preFilters := rfl
  filters := rfl
  nonempty := List.cons_ne_nil _ _
  scores := ⟨{}, rfl, rfl⟩
  inRange := by
    simp only [warmths, forall_eq, List.mem_cons, List.not_mem_nil, or_false, forall_eq_or_imp]
    exact ⟨hattic, hcellar⟩

/-- The attic is warmer. -/
theorem suggestedHost_attic :
    (∃ (i : Nat) (node : NodeInfo), rooms[i]? = some node ∧
      (scheduleOneLimited parcel twoRooms (warmest 60 50) 2).suggestedHost = some node.name ∧
      Accepted parcel (warmest 60 50).filters 2 rooms {} node ∧
      Greatest (warmths 60 50) rooms i ∧ ∀ j < i, ¬ Greatest (warmths 60 50) rooms j) ↔
    ∀ i j, Greatest (warmths 60 50) rooms i → Greatest (warmths 60 50) rooms j → i = j :=
  suggestedHost_first_iff run_twoRooms (scored_twoRooms (by decide) (by decide))

/-- Both are as warm: the attic comes first, and the cellar is suggested. -/
theorem suggestedHost_not_first :
    ¬ ∀ (pod : Pod) (cache : SchedulerCache) (ops : List SchedulerCache.Op)
      (registry : PluginRegistry) (limit : Nat) (nodes feasible : List NodeInfo) (state : CycleState)
      (table : List (ScorePlugin × List NodeScore)),
      SchedulerCache.Run (fun _ _ => True) ops cache →
      Scored pod cache registry limit nodes state feasible table →
      ∃ (i : Nat) (node : NodeInfo), feasible[i]? = some node ∧
        (scheduleOneLimited pod cache registry limit).suggestedHost = some node.name ∧
        Accepted pod registry.filters limit nodes state node ∧
        Greatest table feasible i ∧ ∀ j < i, ¬ Greatest table feasible j := by
  intro h
  obtain ⟨i, node, hnode, hhost, -, ⟨hi, -⟩, hfirst⟩ := h parcel twoRooms _ (warmest 50 50) 2 rooms
    rooms {} (warmths 50 50) run_twoRooms (scored_twoRooms (by decide) (by decide))
  have hcellar : (scheduleOneLimited parcel twoRooms (warmest 50 50) 2).suggestedHost =
      some "cellar" := by decide
  have hname : node.name = "cellar" := Option.some.inj (hhost.symm.trans hcellar)
  have hlen : i < 2 := hi
  interval_cases i
  · obtain rfl := Option.some.inj hnode
    exact absurd hname (by decide)
  · refine hfirst 0 Nat.zero_lt_one ⟨Nat.zero_lt_two, fun j hj => ?_⟩
    have hj : j < 2 := hj
    interval_cases j <;> decide

end CaveHome.Scheduler
