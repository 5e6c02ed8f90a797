import CaveHome.Scheduler.CacheAccounts
import CaveHome.Scheduler.ScheduleOne

/-!
# Nodes are not over-committed

A node that passes the filters has as much of each resource left as the pod requests, and no pod on
it uses a port that the pod wants.  So a pod that is put on the suggested host fits there, whatever
was scheduled and forgotten before.
-/

namespace CaveHome.Scheduler

/-- No port of the one pod collides with a port of the other. -/
def Pod.PortsApart (p p' : Pod) : Prop :=
  ∀ a ∈ p.hostPorts, ∀ b ∈ p'.hostPorts, NodePorts.conflicts a b = false

namespace NodeInfo

/-- The pods request no more than there is, and their ports do not collide. -/
structure Fits (info : NodeInfo) : Prop where
  resources : ∀ r, info.requested r ≤ info.allocatable r
  ports : info.pods.Pairwise Pod.PortsApart

end NodeInfo

/-! ## What the filters check -/

section Filters

variable {state : CycleState} {pod : Pod} {node : NodeInfo} {r : ResourceName}

theorem NodeResourcesFit.room_of_check (hpod : pod.Modest)
    (hstate : (state.readFit preFilterFitKey).map (·.request r) = some (pod.sumRequests r))
    (hfits : node.requested r ≤ node.allocatable r)
    (hpass : (check state pod node r).isSuccess) :
    node.requested r + pod.total r ≤ node.allocatable r := by
  rw [check, hstate, Option.getD_some, hpod.sumRequests r] at hpass
  split at hpass
  next hzero => omega
  next hzero =>
    split at hpass
    · cases hpass
    next hfree =>
      unfold I64.saturatingSub at hfree
      have hmin : I64.minValue ≤ 0 := by decide
      have := hpod.total_nonneg r
      omega

theorem NodePorts.portsApart_of_fits (haccounts : node.Accounted) (hfits : fits pod node) :
    ∀ p ∈ node.pods, p.PortsApart pod := by
  intro p hp a ha b hb
  have hused : a ∈ node.usedHostPorts :=
    haccounts.ports.mem_iff.mpr (List.mem_flatMap.mpr ⟨p, hp, ha⟩)
  obtain ⟨c, hc, hbc⟩ := List.mem_flatMap.mp hb
  rw [fits, List.all_eq_true] at hfits
  have hcandidate := List.all_eq_true.mp (hfits c hc) b hbc
  rw [Bool.not_eq_true', List.any_eq_false] at hcandidate
  exact Bool.eq_false_of_not_eq_true (hcandidate a hused)

end Filters

theorem defaultRegistry_stateless : Stateless defaultRegistry.filters := by
  intro f hf state pod node
  simp only [defaultRegistry, List.mem_cons, List.not_mem_nil, or_false] at hf
  obtain rfl | rfl | rfl | rfl | rfl | rfl | rfl := hf
  · rfl
  · rfl
  · simp only [NodeResourcesFit.filter]
    split <;> rfl
  · rfl
  · rfl
  · rfl
  · rfl

namespace SchedulerCache

variable {c : SchedulerCache} {pod : Pod} {host : String} {limit : Nat}

theorem mem_snapshot {info : NodeInfo} (h : info ∈ c.snapshot) :
    ∃ key, c.nodes.lookup key = some info := by
  obtain ⟨e, he, rfl⟩ := List.mem_map.mp h
  rw [List.mem_insertionSort] at he
  exact ⟨e.1, Dict.mem_entries_iff.mp he⟩

/-- Every node fits. -/
def Fits (c : SchedulerCache) : Prop := Dict.All (fun _ info => info.Fits) c.nodes

theorem room_of_suggested (haccounts : c.Accounted) (hfits : c.Fits) (hpod : pod.Modest)
    (hhost : (scheduleOneLimited pod c defaultRegistry limit).suggestedHost = some host) :
    ∃ info, c.nodes.lookup host = some info ∧
      (∀ r, info.requested r + pod.total r ≤ info.allocatable r) ∧
      ∀ p ∈ info.pods, p.PortsApart pod := by
  obtain ⟨nodes, state, hpre, info, hmem, rfl, hpass⟩ :=
    scheduleOneLimited_host defaultRegistry_stateless hhost
  obtain ⟨hnodes, hstate⟩ := Prod.mk.inj (Except.ok.inj hpre)
  rw [← hnodes] at hmem
  obtain ⟨key, hinfo⟩ := mem_snapshot hmem
  obtain ⟨hkey, -, hinfo_accounts⟩ := haccounts key info hinfo
  have hinfo_fits : info.Fits := hfits key info hinfo
  have hfit := hpass NodeResourcesFit.filter (by simp [defaultRegistry])
  have hports := hpass NodePorts.filter (by simp [defaultRegistry])
  have hread (r : ResourceName) :
      (state.readFit NodeResourcesFit.preFilterFitKey).map (·.request r) =
        some (pod.sumRequests r) := by
    rw [← hstate, NodeResourcesFit.preFilter]
    dsimp only
    rw [CycleState.readFit_write]
    cases r <;> rfl
  have hlookup : c.nodes.lookup info.name = some info := by
    rw [NodeInfo.name, ← hkey]
    exact hinfo
  refine ⟨info, hlookup, fun r => ?_, ?_⟩
  · refine NodeResourcesFit.room_of_check hpod (hread r) (hinfo_fits.resources r) ?_
    simp only [NodeResourcesFit.filter] at hfit
    split at hfit
    next hcpu =>
      cases r with
      | cpu => exact hcpu
      | memory => exact hfit
    next hcpu => exact absurd hfit hcpu
  · apply NodePorts.portsApart_of_fits hinfo_accounts
    simp only [NodePorts.filter, FilterPlugin.pure] at hports
    split at hports
    next hok => exact hok
    · cases hports

/-! ## Runs of the scheduler -/

/-- A pod is scheduled and assumed on the suggested host, or an assumption is withdrawn. -/
inductive Action
  | schedule (pod : Pod) (feasibleLimit : Nat)
  | forget (uid : String)

def act (c : SchedulerCache) : Action → SchedulerCache
  | .schedule pod feasibleLimit =>
    match (scheduleOneLimited pod c defaultRegistry feasibleLimit).suggestedHost with
    | none => c
    | some host => (c.assumePod pod host).1
  | .forget uid => c.forgetPod uid

theorem Fits.assumePod (hfits : c.Fits) (haccounts : c.Accounted) (hpod : pod.Modest)
    {info : NodeInfo} (hinfo : c.nodes.lookup host = some info)
    (hroom : ∀ r, info.requested r + pod.total r ≤ info.allocatable r)
    (hports : ∀ p ∈ info.pods, p.PortsApart pod) : (c.assumePod pod host).1.Fits := by
  obtain ⟨-, hrange, hinfo_accounts⟩ := haccounts host info hinfo
  have hadded : (info.addPod (pod.onto host)).Fits := by
    refine ⟨fun r => ?_, ?_⟩
    · have honto : (pod.onto host).Modest := hpod
      rw [NodeInfo.addPod_requested hinfo_accounts honto ((hroom r).trans (hrange r)),
        NodeInfo.allocatable, NodeInfo.addPod_node]
      exact hroom r
    · rw [NodeInfo.addPod_pods, List.pairwise_append]
      refine ⟨(hfits host info hinfo).ports, List.pairwise_singleton _ _, fun p hp p' hp' => ?_⟩
      rw [List.mem_singleton.mp hp']
      exact hports p hp
  rw [SchedulerCache.assumePod]
  split
  · exact hfits
  · simp only [onNode, hinfo]
    exact Dict.All.insert hfits hadded

theorem Fits.onNode_removePod (hfits : c.Fits) (haccounts : c.Accounted) (name : String)
    (pod : Pod) : (c.onNode name (·.removePod pod)).1.Fits := by
  obtain ⟨-, heq⟩ | ⟨info, hinfo, heq⟩ := c.onNode_cases name (·.removePod pod)
  · rw [heq]
    exact hfits
  · obtain ⟨-, -, hinfo_accounts⟩ := haccounts name info hinfo
    have hinfo_fits : info.Fits := hfits name info hinfo
    rw [heq]
    refine Dict.All.insert hfits ⟨fun r => ?_, ?_⟩
    · rw [NodeInfo.allocatable, NodeInfo.removePod_node]
      exact ((hinfo_accounts.removePod pod).2 r).trans (hinfo_fits.resources r)
    · rw [NodeInfo.removePod_pods]
      exact hinfo_fits.ports.sublist List.eraseP_sublist

theorem Fits.forgetPod (hfits : c.Fits) (haccounts : c.Accounted) (uid : String) :
    (c.forgetPod uid).Fits := by
  rw [SchedulerCache.forgetPod]
  split
  · exact hfits
  · exact Fits.onNode_removePod (c := { c with assumed := c.assumed.erase uid }) hfits haccounts _ _

theorem act_fits (haccounts : c.Accounted) (hfits : c.Fits) (action : Action)
    (hpod : ∀ pod limit, action = .schedule pod limit → pod.Modest) :
    (c.act action).Accounted ∧ (c.act action).Fits := by
  cases action with
  | forget uid => exact ⟨haccounts.forgetPod uid, hfits.forgetPod haccounts uid⟩
  | schedule pod limit =>
    have hmodest : pod.Modest := hpod pod limit rfl
    rw [act]
    split
    · exact ⟨haccounts, hfits⟩
    next host hhost =>
      obtain ⟨info, hinfo, hroom, hports⟩ := room_of_suggested haccounts hfits hmodest hhost
      refine ⟨haccounts.assumePod hmodest ?_, hfits.assumePod haccounts hmodest hinfo hroom hports⟩
      intro info' hinfo' r
      obtain rfl := Option.some.inj (hinfo.symm.trans hinfo')
      exact (hroom r).trans ((haccounts host info hinfo).2.1 r)

theorem foldl_act_fits (haccounts : c.Accounted) (hfits : c.Fits) {actions : List Action}
    (hpods : ∀ pod limit, .schedule pod limit ∈ actions → pod.Modest) :
    (actions.foldl act c).Fits := by
  induction actions generalizing c with
  | nil => exact hfits
  | cons action actions ih =>
    obtain ⟨haccounts', hfits'⟩ := act_fits haccounts hfits action fun pod limit heq =>
      hpods pod limit (heq ▸ List.mem_cons_self)
    exact ih haccounts' hfits' fun pod limit hmem =>
      hpods pod limit (List.mem_cons_of_mem action hmem)

/-- From a cache whose nodes fit, scheduling and forgetting pods leaves every node fitting. -/
theorem never_overcommits {ops : List Op} (hstart : Run NoOverflow ops c) (hfits : c.Fits)
    {actions : List Action} (hpods : ∀ pod limit, .schedule pod limit ∈ actions → pod.Modest)
    {name : String} {info : NodeInfo}
    (hinfo : (actions.foldl act c).nodes.lookup name = some info) :
    (∀ r, info.requested r ≤ info.allocatable r) ∧ info.pods.Pairwise Pod.PortsApart := by
  have hnode : info.Fits := foldl_act_fits hstart.accounted hfits hpods name info hinfo
  exact ⟨hnode.resources, hnode.ports⟩

/-- A pod that requests so much of each resource and one port of the host. -/
def sample (uid : String) (amount port : Int) : Pod :=
  { metadata := { name := uid, uid }
    spec := { containers := [{ requests := fun _ => some amount, ports := [{ hostPort := port }] }] } }

def hub : Node := { metadata := { name := "hub" }, status := { allocatable := fun _ => some 1000 } }

theorem sample_modest {amount : Int} (hnonneg : 0 ≤ amount) (hmax : amount ≤ I64.maxValue)
    (uid : String) (port : Int) : (sample uid amount port).Modest := by
  intro r
  simp [sample, Pod.total, Container.asks, hnonneg, hmax]

theorem hub_inRange : hub.InRange := by
  intro r
  cases r <;> decide

/-- The second pod wants the port of the first and the third more than is left. -/
theorem never_overcommits_hub :
    let actions := [Action.schedule (sample "lamp" 600 80) 1, .schedule (sample "fan" 100 80) 1,
      .schedule (sample "door" 600 81) 1]
    let found := (actions.foldl act (({} : SchedulerCache).addNode hub)).nodes.lookup "hub"
    found.map (·.pods.map (·.uid)) = some ["lamp"] ∧
    ∀ info, found = some info →
      (∀ r, info.requested r ≤ info.allocatable r) ∧ info.pods.Pairwise Pod.PortsApart := by
  intro actions found
  have hstart : Run NoOverflow _ (({} : SchedulerCache).addNode hub) :=
    Run.start.call (.addNode hub) hub_inRange
  have hfits : (({} : SchedulerCache).addNode hub).Fits := by
    refine Dict.All.insert Dict.all_empty ⟨fun r => ?_, List.Pairwise.nil⟩
    cases r <;> decide
  have hpods : ∀ pod limit, .schedule pod limit ∈ actions → pod.Modest := by
    intro pod limit hmem
    simp only [actions, List.mem_cons, Action.schedule.injEq, List.not_mem_nil, or_false] at hmem
    obtain ⟨rfl, -⟩ | ⟨rfl, -⟩ | ⟨rfl, -⟩ := hmem
    all_goals exact sample_modest (by decide) (by decide) _ _
  exact ⟨by decide, fun info hinfo => never_overcommits hstart hfits hpods hinfo⟩

/-- Two bound pods that the cache is told of may use one port, and stay where they are. -/
theorem bound_pods_collide :
    let ops := [Op.addNode hub, .addPod ((sample "lamp" 100 80).onto "hub"),
      .addPod ((sample "fan" 100 80).onto "hub")]
    let c := ops.foldl step {}
    let actions := [Action.schedule (sample "door" 100 81) 1]
    Dict.All (fun _ info => ∀ r, info.requested r ≤ info.allocatable r) c.nodes ∧
    ¬ Dict.All (fun _ info => info.pods.Pairwise Pod.PortsApart) (actions.foldl act c).nodes := by
  intro ops c actions
  constructor
  · refine Dict.All.insert (Dict.All.insert (Dict.All.insert Dict.all_empty ?_) ?_) ?_
    all_goals
      intro r
      cases r <;> decide
  · intro h
    have hfound : ((actions.foldl act c).nodes.lookup "hub").map (·.pods.map (·.hostPorts)) =
        some [[⟨"", 80, .tcp⟩], [⟨"", 80, .tcp⟩], [⟨"", 81, .tcp⟩]] := by decide
    obtain ⟨info, hinfo, hports⟩ := Option.map_eq_some_iff.mp hfound
    have hapart : (info.pods.map (·.hostPorts)).Pairwise fun l l' =>
        ∀ a ∈ l, ∀ b ∈ l', NodePorts.conflicts a b = false :=
      List.pairwise_map.mpr (h "hub" info hinfo)
    rw [hports] at hapart
    exact absurd hapart (by decide)

end SchedulerCache

end CaveHome.Scheduler
