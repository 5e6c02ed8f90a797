import CaveHome.Scheduler.Cache

/-!
# The scheduling framework

The plugins of a profile are called in order at fixed points of a cycle.  They share the state of
the cycle, which each may change.
-/

namespace CaveHome.Scheduler

/-! ## Statuses -/

inductive Code
  | success
  | unschedulable
  | unschedulableAndUnresolvable
  | wait
  | error
  | skip
  deriving DecidableEq

structure Status where
  code : Code
  plugin : String := ""
  reasons : List String := []
  deriving DecidableEq

namespace Status

def success : Status := { code := .success }

def unschedulable (plugin reason : String) : Status :=
  { code := .unschedulable, plugin, reasons := [reason] }

def unresolvable (plugin reason : String) : Status :=
  { code := .unschedulableAndUnresolvable, plugin, reasons := [reason] }

def error (plugin reason : String) : Status := { code := .error, plugin, reasons := [reason] }

def isSuccess (s : Status) : Bool := s.code == .success || s.code == .skip

end Status

/-- Per node, the status of the filter that rejected it. -/
abbrev FilterFailureMap := Dict String Status

/-! ## The state of a cycle -/

/-- What a pod requests, summed once. -/
structure PreFilterFitState where
  cpu : Int
  memory : Int

def PreFilterFitState.request (s : PreFilterFitState) : ResourceName → Int
  | .cpu => s.cpu
  | .memory => s.memory

/-- The values that plugins keep in the state of a cycle. -/
inductive StateValue
  | fit (s : PreFilterFitState)

structure CycleState where
  storage : Dict String StateValue := ∅

namespace CycleState

def write (state : CycleState) (key : String) (value : StateValue) : CycleState :=
  ⟨state.storage.insert key value⟩

def readFit (state : CycleState) (key : String) : Option PreFilterFitState :=
  (state.storage.lookup key).map fun | .fit s => s

@[simp]
theorem readFit_write (state : CycleState) (key : String) (s : PreFilterFitState) :
    (state.write key (.fit s)).readFit key = some s := by
  rw [readFit, write, AList.lookup_insert]
  rfl

end CycleState

/-! ## Plugins -/

def minNodeScore : Int := 0

def maxNodeScore : Int := 100

structure NodeScore where
  name : String
  score : Int

/-- The nodes a plugin is willing to consider, or no opinion. -/
structure PreFilterResult where
  nodeNames : Option (List String) := none

structure PreFilterPlugin where
  name : String
  preFilter : CycleState → Pod → CycleState × Option PreFilterResult × Status
  /-- What to do with the state when a pod is taken off a node for a trial. -/
  removePod : Option (CycleState → Pod → Pod → NodeInfo → CycleState × Status) := none

structure FilterPlugin where
  name : String
  filter : CycleState → Pod → NodeInfo → CycleState × Status

structure PreScorePlugin where
  name : String
  preScore : CycleState → Pod → List NodeInfo → CycleState × Status

structure ScorePlugin where
  name : String
  score : CycleState → Pod → NodeInfo → CycleState × Int × Status
  normalizeScore : CycleState → Pod → List NodeScore → CycleState × List NodeScore × Status :=
    fun state _ scores => (state, scores, .success)
  weight : Int := 1

/-- The part of the registry that plugins are given. -/
structure FilterRegistry where
  preFilters : List PreFilterPlugin
  filters : List FilterPlugin

structure PostFilterPlugin where
  name : String
  postFilter : CycleState → Pod → List NodeInfo → FilterFailureMap → FilterRegistry →
    CycleState × Option String × Status

structure PluginRegistry extends FilterRegistry where
  preScores : List PreScorePlugin
  scores : List ScorePlugin
  postFilters : List PostFilterPlugin

/-! ## Running the filters -/

/-- The filters in order, up to the first that rejects the node. -/
def runFilters (pod : Pod) (node : NodeInfo) :
    List FilterPlugin → CycleState → CycleState × Status
  | [], state => (state, .success)
  | plugin :: plugins, state =>
    let (state, status) := plugin.filter state pod node
    if status.isSuccess then runFilters pod node plugins state else (state, status)

/-- Filters that leave the state of the cycle alone. -/
def Stateless (filters : List FilterPlugin) : Prop :=
  ∀ f ∈ filters, ∀ state pod node, (f.filter state pod node).1 = state

theorem runFilters_stateless {pod : Pod} {node : NodeInfo} {filters : List FilterPlugin}
    (h : Stateless filters) (state : CycleState) :
    (runFilters pod node filters state).1 = state := by
  induction filters with
  | nil => rfl
  | cons f filters ih =>
    have hf : (f.filter state pod node).1 = state := h f List.mem_cons_self state pod node
    simp only [runFilters, hf]
    split
    · exact ih fun g hg => h g (List.mem_cons_of_mem f hg)
    · rfl

theorem runFilters_isSuccess {pod : Pod} {node : NodeInfo} {filters : List FilterPlugin}
    (h : Stateless filters) {state : CycleState}
    (hpass : (runFilters pod node filters state).2.isSuccess) :
    ∀ f ∈ filters, (f.filter state pod node).2.isSuccess := by
  induction filters with
  | nil => exact fun f hf => nomatch hf
  | cons f filters ih =>
    have hf : (f.filter state pod node).1 = state := h f List.mem_cons_self state pod node
    simp only [runFilters, hf] at hpass
    split at hpass
    next hstatus =>
      rintro g (_ | ⟨_, hg⟩)
      · exact hstatus
      · exact ih (fun g hg => h g (List.mem_cons_of_mem f hg)) hpass g hg
    next hstatus => exact absurd hpass hstatus

end CaveHome.Scheduler

/-!
## The plugins of the default profile

Filters say which nodes can take a pod, scores which of these is best, and preemption which node
could take the pod if pods of a lower priority left it.
-/

namespace CaveHome.Scheduler

/-! ## Filters -/

/-- A filter that only looks at the pod and the node. -/
def FilterPlugin.pure (name : String) (status : Pod → NodeInfo → Status) : FilterPlugin :=
  { name, filter := fun state pod node => (state, status pod node) }

def taintNodeUnschedulable : String := "node.kubernetes.io/unschedulable"

/-- A node that takes no pods takes those that tolerate it. -/
def nodeUnschedulable : FilterPlugin :=
  .pure "NodeUnschedulable" fun pod node =>
    if !node.node.spec.unschedulable then .success
    else if pod.spec.tolerations.any fun t =>
        t.operator == .exists && (t.key.isEmpty || t.key == taintNodeUnschedulable) &&
          t.effect.all (· == .noSchedule) then .success
    else .unresolvable "NodeUnschedulable" "node(s) were unschedulable"

def nodeName : FilterPlugin :=
  .pure "NodeName" fun pod node =>
    if pod.spec.nodeName.isEmpty then .success
    else if pod.spec.nodeName == node.node.metadata.name then .success
    else .unresolvable "NodeName"
      ("node(s) didn't match the requested node name " ++ pod.spec.nodeName)

namespace NodeResourcesFit

def preFilterFitKey : String := "PreFilter-NodeResourcesFit"

/-- Sum the requests of the pod once for all nodes. -/
def preFilter : PreFilterPlugin where
  name := "NodeResourcesFit"
  preFilter state pod :=
    let computed : PreFilterFitState := ⟨pod.sumRequests .cpu, pod.sumRequests .memory⟩
    (state.write preFilterFitKey (.fit computed), none, .success)

def resourceText : ResourceName → String
  | .cpu => "Cpu"
  | .memory => "Memory"

/-- Is there as much of the resource left as is requested? -/
def check (state : CycleState) (pod : Pod) (node : NodeInfo) (resource : ResourceName) : Status :=
  let request := ((state.readFit preFilterFitKey).map (·.request resource)).getD
    (pod.sumRequests resource)
  let free := I64.saturatingSub (node.allocatable resource) (node.requested resource)
  if request = 0 then .success
  else if free < request then
    .unschedulable "NodeResourcesFit"
      ("Insufficient " ++ resourceText resource ++ ": requested " ++ toString request ++ ", free " ++
        toString free)
  else .success

def filter : FilterPlugin where
  name := "NodeResourcesFit"
  filter state pod node :=
    let cpu := check state pod node .cpu
    if cpu.isSuccess then (state, check state pod node .memory) else (state, cpu)

end NodeResourcesFit

namespace NodePorts

/-- An address that stands for all addresses of the host. -/
def anyAddress (hostIp : String) : Bool := hostIp.isEmpty || hostIp == "0.0.0.0"

def conflicts (a b : HostPortUse) : Bool :=
  a.hostPort == b.hostPort && a.protocol == b.protocol &&
    (anyAddress a.hostIp || anyAddress b.hostIp || a.hostIp == b.hostIp)

def fits (pod : Pod) (node : NodeInfo) : Bool :=
  pod.spec.containers.all fun c => c.hostPorts.all fun candidate =>
    !node.usedHostPorts.any fun used => conflicts used candidate

def filter : FilterPlugin :=
  .pure "NodePorts" fun pod node =>
    if fits pod node then .success
    else .unschedulable "NodePorts" "node(s) didn't have free ports for the pod"

end NodePorts

namespace VolumeRestrictions

/-- The claims that the pod writes to. -/
def writtenClaims (pod : Pod) : List String :=
  pod.spec.volumes.filterMap fun v =>
    match v.source with
    | .persistentVolumeClaim pvc => if pvc.readOnly then none else some pvc.claimName
    | _ => none

/-- The first pod on the node that writes to one of the claims, with the claim. -/
def firstShared (claims : List String) (pods : List Pod) : Option (Pod × String) :=
  pods.findSome? fun existing =>
    ((writtenClaims existing).find? (claims.contains ·)).map fun claim => (existing, claim)

def filter : FilterPlugin :=
  .pure "VolumeRestrictions" fun pod node =>
    match firstShared (writtenClaims pod) node.pods with
    | none => .success
    | some (existing, claim) =>
      .unschedulable "VolumeRestrictions"
        ("PVC " ++ claim ++ " is already used by pod " ++ existing.fullName ++ " on this node")

end VolumeRestrictions

namespace TaintToleration

def effectText : TaintEffect → String
  | .noSchedule => "NoSchedule"
  | .preferNoSchedule => "PreferNoSchedule"
  | .noExecute => "NoExecute"

def filter : FilterPlugin :=
  .pure "TaintToleration" fun pod node =>
    match node.node.spec.taints.find? fun taint =>
      taint.effect == .noSchedule && !pod.spec.tolerations.any (·.tolerates taint) with
    | none => .success
    | some taint =>
      .unschedulable "TaintToleration"
        ("node(s) had untolerated taint \x7b" ++ taint.key ++ "=" ++ taint.value ++ ":" ++
          effectText taint.effect ++ "\x7d")

end TaintToleration

/-- The labels that the pod selects and the affinity it requires. -/
def nodeAffinityFilter : FilterPlugin :=
  .pure "NodeAffinity" fun pod node =>
    let labels := node.node.metadata.labels
    let selectors := pod.spec.nodeSelector.entries.insertionSort fun e e' => e.1 ≤ e'.1
    match selectors.find? fun e => labels.lookup e.1 != some e.2 with
    | some e => .unresolvable "NodeAffinity" ("nodeSelector mismatch on label " ++ e.1)
    | none =>
      match pod.spec.affinity >>= (·.nodeAffinity) >>= (·.requiredDuringScheduling) with
      | none => .success
      | some required =>
        if required.matches labels then .success
        else .unresolvable "NodeAffinity" "required node affinity does not match"

/-! ## Scores -/

def clamp (low high x : Int) : Int := max low (min high x)

/-- Processor and memory should be used alike. -/
def nodeResourcesBalancedAllocation : ScorePlugin where
  name := "NodeResourcesBalancedAllocation"
  score state pod node :=
    let fractions := [ResourceName.cpu, .memory].filterMap fun r =>
      let cap := node.allocatable r
      if cap = 0 then none
      else
        let total := I64.saturatingAdd (node.requested r) (pod.sumRequests r)
        some (clamp 0 10000 ((I64.saturatingMul total 10000).tdiv cap))
    if fractions.isEmpty then (state, 0, .success)
    else
      let count : Int := fractions.length
      let mean := fractions.sum.tdiv count
      let var := (fractions.map fun f =>
        let d : Int := (f - mean).natAbs
        (I64.saturatingMul d d).tdiv 10000).sum.tdiv count
      (state, clamp 0 maxNodeScore (((10000 - var) * maxNodeScore).tdiv 10000), .success)

/-- The more is free, the better. -/
def leastRequested : ScorePlugin where
  name := "NodeResourcesLeastAllocated"
  score state _ node :=
    let parts := [ResourceName.cpu, .memory].filterMap fun r =>
      let cap := node.allocatable r
      if cap = 0 then none
      else
        let free := max (I64.saturatingSub cap (node.requested r)) 0
        some ((I64.saturatingMul free maxNodeScore).tdiv cap)
    let score := if parts.isEmpty then 0 else parts.sum.tdiv parts.length
    (state, clamp 0 maxNodeScore score, .success)

/-- The more images of the pod are on the node, the better. -/
def imageLocality : ScorePlugin where
  name := "ImageLocality"
  score state pod node :=
    let total := pod.spec.containers.length
    if total = 0 then (state, 0, .success)
    else
      let present := pod.spec.containers.countP fun c =>
        !c.image.isEmpty && node.node.hasImage c.image
      let score := (I64.saturatingMul present maxNodeScore).tdiv total
      (state, clamp 0 maxNodeScore score, .success)

/-! ## Preemption -/

namespace DefaultPreemption

/-- The state after all plugins have prepared it, unless one of them rejects the pod. -/
def runPreFilters (pod : Pod) : List PreFilterPlugin → CycleState → Option CycleState
  | [], state => some state
  | plugin :: plugins, state =>
    let (state, _, status) := plugin.preFilter state pod
    if status.isSuccess then runPreFilters pod plugins state else none

/-- The plugins are told that a pod leaves the node. -/
def runRemovePod (pod victim : Pod) (node : NodeInfo) :
    List PreFilterPlugin → CycleState → Option CycleState
  | [], state => some state
  | plugin :: plugins, state =>
    match plugin.removePod with
    | none => runRemovePod pod victim node plugins state
    | some hook =>
      let (state, status) := hook state pod victim node
      if status.isSuccess then runRemovePod pod victim node plugins state else none

def removeVictims (pod : Pod) (plugins : List PreFilterPlugin) :
    List Pod → NodeInfo → CycleState → Option (NodeInfo × CycleState)
  | [], node, state => some (node, state)
  | victim :: victims, node, state => do
    let state ← runRemovePod pod victim node plugins state
    removeVictims pod plugins victims (node.removePod victim) state

/-- Would the node take the pod without the victims? -/
def fitsWithRegistry (pod : Pod) (node : NodeInfo) (victims : List Pod)
    (registry : FilterRegistry) : Bool :=
  match runPreFilters pod registry.preFilters {} with
  | none => false
  | some state =>
    match removeVictims pod registry.preFilters victims node state with
    | none => false
    | some (node, state) => (runFilters pod node registry.filters state).2.isSuccess

/-- Victims are chosen one by one until the pod fits. -/
def chooseVictims (pod : Pod) (node : NodeInfo) (registry : FilterRegistry) :
    List Pod → List Pod → Option (List Pod)
  | chosen, [] => if fitsWithRegistry pod node chosen registry then some chosen else none
  | chosen, v :: victims =>
    if fitsWithRegistry pod node chosen registry then some chosen
    else chooseVictims pod node registry (chosen ++ [v]) victims

/-- The node that needs the fewest victims, the first of them. -/
def bestNode (pod : Pod) (registry : FilterRegistry) :
    List NodeInfo → Option (String × Nat) → Option (String × Nat)
  | [], best => best
  | node :: nodes, best =>
    let candidates := node.pods.filter fun p => p.spec.priority < pod.spec.priority
    let sorted := candidates.insertionSort fun p p' => p.spec.priority ≤ p'.spec.priority
    match chooseVictims pod node registry [] sorted with
    | none | some [] => bestNode pod registry nodes best
    | some chosen =>
      let better := best.all fun b => chosen.length < b.2
      bestNode pod registry nodes
        (if better then some (node.node.metadata.name, chosen.length) else best)

def postFilter : PostFilterPlugin where
  name := "DefaultPreemption"
  postFilter state pod nodes _ registry :=
    match bestNode pod registry nodes none with
    | some (name, _) =>
      (state, some name, { code := .success, plugin := "DefaultPreemption",
                           reasons := ["nominated node " ++ name ++ " after preemption"] })
    | none =>
      (state, none, .unschedulable "DefaultPreemption" "preemption found no candidate node")

end DefaultPreemption

def defaultRegistry : PluginRegistry where
  preFilters := [NodeResourcesFit.preFilter]
  filters := [nodeUnschedulable, nodeName, NodeResourcesFit.filter, NodePorts.filter,
    VolumeRestrictions.filter, TaintToleration.filter, nodeAffinityFilter]
  preScores := []
  scores := [nodeResourcesBalancedAllocation, leastRequested, imageLocality]
  postFilters := [DefaultPreemption.postFilter]

end CaveHome.Scheduler
