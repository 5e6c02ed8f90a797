import CaveHome.Scheduler.Cache
import Mathlib.Data.Multiset.AddSub

/-!
# The accounts of the cache

What the cache has on record for a node is what the pods on it request together and the ports they
use, as long as the requests are not negative and the sums are machine numbers.
-/

namespace CaveHome.Scheduler

/-! ## What a pod requests -/

/-- What a container requests of a resource. -/
def Container.asks (c : Container) (r : ResourceName) : Int := (c.requests r).getD 0

namespace Pod

/-- What the containers request, without a bound. -/
def total (pod : Pod) (r : ResourceName) : Int := (pod.spec.containers.map (·.asks r)).sum

def hostPorts (pod : Pod) : List HostPortUse := pod.spec.containers.flatMap (·.hostPorts)

/-- The requests are not negative and their sum is a machine number. -/
def Modest (pod : Pod) : Prop :=
  ∀ r, (∀ c ∈ pod.spec.containers, 0 ≤ c.asks r) ∧ pod.total r ≤ I64.maxValue

theorem Modest.total_nonneg {pod : Pod} (h : pod.Modest) (r : ResourceName) : 0 ≤ pod.total r := by
  apply List.sum_nonneg
  intro x hx
  obtain ⟨c, hc, rfl⟩ := List.mem_map.mp hx
  exact (h r).1 c hc

end Pod

theorem sum_total_nonneg {pods : List Pod} (h : ∀ p ∈ pods, p.Modest) (r : ResourceName) :
    0 ≤ (pods.map (·.total r)).sum := by
  apply List.sum_nonneg
  intro x hx
  obtain ⟨p, hp, rfl⟩ := List.mem_map.mp hx
  exact (h p hp).total_nonneg r

theorem Container.request_step {op : Int → Int → Int} {result : Int → Int} {c : Container}
    {r : ResourceName} {a : Int} (hnone : a = result 0)
    (hsome : op a (c.asks r) = result (c.asks r)) :
    (match c.requests r with
      | some q => op a q
      | none => a) = result (c.asks r) := by
  cases h : c.requests r with
  | none => rw [asks, h, Option.getD_none, ← hnone]
  | some q =>
    rw [asks, h, Option.getD_some] at hsome
    rw [asks, h, Option.getD_some]
    exact hsome

theorem Pod.Modest.sumRequests {pod : Pod} (h : pod.Modest) (r : ResourceName) :
    pod.sumRequests r = pod.total r := by
  have hmax : 0 + pod.total r ≤ I64.maxValue := by
    rw [Int.zero_add]
    exact (h r).2
  have hsum := I64.foldl_add_eq (f := fun total c =>
    match c.requests r with
    | some q => I64.saturatingAdd total q
    | none => total) (fun a c _ hlow hhigh => Container.request_step (Int.add_zero a).symm
      (I64.saturatingAdd_eq hlow hhigh)) (h r).1 (by decide) hmax
  rwa [Int.zero_add] at hsum

/-! ## The accounts of a node -/

namespace NodeInfo

variable {info : NodeInfo} {pod : Pod}

/-- The record is what the pods ask for together. -/
structure Accounted (info : NodeInfo) : Prop where
  modest : ∀ p ∈ info.pods, p.Modest
  requested : ∀ r, info.requested r = (info.pods.map (·.total r)).sum
  inRange : ∀ r, info.requested r ≤ I64.maxValue
  ports : info.usedHostPorts.Perm (info.pods.flatMap (·.hostPorts))

theorem Accounted.requested_nonneg (h : info.Accounted) (r : ResourceName) :
    0 ≤ info.requested r := by
  rw [h.requested r]
  exact sum_total_nonneg h.modest r

theorem new_accounted (node : Node) : (new node).Accounted where
  modest p hp := nomatch hp
  requested r := rfl
  inRange r := show (0 : Int) ≤ I64.maxValue by decide
  ports := .refl _

theorem foldl_addContainer_requested (info : NodeInfo) (cs : List Container) (r : ResourceName) :
    (cs.foldl addContainer info).requested r = cs.foldl (fun a c =>
      match c.requests r with
      | some q => I64.wrappingAdd a q
      | none => a) (info.requested r) := by
  induction cs generalizing info with
  | nil => rfl
  | cons c cs ih => exact ih (info.addContainer c)

theorem foldl_removeContainer_requested (info : NodeInfo) (cs : List Container) (r : ResourceName) :
    (cs.foldl removeContainer info).requested r = cs.foldl (fun a c =>
      match c.requests r with
      | some q => I64.saturatingSub a q
      | none => a) (info.requested r) := by
  induction cs generalizing info with
  | nil => rfl
  | cons c cs ih => exact ih (info.removeContainer c)

theorem addPod_requested (h : info.Accounted) (hpod : pod.Modest) {r : ResourceName}
    (hmax : info.requested r + pod.total r ≤ I64.maxValue) :
    (info.addPod pod).requested r = info.requested r + pod.total r := by
  have hmin : I64.minValue ≤ info.requested r :=
    (show I64.minValue ≤ 0 by decide).trans (h.requested_nonneg r)
  refine (foldl_addContainer_requested info pod.spec.containers r).trans ?_
  exact I64.foldl_add_eq (fun a c _ hlow hhigh => Container.request_step (Int.add_zero a).symm
    (I64.wrappingAdd_eq hlow hhigh)) (hpod r).1 hmin hmax

theorem addPod_usedHostPorts (info : NodeInfo) (pod : Pod) :
    (info.addPod pod).usedHostPorts = info.usedHostPorts ++ pod.hostPorts := by
  rw [addPod, Pod.hostPorts]
  dsimp only
  induction pod.spec.containers generalizing info with
  | nil => simp
  | cons c cs ih => rw [List.foldl_cons, ih, List.flatMap_cons, addContainer, List.append_assoc]

theorem Accounted.addPod (h : info.Accounted) (hpod : pod.Modest)
    (hmax : ∀ r, info.requested r + pod.total r ≤ I64.maxValue) : (info.addPod pod).Accounted where
  modest p hp := by
    rw [addPod_pods] at hp
    obtain hp | hp := List.mem_append.mp hp
    · exact h.modest p hp
    · rw [List.mem_singleton.mp hp]
      exact hpod
  requested r := by
    rw [addPod_requested h hpod (hmax r), addPod_pods, List.map_append, List.sum_append,
      h.requested r]
    simp
  inRange r := by
    rw [addPod_requested h hpod (hmax r)]
    exact hmax r
  ports := by
    rw [addPod_usedHostPorts, addPod_pods, List.flatMap_append]
    simpa using h.ports.append_right pod.hostPorts

theorem find_perm_eraseP {p : Pod → Bool} {pods : List Pod} {removed : Pod}
    (h : pods.find? p = some removed) : pods.Perm (removed :: pods.eraseP p) := by
  obtain ⟨hp, before, after, rfl, hbefore⟩ := List.find?_eq_some_iff_append.mp h
  have herase : (before ++ removed :: after).eraseP p = before ++ after := by
    rw [List.eraseP_append_right _ (by simpa using hbefore), List.eraseP_cons_of_pos hp]
  rw [herase]
  exact List.perm_middle

theorem foldl_removeContainer_usedHostPorts (info : NodeInfo) (cs : List Container) :
    (cs.foldl removeContainer info).usedHostPorts =
      info.usedHostPorts.diff (cs.flatMap (·.hostPorts)) := by
  induction cs generalizing info with
  | nil => rfl
  | cons c cs ih =>
    rw [List.foldl_cons, ih, List.flatMap_cons, List.diff_append, removeContainer,
      ← List.diff_eq_foldl]

theorem diff_perm {used ports rest : List HostPortUse} (h : used.Perm (ports ++ rest)) :
    (used.diff ports).Perm rest := by
  rw [← Multiset.coe_eq_coe, ← Multiset.coe_sub, Multiset.coe_eq_coe.mpr h, ← Multiset.coe_add,
    Multiset.add_comm]
  exact Multiset.add_sub_cancel_right

section Remove

variable {removed : Pod} (hfind : info.pods.find? (·.uid == pod.uid) = some removed)
include hfind

theorem Accounted.requested_split (h : info.Accounted) (r : ResourceName) :
    info.requested r = removed.total r + ((info.removePod pod).pods.map (·.total r)).sum := by
  rw [removePod_pods, h.requested r, ((find_perm_eraseP hfind).map _).sum_eq, List.map_cons,
    List.sum_cons]

theorem Accounted.removePod_requested (h : info.Accounted) (hremoved : removed.Modest)
    (hrest : ∀ p ∈ (info.removePod pod).pods, p.Modest) (r : ResourceName) :
    (info.removePod pod).requested r = info.requested r - removed.total r := by
  have hsplit := h.requested_split hfind r
  have hsum := sum_total_nonneg hrest r
  have hmin : I64.minValue ≤ 0 := by decide
  rw [NodeInfo.removePod, hfind]
  refine (foldl_removeContainer_requested _ removed.spec.containers r).trans ?_
  refine I64.foldl_sub_eq (fun a c _ hlow hhigh => Container.request_step (Int.sub_zero a).symm
    (I64.saturatingSub_eq hlow hhigh)) (hremoved r).1 (h.inRange r) ?_
  show I64.minValue ≤ info.requested r - removed.total r
  omega

theorem Accounted.removePod_ports (h : info.Accounted) :
    (info.removePod pod).usedHostPorts.Perm
      ((info.removePod pod).pods.flatMap (·.hostPorts)) := by
  rw [removePod_pods, NodeInfo.removePod, hfind]
  dsimp only
  rw [foldl_removeContainer_usedHostPorts]
  exact diff_perm (h.ports.trans ((find_perm_eraseP hfind).flatMap_right _))

end Remove

theorem Accounted.removePod (h : info.Accounted) (pod : Pod) :
    (info.removePod pod).Accounted ∧ ∀ r, (info.removePod pod).requested r ≤ info.requested r := by
  cases hfind : info.pods.find? (·.uid == pod.uid) with
  | none =>
    rw [NodeInfo.removePod, hfind]
    exact ⟨h, fun r => le_rfl⟩
  | some removed =>
    have hremoved : removed.Modest := h.modest removed (List.mem_of_find?_eq_some hfind)
    have hrest : ∀ p ∈ (info.removePod pod).pods, p.Modest := by
      intro p hp
      rw [removePod_pods] at hp
      exact h.modest p (List.mem_of_mem_eraseP hp)
    have hrequested := h.removePod_requested hfind hremoved hrest
    have hle (r : ResourceName) : (info.removePod pod).requested r ≤ info.requested r := by
      have := hremoved.total_nonneg r
      rw [hrequested]
      omega
    refine ⟨⟨hrest, fun r => ?_, fun r => (hle r).trans (h.inRange r), h.removePod_ports hfind⟩, hle⟩
    have := h.requested_split hfind r
    rw [hrequested]
    omega

end NodeInfo

/-! ## The accounts of the cache -/

/-- What a node has to offer is a machine number. -/
def Node.InRange (node : Node) : Prop := ∀ r, node.allocatable r ≤ I64.maxValue

namespace SchedulerCache

variable {c : SchedulerCache} {name : String} {pod : Pod}

/-- Nodes are filed under their names, and their accounts are right. -/
def Accounted (c : SchedulerCache) : Prop :=
  Dict.All (fun key info => key = info.node.metadata.name ∧ info.node.InRange ∧ info.Accounted)
    c.nodes

/-- What the pod requests can be added to what is on record for the node. -/
def RoomFor (c : SchedulerCache) (pod : Pod) (name : String) : Prop :=
  ∀ info, c.nodes.lookup name = some info → ∀ r, info.requested r + pod.total r ≤ I64.maxValue

/-- The call does not make a number leave the range. -/
def NoOverflow (c : SchedulerCache) : Op → Prop
  | .addNode node | .updateNode node => node.InRange
  | .addPod pod => pod.Modest ∧ c.RoomFor pod pod.spec.nodeName
  | .assumePod pod nodeName => pod.Modest ∧ c.RoomFor pod nodeName
  | .removeNode _ | .removePod _ | .forgetPod _ => True

theorem Accounted.addNode (h : c.Accounted) {node : Node} (hnode : node.InRange) :
    (c.addNode node).Accounted := by
  refine Dict.All.insert h ⟨rfl, hnode, ?_⟩
  have haccounts : ((c.nodes.lookup node.metadata.name).getD (.new node)).Accounted := by
    cases hinfo : c.nodes.lookup node.metadata.name with
    | none => exact NodeInfo.new_accounted node
    | some info => exact (h _ _ hinfo).2.2
  -- the accounts do not depend on what is known of the node itself
  exact ⟨haccounts.modest, haccounts.requested, haccounts.inRange, haccounts.ports⟩

theorem Accounted.onNode (h : c.Accounted) {f : NodeInfo → NodeInfo}
    (hf : ∀ info, c.nodes.lookup name = some info → info.Accounted →
      (f info).node = info.node ∧ (f info).Accounted) : (c.onNode name f).1.Accounted := by
  obtain ⟨-, heq⟩ | ⟨info, hinfo, heq⟩ := c.onNode_cases name f
  · rw [heq]
    exact h
  · obtain ⟨hkey, hrange, haccounts⟩ := h name info hinfo
    obtain ⟨hsame, hnew⟩ := hf info hinfo haccounts
    rw [heq]
    exact Dict.All.insert h ⟨by rw [hsame]; exact hkey, by rw [hsame]; exact hrange, hnew⟩

theorem Accounted.onNode_addPod (h : c.Accounted) (hpod : pod.Modest) (hroom : c.RoomFor pod name) :
    (c.onNode name (·.addPod pod)).1.Accounted :=
  h.onNode fun info hinfo haccounts =>
    ⟨NodeInfo.addPod_node info pod, haccounts.addPod hpod (hroom info hinfo)⟩

theorem Accounted.onNode_removePod (h : c.Accounted) (name : String) (pod : Pod) :
    (c.onNode name (·.removePod pod)).1.Accounted :=
  h.onNode fun info _ haccounts => ⟨NodeInfo.removePod_node info pod, (haccounts.removePod pod).1⟩

theorem Accounted.assumePod (h : c.Accounted) (hpod : pod.Modest) (hroom : c.RoomFor pod name) :
    (c.assumePod pod name).1.Accounted := by
  have honto : (pod.onto name).Modest := hpod
  have hadd : (c.onNode name (·.addPod (pod.onto name))).1.Accounted := h.onNode_addPod honto hroom
  rw [SchedulerCache.assumePod]
  split
  · exact h
  · split
    next heq =>
      rw [heq] at hadd
      exact hadd
    next heq =>
      rw [heq] at hadd
      exact hadd

theorem Accounted.forgetPod (h : c.Accounted) (uid : String) : (c.forgetPod uid).Accounted := by
  rw [SchedulerCache.forgetPod]
  split
  · exact h
  · exact Accounted.onNode_removePod (c := { c with assumed := c.assumed.erase uid }) h _ _

theorem Accounted.step (h : c.Accounted) {op : Op} (hop : c.NoOverflow op) :
    (c.step op).Accounted := by
  cases op with
  | addNode node | updateNode node => exact h.addNode hop
  | removeNode name => exact Dict.All.erase h name
  | addPod pod =>
    rw [SchedulerCache.step, SchedulerCache.addPod]
    split
    · exact h
    · exact h.onNode_addPod hop.1 hop.2
  | removePod pod =>
    rw [SchedulerCache.step, SchedulerCache.removePod]
    split
    · exact h
    · exact h.onNode_removePod _ pod
  | assumePod pod nodeName => exact h.assumePod hop.1 hop.2
  | forgetPod uid => exact h.forgetPod uid

theorem Run.accounted {ops : List Op} (hrun : Run NoOverflow ops c) : c.Accounted := by
  induction hrun with
  | start => exact Dict.all_empty
  | call _ _ hop ih => exact ih.step hop

end SchedulerCache

end CaveHome.Scheduler
