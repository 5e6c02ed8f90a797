import CaveHome.Lib.Dict
import CaveHome.Lib.MachineData
import Mathlib.Data.List.Sort

/-!
# Pods and nodes

The part of the objects that the scheduler reads.
-/

namespace CaveHome.Scheduler

inductive ResourceName
  | cpu
  | memory
  deriving DecidableEq, Repr

/-- Thousandths of a processor, or bytes. -/
abbrev ResourceList := ResourceName → Option Int

inductive Protocol
  | tcp
  | udp
  | sctp
  deriving DecidableEq

structure ContainerPort where
  hostPort : Int
  protocol : Protocol := .tcp
  hostIp : String := ""

structure Container where
  image : String := ""
  requests : ResourceList := fun _ => none
  ports : List ContainerPort := []

structure PvcSource where
  claimName : String
  readOnly : Bool

inductive VolumeSource
  | emptyDir
  | hostPath (path : String)
  | persistentVolumeClaim (pvc : PvcSource)

structure Volume where
  name : String
  source : VolumeSource

/-! ## Selectors -/

abbrev Labels := Dict String String

inductive NodeSelectorOperator
  | isIn
  | notIn
  | exists
  | doesNotExist
  deriving DecidableEq

structure NodeSelectorRequirement where
  key : String
  operator : Option NodeSelectorOperator
  values : List String

def NodeSelectorRequirement.matches (r : NodeSelectorRequirement) (labels : Labels) : Bool :=
  match r.operator.getD .exists with
  | .isIn => (labels.lookup r.key).any (r.values.contains ·)
  | .notIn => (labels.lookup r.key).all (!r.values.contains ·)
  | .exists => (labels.lookup r.key).isSome
  | .doesNotExist => (labels.lookup r.key).isNone

structure NodeSelectorTerm where
  matchExpressions : List NodeSelectorRequirement

/-- One of the terms has to match, and all expressions of the term. -/
structure NodeSelector where
  nodeSelectorTerms : List NodeSelectorTerm

def NodeSelector.matches (s : NodeSelector) (labels : Labels) : Bool :=
  s.nodeSelectorTerms.any fun t => t.matchExpressions.all (·.matches labels)

structure NodeAffinity where
  requiredDuringScheduling : Option NodeSelector

structure Affinity where
  nodeAffinity : Option NodeAffinity

/-! ## Taints -/

inductive TaintEffect
  | noSchedule
  | preferNoSchedule
  | noExecute
  deriving DecidableEq, Repr

structure Taint where
  key : String
  value : String
  effect : TaintEffect

inductive TolerationOperator
  | equal
  | exists
  deriving DecidableEq

structure Toleration where
  key : String
  operator : TolerationOperator
  value : String
  effect : Option TaintEffect

def Toleration.tolerates (t : Toleration) (taint : Taint) : Bool :=
  if t.effect.any (· ≠ taint.effect) then false
  else
    match t.operator with
    | .exists => t.key.isEmpty || t.key == taint.key
    | .equal => t.key == taint.key && t.value == taint.value

/-! ## Pods and nodes -/

structure ObjectMeta where
  name : String
  namespaceName : String := ""
  uid : String := ""
  labels : Labels := ∅

structure PodSpec where
  containers : List Container := []
  nodeName : String := ""
  nodeSelector : Labels := ∅
  affinity : Option Affinity := none
  tolerations : List Toleration := []
  volumes : List Volume := []
  priority : Int := 0

structure Pod where
  metadata : ObjectMeta
  spec : PodSpec := {}

namespace Pod

def uid (p : Pod) : String := p.metadata.uid

def fullName (p : Pod) : String := p.metadata.namespaceName ++ "/" ++ p.metadata.name

/-- What the containers request of a resource, together. -/
def sumRequests (p : Pod) (name : ResourceName) : Int :=
  p.spec.containers.foldl (fun total c =>
    match c.requests name with
    | some q => I64.saturatingAdd total q
    | none => total) 0

end Pod

structure NodeSpec where
  unschedulable : Bool := false
  taints : List Taint := []

structure NodeStatus where
  allocatable : ResourceList := fun _ => none
  images : List String := []

structure Node where
  metadata : ObjectMeta
  spec : NodeSpec := {}
  status : NodeStatus := {}

namespace Node

def allocatable (n : Node) (name : ResourceName) : Int := (n.status.allocatable name).getD 0

def hasImage (n : Node) (image : String) : Bool := n.status.images.contains image

end Node

end CaveHome.Scheduler

/-!
## The scheduler's cache

For each node the cache keeps the pods on it, what they request together and the ports of the host
that they use.  A pod that is about to be bound is assumed on its node until the binding is known.
-/

namespace CaveHome.Scheduler

/-! ## A node and its pods -/

structure HostPortUse where
  hostIp : String
  hostPort : Int
  protocol : Protocol
  deriving DecidableEq

structure NodeInfo where
  node : Node
  pods : List Pod
  requested : ResourceName → Int
  usedHostPorts : List HostPortUse

/-- The ports of the host that a container uses. -/
def Container.hostPorts (c : Container) : List HostPortUse :=
  (c.ports.filter (·.hostPort ≠ 0)).map fun port => ⟨port.hostIp, port.hostPort, port.protocol⟩

/-- The pod with its node chosen. -/
def Pod.onto (pod : Pod) (nodeName : String) : Pod := { pod with spec := { pod.spec with nodeName } }

namespace NodeInfo

def new (node : Node) : NodeInfo :=
  { node, pods := [], requested := fun _ => 0, usedHostPorts := [] }

def setNode (info : NodeInfo) (node : Node) : NodeInfo := { info with node }

def allocatable (info : NodeInfo) (r : ResourceName) : Int := info.node.allocatable r

/-- Count what a container requests and uses. -/
def addContainer (info : NodeInfo) (c : Container) : NodeInfo :=
  { info with
    requested := fun r =>
      match c.requests r with
      | some q => I64.wrappingAdd (info.requested r) q
      | none => info.requested r
    usedHostPorts := info.usedHostPorts ++ c.hostPorts }

def addPod (info : NodeInfo) (pod : Pod) : NodeInfo :=
  let info := pod.spec.containers.foldl addContainer info
  { info with pods := info.pods ++ [pod] }

/-- Take back what was counted for a container.  A port is taken off the list once, if it is
there. -/
def removeContainer (info : NodeInfo) (c : Container) : NodeInfo :=
  { info with
    requested := fun r =>
      match c.requests r with
      | some q => I64.saturatingSub (info.requested r) q
      | none => info.requested r
    usedHostPorts := c.hostPorts.foldl List.erase info.usedHostPorts }

/-- Take the first pod of that name off the node. -/
def removePod (info : NodeInfo) (pod : Pod) : NodeInfo :=
  match info.pods.find? (·.uid == pod.uid) with
  | none => info
  | some removed =>
    removed.spec.containers.foldl removeContainer
      { info with pods := info.pods.eraseP (·.uid == pod.uid) }

theorem foldl_addContainer_pods (info : NodeInfo) (cs : List Container) :
    (cs.foldl addContainer info).pods = info.pods := by
  induction cs generalizing info with
  | nil => rfl
  | cons c cs ih => exact ih (info.addContainer c)

theorem foldl_removeContainer_pods (info : NodeInfo) (cs : List Container) :
    (cs.foldl removeContainer info).pods = info.pods := by
  induction cs generalizing info with
  | nil => rfl
  | cons c cs ih => exact ih (info.removeContainer c)

theorem foldl_addContainer_node (info : NodeInfo) (cs : List Container) :
    (cs.foldl addContainer info).node = info.node := by
  induction cs generalizing info with
  | nil => rfl
  | cons c cs ih => exact ih (info.addContainer c)

theorem foldl_removeContainer_node (info : NodeInfo) (cs : List Container) :
    (cs.foldl removeContainer info).node = info.node := by
  induction cs generalizing info with
  | nil => rfl
  | cons c cs ih => exact ih (info.removeContainer c)

@[simp]
theorem addPod_pods (info : NodeInfo) (pod : Pod) : (info.addPod pod).pods = info.pods ++ [pod] := by
  simp only [addPod, foldl_addContainer_pods]

@[simp]
theorem removePod_pods (info : NodeInfo) (pod : Pod) :
    (info.removePod pod).pods = info.pods.eraseP (·.uid == pod.uid) := by
  unfold removePod
  split
  next hnone =>
    refine (List.eraseP_of_forall_not ?_).symm
    exact List.find?_eq_none.mp hnone
  · exact foldl_removeContainer_pods _ _

@[simp]
theorem addPod_node (info : NodeInfo) (pod : Pod) : (info.addPod pod).node = info.node := by
  simp only [addPod, foldl_addContainer_node]

@[simp]
theorem removePod_node (info : NodeInfo) (pod : Pod) : (info.removePod pod).node = info.node := by
  unfold removePod
  split
  · rfl
  · exact foldl_removeContainer_node _ _

end NodeInfo

/-! ## The cache -/

inductive CacheError
  | nodeNotFound (name : String)
  | podAlreadyAssumed (uid : String)
  deriving DecidableEq

structure SchedulerCache where
  nodes : Dict String NodeInfo := ∅
  assumed : Dict String Pod := ∅

namespace SchedulerCache

def addNode (c : SchedulerCache) (node : Node) : SchedulerCache :=
  let info := (c.nodes.lookup node.metadata.name).getD (.new node)
  { c with nodes := c.nodes.insert node.metadata.name (info.setNode node) }

def removeNode (c : SchedulerCache) (name : String) : SchedulerCache :=
  { c with nodes := c.nodes.erase name }

def updateNode (c : SchedulerCache) (node : Node) : SchedulerCache := c.addNode node

/-- Change what is known of a node. -/
def onNode (c : SchedulerCache) (name : String) (f : NodeInfo → NodeInfo) :
    SchedulerCache × Except CacheError Unit :=
  match c.nodes.lookup name with
  | none => (c, .error (.nodeNotFound name))
  | some info => ({ c with nodes := c.nodes.insert name (f info) }, .ok ())

theorem onNode_cases (c : SchedulerCache) (name : String) (f : NodeInfo → NodeInfo) :
    (c.nodes.lookup name = none ∧ c.onNode name f = (c, .error (.nodeNotFound name))) ∨
    ∃ info, c.nodes.lookup name = some info ∧
      c.onNode name f = ({ c with nodes := c.nodes.insert name (f info) }, .ok ()) := by
  unfold onNode
  cases h : c.nodes.lookup name with
  | none => exact .inl ⟨rfl, rfl⟩
  | some info => exact .inr ⟨info, rfl, rfl⟩

/-- A bound pod is on the node of its specification. -/
def addPod (c : SchedulerCache) (pod : Pod) : SchedulerCache × Except CacheError Unit :=
  if pod.spec.nodeName.isEmpty then (c, .ok ())
  else c.onNode pod.spec.nodeName (·.addPod pod)

def removePod (c : SchedulerCache) (pod : Pod) : SchedulerCache × Except CacheError Unit :=
  if pod.spec.nodeName.isEmpty then (c, .ok ())
  else c.onNode pod.spec.nodeName (·.removePod pod)

/-- Put a pod on a node for the time being. -/
def assumePod (c : SchedulerCache) (pod : Pod) (nodeName : String) :
    SchedulerCache × Except CacheError Unit :=
  if (c.assumed.lookup pod.uid).isSome then (c, .error (.podAlreadyAssumed pod.uid))
  else
    match c.onNode nodeName (·.addPod (pod.onto nodeName)) with
    | (c, .error e) => (c, .error e)
    | (c, .ok ()) => ({ c with assumed := c.assumed.insert pod.uid (pod.onto nodeName) }, .ok ())

/-- Undo the assumption, if there is one. -/
def forgetPod (c : SchedulerCache) (uid : String) : SchedulerCache :=
  match c.assumed.lookup uid with
  | none => c
  | some pod =>
    let c := { c with assumed := c.assumed.erase uid }
    (c.onNode pod.spec.nodeName (·.removePod pod)).1

def isAssumed (c : SchedulerCache) (uid : String) : Bool := (c.assumed.lookup uid).isSome

/-- The nodes in the order of their names. -/
def snapshot (c : SchedulerCache) : List NodeInfo :=
  (c.nodes.entries.insertionSort fun e e' => e.1 ≤ e'.1).map (·.2)

/-! ## Runs -/

/-- A call that changes the cache. -/
inductive Op
  | addNode (node : Node)
  | removeNode (name : String)
  | updateNode (node : Node)
  | addPod (pod : Pod)
  | removePod (pod : Pod)
  | assumePod (pod : Pod) (nodeName : String)
  | forgetPod (uid : String)

def step (c : SchedulerCache) : Op → SchedulerCache
  | .addNode node => c.addNode node
  | .removeNode name => c.removeNode name
  | .updateNode node => c.updateNode node
  | .addPod pod => (c.addPod pod).1
  | .removePod pod => (c.removePod pod).1
  | .assumePod pod nodeName => (c.assumePod pod nodeName).1
  | .forgetPod uid => c.forgetPod uid

section StepAll

variable {P : String → NodeInfo → Prop} {c : SchedulerCache}

theorem onNode_all (h : Dict.All P c.nodes) (name : String) {f : NodeInfo → NodeInfo}
    (hf : ∀ info, P name info → P name (f info)) : Dict.All P (c.onNode name f).1.nodes := by
  obtain ⟨-, heq⟩ | ⟨info, hinfo, heq⟩ := c.onNode_cases name f
  · rw [heq]
    exact h
  · rw [heq]
    exact Dict.All.insert h (hf info (h name info hinfo))

variable (hset : ∀ node info, P node.metadata.name info ∨ info = .new node →
    P node.metadata.name (info.setNode node))
  (hadd : ∀ name info pod, P name info → P name (info.addPod pod))
  (hremove : ∀ name info pod, P name info → P name (info.removePod pod))
include hset hadd hremove

theorem step_all (h : Dict.All P c.nodes) (op : Op) : Dict.All P (c.step op).nodes := by
  have hplus (name : String) (pod : Pod) : Dict.All P (c.onNode name (·.addPod pod)).1.nodes :=
    onNode_all h name fun info hinfo => hadd name info pod hinfo
  cases op with
  | addNode node | updateNode node =>
    refine Dict.All.insert h (hset node _ ?_)
    cases hinfo : c.nodes.lookup node.metadata.name with
    | none => exact .inr rfl
    | some info => exact .inl (h _ info hinfo)
  | removeNode name => exact Dict.All.erase h name
  | addPod pod =>
    rw [step, addPod]
    split
    · exact h
    · exact hplus _ pod
  | removePod pod =>
    rw [step, removePod]
    split
    · exact h
    · exact onNode_all h _ fun info hinfo => hremove _ info pod hinfo
  | assumePod pod nodeName =>
    have hassumed := hplus nodeName (pod.onto nodeName)
    rw [step, assumePod]
    split
    · exact h
    · split
      next heq =>
        rw [heq] at hassumed
        exact hassumed
      next heq =>
        rw [heq] at hassumed
        exact hassumed
  | forgetPod uid =>
    rw [step, forgetPod]
    split
    · exact h
    next pod _ =>
      exact onNode_all (c := { c with assumed := c.assumed.erase uid }) h _
        fun info hinfo => hremove _ info pod hinfo

end StepAll

/-- The calls made since the cache was new, each satisfying `cond`. -/
inductive Run (cond : SchedulerCache → Op → Prop) : List Op → SchedulerCache → Prop
  | start : Run cond [] {}
  | call {ops : List Op} {c : SchedulerCache} (hrun : Run cond ops c) (op : Op)
      (hcond : cond c op) : Run cond (ops ++ [op]) (c.step op)

end SchedulerCache

end CaveHome.Scheduler
