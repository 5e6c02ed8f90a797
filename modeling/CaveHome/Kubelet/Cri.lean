import CaveHome.Lib.BTreeMap
import Mathlib.Data.List.Sort

/-!
# Pods

What the kubelet reads of a pod: its metadata, its containers and its restart policy; and the
status it reports of a container.
-/

namespace CaveHome.Kubelet

/-! ## The spec -/

structure ObjectMeta where
  name : String
  namespaceName : String
  uid : String
  labels : BTreeMap String String
  annotations : BTreeMap String String
deriving DecidableEq

inductive RestartPolicy
  | always
  | onFailure
  | never
deriving DecidableEq

structure Container where
  name : String
  image : String
  command : List String
  args : List String
deriving DecidableEq

structure PodSpec where
  containers : List Container
  restartPolicy : RestartPolicy
deriving DecidableEq

structure Pod where
  metadata : ObjectMeta
  spec : PodSpec
deriving DecidableEq

/-- The container names of the spec. -/
def PodSpec.names (spec : PodSpec) : List String := spec.containers.map (·.name)

inductive ContainerState
  | waiting
  | running
  | terminated (exitCode : Int)
deriving DecidableEq

structure ContainerStatus where
  name : String
  state : ContainerState
deriving DecidableEq

end CaveHome.Kubelet

/-!
## The container runtime

The runtime as a store of sandboxes and containers, with the answers that its in-memory client
gives.  Identifiers come from one counter, so that none is given out twice; `history` is kept for
the statements only and records the calls that took effect, the latest last.
-/

namespace CaveHome.Kubelet.Cri

/-! ## What the runtime keeps -/

inductive PodSandboxState
  | notReady
  | ready
deriving DecidableEq

inductive ContainerState
  | created
  | running
  | exited
  | unknown
deriving DecidableEq

structure PodSandboxMetadata where
  name : String
  uid : String
  namespaceName : String
  attempt : Nat
deriving DecidableEq

structure PodSandboxConfig where
  metadata : PodSandboxMetadata
  hostname : String
  logDirectory : String
  labels : BTreeMap String String
  annotations : BTreeMap String String
deriving DecidableEq

structure PodSandbox where
  id : Nat
  metadata : PodSandboxMetadata
  state : PodSandboxState
  createdAt : Int
  labels : BTreeMap String String
deriving DecidableEq

structure ContainerMetadata where
  name : String
  attempt : Nat
deriving DecidableEq

structure ContainerConfig where
  metadata : ContainerMetadata
  image : String
  command : List String
  args : List String
deriving DecidableEq

/-- A container with the exit code that its status carries. -/
structure Container where
  id : Nat
  podSandboxId : Nat
  metadata : ContainerMetadata
  image : String
  state : ContainerState
  createdAt : Int
  exitCode : Int
deriving DecidableEq

structure ContainerFilter where
  id : Option Nat
  podSandboxId : Option Nat
  state : Option ContainerState

inductive CriError
  | notFound (what : String)
  | invalidState (what : String)
  | rpc (code : Int) (message : String)
  | transport (message : String)
deriving DecidableEq

/-- A call that took effect. -/
inductive CriCall
  | ranPodSandbox (id : Nat)
  | stoppedPodSandbox (id : Nat)
  | removedPodSandbox (id : Nat)
  | createdContainer (id : Nat)
  | startedContainer (id : Nat)
  | stoppedContainer (id : Nat)
  | removedContainer (id : Nat)
deriving DecidableEq

end Cri

open Cri

structure Cri where
  sandboxes : List PodSandbox
  containers : List Cri.Container
  seq : Nat
  clock : Int
  history : List CriCall
  sandbox_lt : ∀ s ∈ sandboxes, s.id < seq
  container_lt : ∀ c ∈ containers, c.id < seq
  container_ids : (containers.map (·.id)).Nodup
  placed : ∀ c ∈ containers, ∃ s ∈ sandboxes, s.id = c.podSandboxId

namespace Cri

/-! ## Changes that keep the store well formed -/

/-- Change containers in place. -/
def mapContainers (c : Cri) (f : Container → Container)
    (hf : ∀ x, (f x).id = x.id ∧ (f x).podSandboxId = x.podSandboxId) : Cri where
  sandboxes := c.sandboxes
  containers := c.containers.map f
  seq := c.seq
  clock := c.clock
  history := c.history
  sandbox_lt := c.sandbox_lt
  container_lt := by
    intro x hx
    obtain ⟨y, hy, rfl⟩ := List.mem_map.1 hx
    exact (hf y).1 ▸ c.container_lt y hy
  container_ids := by
    have hids : (c.containers.map f).map (·.id) = c.containers.map (·.id) := by
      rw [List.map_map]
      exact List.map_congr_left fun x _ => (hf x).1
    rw [hids]
    exact c.container_ids
  placed := by
    intro x hx
    obtain ⟨y, hy, rfl⟩ := List.mem_map.1 hx
    exact (hf y).2 ▸ c.placed y hy

/-- Change the states of containers. -/
def setStates (c : Cri) (f : Container → ContainerState) : Cri :=
  c.mapContainers (fun x => { x with state := f x }) fun _ => ⟨rfl, rfl⟩

def filterContainers (c : Cri) (keep : Container → Bool) : Cri where
  sandboxes := c.sandboxes
  containers := c.containers.filter keep
  seq := c.seq
  clock := c.clock
  history := c.history
  sandbox_lt := c.sandbox_lt
  container_lt := fun x hx => c.container_lt x (List.mem_filter.1 hx).1
  container_ids := (List.filter_sublist.map _).nodup c.container_ids
  placed := fun x hx => c.placed x (List.mem_filter.1 hx).1

/-- A sandbox is not ready any more, and its containers have stopped. -/
def haltSandbox (c : Cri) (id : Nat) : Cri where
  sandboxes := c.sandboxes.map fun s => if s.id = id then { s with state := .notReady } else s
  containers := (c.setStates fun x =>
    if x.podSandboxId = id ∧ x.state = .running then .exited else x.state).containers
  seq := c.seq
  clock := c.clock + c.containers.countP fun x => x.podSandboxId = id ∧ x.state = .running
  history := c.history
  sandbox_lt := by
    intro s hs
    obtain ⟨t, ht, rfl⟩ := List.mem_map.1 hs
    have hlt := c.sandbox_lt t ht
    split <;> exact hlt
  container_lt := (c.setStates _).container_lt
  container_ids := (c.setStates _).container_ids
  placed := by
    intro x hx
    obtain ⟨s, hs, hid⟩ := (c.setStates _).placed x hx
    refine ⟨_, List.mem_map_of_mem hs, ?_⟩
    rw [← hid]
    split <;> rfl

/-- A sandbox goes, with its containers. -/
def dropSandbox (c : Cri) (id : Nat) : Cri where
  sandboxes := c.sandboxes.filter (·.id ≠ id)
  containers := c.containers.filter (·.podSandboxId ≠ id)
  seq := c.seq
  clock := c.clock
  history := c.history
  sandbox_lt := fun s hs => c.sandbox_lt s (List.mem_filter.1 hs).1
  container_lt := (c.filterContainers _).container_lt
  container_ids := (c.filterContainers _).container_ids
  placed := by
    intro x hx
    obtain ⟨hx, hne⟩ := List.mem_filter.1 hx
    obtain ⟨s, hs, hid⟩ := c.placed x hx
    refine ⟨s, List.mem_filter.2 ⟨hs, ?_⟩, hid⟩
    rw [hid]
    exact hne

def tick (c : Cri) : Cri := { c with clock := c.clock + 1 }

def record (c : Cri) (call : CriCall) : Cri := { c with history := c.history ++ [call] }

/-! ## The calls -/

def noSandbox (id : Nat) : CriError := .notFound ("pod sandbox sandbox-" ++ toString id)

def noContainer (id : Nat) : CriError := .notFound ("container container-" ++ toString id)

def sandbox? (c : Cri) (id : Nat) : Option PodSandbox := c.sandboxes.find? (·.id = id)

def container? (c : Cri) (id : Nat) : Option Container := c.containers.find? (·.id = id)

def runPodSandbox (cfg : PodSandboxConfig) (c : Cri) : Except CriError Nat × Cri :=
  (.ok c.seq,
    { sandboxes := c.sandboxes ++ [⟨c.seq, cfg.metadata, .ready, c.clock, cfg.labels⟩]
      containers := c.containers
      seq := c.seq + 1
      clock := c.clock + 1
      history := c.history ++ [.ranPodSandbox c.seq]
      sandbox_lt := by
        intro s hs
        rcases List.mem_append.1 hs with hs | hs
        · exact Nat.lt_succ_of_lt (c.sandbox_lt s hs)
        · rw [List.mem_singleton.1 hs]
          exact Nat.lt_succ_self c.seq
      container_lt := fun x hx => Nat.lt_succ_of_lt (c.container_lt x hx)
      container_ids := c.container_ids
      placed := fun x hx =>
        (c.placed x hx).imp fun _ hs => ⟨List.mem_append_left _ hs.1, hs.2⟩ })

def stopPodSandbox (id : Nat) (c : Cri) : Except CriError Unit × Cri :=
  match c.sandbox? id with
  | none => (.error (noSandbox id), c)
  | some _ => (.ok (), (c.haltSandbox id).record (.stoppedPodSandbox id))

def removePodSandbox (id : Nat) (c : Cri) : Except CriError Unit × Cri :=
  match c.sandbox? id with
  | none => (.error (noSandbox id), c)
  | some s =>
    if s.state = .ready then
      (.error (.invalidState ("pod sandbox sandbox-" ++ toString id ++
        " must be stopped before removal")), c)
    else (.ok (), (c.dropSandbox id).record (.removedPodSandbox id))

def podSandboxStatus (id : Nat) (c : Cri) : Except CriError PodSandbox × Cri :=
  match c.sandbox? id with
  | none => (.error (noSandbox id), c)
  | some s => (.ok s, c)

def createContainer (sandboxId : Nat) (cfg : ContainerConfig) (_sandboxCfg : PodSandboxConfig)
    (c : Cri) : Except CriError Nat × Cri :=
  if h : ∃ s ∈ c.sandboxes, s.id = sandboxId then
    (.ok c.seq,
      { sandboxes := c.sandboxes
        containers := c.containers ++
          [⟨c.seq, sandboxId, cfg.metadata, cfg.image, .created, c.clock, 0⟩]
        seq := c.seq + 1
        clock := c.clock + 1
        history := c.history ++ [.createdContainer c.seq]
        sandbox_lt := fun s hs => Nat.lt_succ_of_lt (c.sandbox_lt s hs)
        container_lt := by
          intro x hx
          rcases List.mem_append.1 hx with hx | hx
          · exact Nat.lt_succ_of_lt (c.container_lt x hx)
          · rw [List.mem_singleton.1 hx]
            exact Nat.lt_succ_self c.seq
        container_ids := by
          rw [List.map_append, List.map_singleton, List.nodup_append]
          refine ⟨c.container_ids, by simp, fun a ha b hb => ?_⟩
          obtain ⟨x, hx, rfl⟩ := List.mem_map.1 ha
          have hlt := c.container_lt x hx
          have hb' : b = c.seq := List.mem_singleton.1 hb
          omega
        placed := by
          intro x hx
          rcases List.mem_append.1 hx with hx | hx
          · exact c.placed x hx
          · rw [List.mem_singleton.1 hx]
            exact h })
  else (.error (noSandbox sandboxId), c)

def startContainer (id : Nat) (c : Cri) : Except CriError Unit × Cri :=
  match c.container? id with
  | none => (.error (noContainer id), c.tick)
  | some x =>
    if x.state ≠ .created then
      (.error (.invalidState ("container container-" ++ toString id ++
        " is not in Created state")), c.tick)
    else
      (.ok (), (c.tick.setStates fun x => if x.id = id then .running else x.state).record
        (.startedContainer id))

def stopContainer (id : Nat) (_timeout : Int) (c : Cri) : Except CriError Unit × Cri :=
  match c.container? id with
  | none => (.error (noContainer id), c.tick)
  | some x =>
    if x.state = .exited then (.ok (), c.tick)
    else
      (.ok (), (c.tick.setStates fun x => if x.id = id then .exited else x.state).record
        (.stoppedContainer id))

def removeContainer (id : Nat) (c : Cri) : Except CriError Unit × Cri :=
  match c.container? id with
  | none => (.error (noContainer id), c)
  | some x =>
    if x.state = .running then
      (.error (.invalidState ("container container-" ++ toString id ++
        " must be stopped before removal")), c)
    else (.ok (), (c.filterContainers (·.id ≠ id)).record (.removedContainer id))

def ContainerFilter.accepts (filter : ContainerFilter) (x : Container) : Bool :=
  (filter.id.all (x.id == ·)) && (filter.podSandboxId.all (x.podSandboxId == ·)) &&
    (filter.state.all (x.state == ·))

/-- Containers are listed in the order in which they were created. -/
def Listed (x y : Container) : Prop :=
  x.createdAt < y.createdAt ∨ (x.createdAt = y.createdAt ∧ x.id ≤ y.id)

instance : DecidableRel Listed := fun _ _ => inferInstanceAs (Decidable (_ ∨ _))

def listContainers (filter : ContainerFilter) (c : Cri) : Except CriError (List Container) × Cri :=
  (.ok ((c.containers.filter filter.accepts).insertionSort Listed), c)

end Cri

end CaveHome.Kubelet
