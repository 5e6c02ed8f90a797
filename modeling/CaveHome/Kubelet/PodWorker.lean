import CaveHome.Kubelet.Cri
import CaveHome.Lib.Faulty

/-!
# The pod worker

The state machine of one pod: `Sync` brings the containers of its sandbox in line with the spec,
`Terminating` stops them, `Terminated` removes them and the sandbox.
-/

namespace CaveHome.Kubelet

open Cri (CriError PodSandboxConfig ContainerConfig ContainerFilter)

/-! ## State -/

inductive WorkType
  | sync
  | terminating
  | terminated
deriving DecidableEq

inductive PodWorkerState
  | idle
  | syncing
  | waiting
  | terminating
  | terminated
deriving DecidableEq

structure SyncOutcome where
  sandboxId : Option Nat
  createdContainers : List Nat
  startedContainers : List Nat
  killedContainers : List Nat
deriving DecidableEq

def SyncOutcome.empty : SyncOutcome := ⟨none, [], [], []⟩

/-- The two fields of the worker, and the runtime it calls. -/
structure World where
  cri : Cri
  state : PodWorkerState
  sandboxId : Option Nat

/-- What the worker does: calls to the runtime, any of which may fail. -/
abbrev Run (α : Type) := Faulty World CriError α

namespace World

def setState (state : PodWorkerState) (w : World) : World := { w with state := state }

def setSandboxId (id : Option Nat) (w : World) : World := { w with sandboxId := id }

/-- A call to the runtime. -/
def onCri {α : Type} (op : Cri → Except CriError α × Cri) (w : World) :
    Except CriError α × World :=
  ((op w.cri).1, { w with cri := (op w.cri).2 })

end World

def callCri {α : Type} (op : Cri → Except CriError α × Cri) : Run α := Faulty.call (World.onCri op)

def sandboxConfig (pod : Pod) : PodSandboxConfig where
  metadata := ⟨pod.metadata.name, pod.metadata.uid, pod.metadata.namespaceName, 0⟩
  hostname := pod.metadata.name
  logDirectory := "/var/log/pods/" ++ pod.metadata.namespaceName ++ "_" ++ pod.metadata.name ++
    "_" ++ pod.metadata.uid
  labels := pod.metadata.labels
  annotations := pod.metadata.annotations

def containerConfig (c : Container) : ContainerConfig where
  metadata := ⟨c.name, 0⟩
  image := c.image
  command := c.command
  args := c.args

/-- The containers of a sandbox. -/
def inSandbox (id : Nat) : ContainerFilter := ⟨none, some id, none⟩

/-! ## Sync -/

inductive ContainerAction
  | skip
  | create
deriving DecidableEq

def computeContainerAction (desired : Container) (criContainers : List Cri.Container)
    (restartPolicy : RestartPolicy) : ContainerAction :=
  let has (state : Cri.ContainerState) : Bool :=
    criContainers.any fun c => c.metadata.name == desired.name && c.state == state
  if has .running then .skip
  else if has .created then .skip
  else if has .exited then
    match restartPolicy with
    | .always | .onFailure => .create
    | .never => .skip
  else .create

def ensureSandbox (pod : Pod) : Run Nat := do
  let cached ← Faulty.read World.sandboxId
  match cached with
  | none => runSandbox
  | some id =>
    let status ← (callCri (Cri.podSandboxStatus id)).attempt
    if status.toOption.any fun st => st.state = .ready then pure id
    else
      -- the cached sandbox is gone or not ready: it is cleaned up as far as that goes
      let _ ← (callCri (Cri.stopPodSandbox id)).attempt
      let _ ← (callCri (Cri.removePodSandbox id)).attempt
      Faulty.update (World.setSandboxId none)
      runSandbox
where
  runSandbox : Run Nat := do
    let newId ← callCri (Cri.runPodSandbox (sandboxConfig pod))
    Faulty.update (World.setSandboxId (some newId))
    pure newId

/-- Create and start the containers that are to run. -/
def startDesired (pod : Pod) (sandboxId : Nat) (criContainers : List Cri.Container) :
    List Container → SyncOutcome → Run SyncOutcome
  | [], out => pure out
  | desired :: rest, out =>
    match computeContainerAction desired criContainers pod.spec.restartPolicy with
    | .skip => startDesired pod sandboxId criContainers rest out
    | .create => do
      let cid ← callCri
        (Cri.createContainer sandboxId (containerConfig desired) (sandboxConfig pod))
      callCri (Cri.startContainer cid)
      startDesired pod sandboxId criContainers rest
        { out with
          createdContainers := out.createdContainers ++ [cid]
          startedContainers := out.startedContainers ++ [cid] }

/-- Stop containers one after the other, those that `stops` selects. -/
def stopSelected (stops : Cri.Container → Bool) (timeout : Int) :
    List Cri.Container → SyncOutcome → Run SyncOutcome
  | [], out => pure out
  | c :: rest, out =>
    if stops c then do
      callCri (Cri.stopContainer c.id timeout)
      stopSelected stops timeout rest
        { out with killedContainers := out.killedContainers ++ [c.id] }
    else stopSelected stops timeout rest out

/-- A running container that is not in the spec. -/
def isUndesired (pod : Pod) (c : Cri.Container) : Bool :=
  !(pod.spec.containers.any fun d => d.name == c.metadata.name) && c.state == .running

def doSync (pod : Pod) : Run SyncOutcome := do
  let cur ← Faulty.read World.state
  if cur = .terminated then pure .empty
  else
    Faulty.update (World.setState .syncing)
    let sandboxId ← ensureSandbox pod
    let criContainers ← callCri (Cri.listContainers (inSandbox sandboxId))
    let out ← startDesired pod sandboxId criContainers pod.spec.containers
      { SyncOutcome.empty with sandboxId := some sandboxId }
    let out ← stopSelected (isUndesired pod) 30 criContainers out
    Faulty.update (World.setState .waiting)
    pure out

/-! ## Termination -/

def doTerminating (_pod : Pod) : Run SyncOutcome := do
  Faulty.update (World.setState .terminating)
  let cached ← Faulty.read World.sandboxId
  match cached with
  | none => pure .empty
  | some sandboxId =>
    let criContainers ← callCri (Cri.listContainers (inSandbox sandboxId))
    let out ← stopSelected (fun c => c.state != .exited) 30 criContainers .empty
    pure { out with sandboxId := some sandboxId }

def stopRunning (c : Cri.Container) : Run Unit :=
  if c.state = .running then callCri (Cri.stopContainer c.id 0) else pure ()

/-- Remove containers one after the other; those that run are stopped first. -/
def removeAll : List Cri.Container → Run Unit
  | [] => pure ()
  | c :: rest => do
    stopRunning c
    callCri (Cri.removeContainer c.id)
    removeAll rest

def doTerminated (_pod : Pod) : Run SyncOutcome := do
  let cached ← Faulty.read World.sandboxId
  match cached with
  | none =>
    Faulty.update (World.setState .terminated)
    pure .empty
  | some sandboxId =>
    let criContainers ← callCri (Cri.listContainers (inSandbox sandboxId))
    removeAll criContainers
    callCri (Cri.stopPodSandbox sandboxId)
    callCri (Cri.removePodSandbox sandboxId)
    Faulty.update (World.setSandboxId none)
    Faulty.update (World.setState .terminated)
    pure { SyncOutcome.empty with sandboxId := some sandboxId }

def syncWorker (pod : Pod) : WorkType → Run SyncOutcome
  | .sync => doSync pod
  | .terminating => doTerminating pod
  | .terminated => doTerminated pod

end CaveHome.Kubelet
