import CaveHome.Kubelet.Cri
import CaveHome.Lib.Dict

/-!
# Pod lifecycle events

A relist compares what the runtime lists with what it listed at the relist before, and turns the
differences into events.  A container counts for the pod of its sandbox; one whose sandbox is not
listed counts for no pod.
-/

namespace CaveHome.Kubelet.Pleg

open Cri (CriError)

/-! ## Events and records -/

inductive PodLifecycleEventType
  | containerStarted
  | containerDied
  | containerRemoved
  | podSync
  | containerChanged
deriving DecidableEq

/-- An event of a pod; `containerId` is empty for `podSync`. -/
structure PodLifecycleEvent where
  id : String
  containerId : String
  eventType : PodLifecycleEventType
deriving DecidableEq

structure ContainerSnapshot where
  id : String
  state : Cri.ContainerState
deriving DecidableEq

structure PodRecord where
  uid : String
  containers : List ContainerSnapshot
deriving DecidableEq

def PodRecord.container (r : PodRecord) (id : String) : Option ContainerSnapshot :=
  r.containers.find? fun c => c.id = id

abbrev PodRecords := Dict String PodRecord

/-! ## What the runtime lists -/

structure PodSandbox where
  id : String
  uid : String
deriving DecidableEq

structure Container where
  id : String
  podSandboxId : String
  state : Cri.ContainerState
deriving DecidableEq

/-- The containers of one answer, each listed once. -/
structure ContainerList where
  items : List Container
  ids_nodup : (items.map (·.id)).Nodup

structure Snapshot where
  sandboxes : List PodSandbox
  containers : ContainerList

namespace Snapshot

def empty : Snapshot := ⟨[], [], List.nodup_nil⟩

def sandboxUidById (s : Snapshot) : Dict String String :=
  s.sandboxes.foldl (fun m sb => m.insert sb.id sb.uid) ∅

def currentUids (s : Snapshot) : List String := (s.sandboxes.map (·.uid)).dedup

/-- `entry(uid).or_insert_with(..)` -/
def addPod (records : PodRecords) (sb : PodSandbox) : PodRecords :=
  if (records.lookup sb.uid).isSome then records else records.insert sb.uid ⟨sb.uid, []⟩

def addContainer (uidById : Dict String String) (records : PodRecords) (c : Container) :
    PodRecords :=
  match uidById.lookup c.podSandboxId with
  | none => records
  | some uid =>
    let entry := (records.lookup uid).getD ⟨uid, []⟩
    records.insert uid { entry with containers := entry.containers ++ [⟨c.id, c.state⟩] }

/-- The records of the pods: containers bucketed by the uid of their sandbox. -/
def newRecords (s : Snapshot) : PodRecords :=
  s.containers.items.foldl (addContainer s.sandboxUidById) (s.sandboxes.foldl addPod ∅)

end Snapshot

/-! ## The differences -/

/-- The event of a container that is listed now. -/
def transition (prior : Option Cri.ContainerState) (state : Cri.ContainerState) :
    Option PodLifecycleEventType :=
  match prior with
  | none => if state = .running then some .containerStarted else none
  | some prev =>
    if prev = .created ∧ state = .running then some .containerStarted
    else if prev = .running ∧ state = .exited then some .containerDied
    else if prev ≠ state then some .containerChanged
    else none

def removed (uid : String) (c : ContainerSnapshot) : PodLifecycleEvent :=
  ⟨uid, c.id, .containerRemoved⟩

/-- The transitions of one pod, and the containers that it lost. -/
def podEvents (uid : String) (oldRec newRec : PodRecord) : List PodLifecycleEvent :=
  (newRec.containers.filterMap fun nc =>
    (transition ((oldRec.container nc.id).map (·.state)) nc.state).map fun eventType =>
      ⟨uid, nc.id, eventType⟩) ++
  (oldRec.containers.filter fun oc => (newRec.container oc.id).isNone).map (removed uid)

/-- The events of containers: pods that are listed now, then pods that are gone. -/
def containerEvents (old new : PodRecords) : List PodLifecycleEvent :=
  (new.entries.flatMap fun e => podEvents e.1 ((old.lookup e.1).getD ⟨e.1, []⟩) e.2) ++
  old.entries.flatMap fun e =>
    if (new.lookup e.1).isSome then [] else e.2.containers.map (removed e.1)

/-- The pods that came or went without an event of a container. -/
def podSyncs (old : PodRecords) (currentUids emittedFor : List String) :
    List PodLifecycleEvent :=
  ((old.keys.filter fun uid => uid ∉ currentUids ∧ uid ∉ emittedFor) ++
    currentUids.filter fun uid => (old.lookup uid).isNone ∧ uid ∉ emittedFor).map fun uid =>
      ⟨uid, "", .podSync⟩

def diff (old new : PodRecords) (currentUids : List String) : List PodLifecycleEvent :=
  let events := containerEvents old new
  events ++ podSyncs old currentUids (events.map (·.id))

/-! ## Relists -/

structure GenericPleg where
  records : PodRecords
  lastRelistMs : Int

def GenericPleg.new : GenericPleg := ⟨∅, 0⟩

/-- The answers of the runtime to one relist, and the clock. -/
structure Answers where
  listPodSandbox : Except CriError (List PodSandbox)
  listContainers : Except CriError ContainerList
  nowUnixMillis : Int

def Answers.snapshot (a : Answers) : Option Snapshot :=
  match a.listPodSandbox, a.listContainers with
  | .ok sandboxes, .ok containers => some ⟨sandboxes, containers⟩
  | _, _ => none

/-- One relist and the events that it sends.  Hash maps and sets are iterated in any order. -/
inductive Relist (a : Answers) (p : GenericPleg) : GenericPleg → List PodLifecycleEvent → Prop
  | failed (h : a.snapshot = none) : Relist a p p []
  | listed {now : Snapshot} {old new : PodRecords} {uids : List String}
      (h : a.snapshot = some now) (hold : p.records.Reordered old)
      (hnew : now.newRecords.Reordered new) (huids : now.currentUids.Perm uids) :
      Relist a p ⟨new, a.nowUnixMillis⟩ (diff old new uids)

/-- The generator after a sequence of relists, any of which may have failed. -/
inductive Reaches : List Answers → GenericPleg → Prop
  | new : Reaches [] GenericPleg.new
  | relist {answers : List Answers} {a : Answers} {p q : GenericPleg}
      {events : List PodLifecycleEvent} (hrun : Reaches answers p) (h : Relist a p q events) :
      Reaches (answers ++ [a]) q

/-- The snapshot of the last relist that succeeded. -/
def lastListed (answers : List Answers) : Snapshot :=
  answers.foldl (fun s a => a.snapshot.getD s) Snapshot.empty

end CaveHome.Kubelet.Pleg
