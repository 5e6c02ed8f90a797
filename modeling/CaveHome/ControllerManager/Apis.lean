import CaveHome.ControllerManager.Store
import CaveHome.Lib.MachineData
import Mathlib.Data.Nat.Digits.Defs

/-!
# The in-memory apiserver

The workload objects, as far as the controllers read them, and a store for each kind.  Creating an
object puts it in the place of one with the same key.
-/

namespace CaveHome.ControllerManager

/-! ## Core objects -/

inductive PodPhase
  | pending
  | running
  | succeeded
  | failed
  | unknown
  deriving DecidableEq

def PodPhase.isTerminal : PodPhase → Bool
  | .succeeded | .failed => true
  | _ => false

structure PodStatus where
  phase : PodPhase := .pending
  ready : Bool := false
  deriving DecidableEq

structure Pod where
  podMeta : ObjectMeta
  status : PodStatus := {}
  deriving DecidableEq

instance : Object Pod where
  objectMeta := Pod.podMeta
  withMeta p m := { p with podMeta := m }
  objectMeta_withMeta _ _ := rfl

/-- Does the pod count towards the replicas of its controller? -/
def Pod.isActive (p : Pod) : Bool := !p.status.phase.isTerminal && !p.podMeta.isTerminating

structure PodTemplateSpec where
  labels : BTreeMap String String := []
  deriving DecidableEq

structure PersistentVolumeClaim where
  claimMeta : ObjectMeta
  deriving DecidableEq

instance : Object PersistentVolumeClaim where
  objectMeta := PersistentVolumeClaim.claimMeta
  withMeta _ m := ⟨m⟩
  objectMeta_withMeta _ _ := rfl

/-! Of these kinds only the metadata is read. -/

structure Namespace where
  nsMeta : ObjectMeta
  deriving DecidableEq

instance : Object Namespace where
  objectMeta := Namespace.nsMeta
  withMeta _ m := ⟨m⟩
  objectMeta_withMeta _ _ := rfl

structure Endpoints where
  epMeta : ObjectMeta
  deriving DecidableEq

instance : Object Endpoints where
  objectMeta := Endpoints.epMeta
  withMeta _ m := ⟨m⟩
  objectMeta_withMeta _ _ := rfl

structure Service where
  svcMeta : ObjectMeta
  deriving DecidableEq

instance : Object Service where
  objectMeta := Service.svcMeta
  withMeta _ m := ⟨m⟩
  objectMeta_withMeta _ _ := rfl

structure ServiceAccount where
  saMeta : ObjectMeta
  deriving DecidableEq

instance : Object ServiceAccount where
  objectMeta := ServiceAccount.saMeta
  withMeta _ m := ⟨m⟩
  objectMeta_withMeta _ _ := rfl

structure DaemonSet where
  dsMeta : ObjectMeta
  deriving DecidableEq

instance : Object DaemonSet where
  objectMeta := DaemonSet.dsMeta
  withMeta _ m := ⟨m⟩
  objectMeta_withMeta _ _ := rfl

abbrev LabelSelector := BTreeMap String String

/-! ## Workloads -/

structure ReplicaSetSpec where
  replicas : Int := 0
  selector : LabelSelector := []
  template : PodTemplateSpec := {}
  deriving DecidableEq

structure ReplicaSetStatus where
  replicas : Int := 0
  readyReplicas : Int := 0
  availableReplicas : Int := 0
  deriving DecidableEq

structure ReplicaSet where
  rsMeta : ObjectMeta
  spec : ReplicaSetSpec := {}
  status : ReplicaSetStatus := {}
  deriving DecidableEq

instance : Object ReplicaSet where
  objectMeta := ReplicaSet.rsMeta
  withMeta r m := { r with rsMeta := m }
  objectMeta_withMeta _ _ := rfl

inductive DeploymentStrategy
  | recreate
  | rollingUpdate (maxUnavailable maxSurge : Int)
  deriving DecidableEq

structure DeploymentSpec where
  replicas : Int := 0
  selector : LabelSelector := []
  template : PodTemplateSpec := {}
  strategy : DeploymentStrategy := .rollingUpdate 1 1
  deriving DecidableEq

structure DeploymentStatus where
  replicas : Int := 0
  updatedReplicas : Int := 0
  readyReplicas : Int := 0
  availableReplicas : Int := 0
  deriving DecidableEq

structure Deployment where
  deployMeta : ObjectMeta
  spec : DeploymentSpec := {}
  status : DeploymentStatus := {}
  deriving DecidableEq

instance : Object Deployment where
  objectMeta := Deployment.deployMeta
  withMeta d m := { d with deployMeta := m }
  objectMeta_withMeta _ _ := rfl

inductive PodManagementPolicy
  | orderedReady
  | parallel
  deriving DecidableEq

structure StatefulSetSpec where
  replicas : Int := 0
  selector : LabelSelector := []
  template : PodTemplateSpec := {}
  podManagementPolicy : PodManagementPolicy := .orderedReady
  volumeClaimTemplates : List String := []
  deriving DecidableEq

structure StatefulSetStatus where
  replicas : Int := 0
  readyReplicas : Int := 0
  currentReplicas : Int := 0
  updatedReplicas : Int := 0
  deriving DecidableEq

structure StatefulSet where
  stsMeta : ObjectMeta
  spec : StatefulSetSpec := {}
  status : StatefulSetStatus := {}
  deriving DecidableEq

instance : Object StatefulSet where
  objectMeta := StatefulSet.stsMeta
  withMeta s m := { s with stsMeta := m }
  objectMeta_withMeta _ _ := rfl

structure JobSpec where
  completions : Int := 1
  parallelism : Int := 1
  backoffLimit : Int := 6
  selector : LabelSelector := []
  template : PodTemplateSpec := {}
  deriving DecidableEq

structure JobStatus where
  succeeded : Int := 0
  failed : Int := 0
  active : Int := 0
  complete : Bool := false
  failedFinal : Bool := false
  finishedAt : Option Int := none
  deriving DecidableEq

structure Job where
  jobMeta : ObjectMeta
  spec : JobSpec := {}
  status : JobStatus := {}
  deriving DecidableEq

instance : Object Job where
  objectMeta := Job.jobMeta
  withMeta j m := { j with jobMeta := m }
  objectMeta_withMeta _ _ := rfl

inductive ConcurrencyPolicy
  | allow
  | forbid
  | replace
  deriving DecidableEq

structure CronJobSpec where
  schedule : String := "* * * * *"
  concurrency : ConcurrencyPolicy := .allow
  suspend : Bool := false
  startingDeadline : Option Int := none
  successfulJobsHistoryLimit : Nat := 3
  failedJobsHistoryLimit : Nat := 1
  jobTemplate : JobSpec := {}
  deriving DecidableEq

structure CronJob where
  cronMeta : ObjectMeta
  spec : CronJobSpec := {}
  createdAt : Int := 0
  /-- The instant of the last run. -/
  lastScheduled : Option Int := none
  deriving DecidableEq

instance : Object CronJob where
  objectMeta := CronJob.cronMeta
  withMeta j m := { j with cronMeta := m }
  objectMeta_withMeta _ _ := rfl

/-! ## Short names -/

def digit36 (d : Nat) : Char :=
  if d < 10 then Char.ofNat (48 + d) else Char.ofNat (87 + d)

/-- The digits of a number, the least first. -/
def digits36 (n : Nat) : List Char :=
  if n = 0 then ['0'] else (Nat.digits 36 n).map digit36

def base36 (n : Nat) : String := String.ofList (digits36 n).reverse

/-- One byte into the FNV-1a hash. -/
def fnvMix (h : Nat) (b : UInt8) : Nat :=
  ((h ^^^ b.toNat) * 1099511628211) % 18446744073709551616

/-- A short text for the labels of a template. -/
def templateHash (template : PodTemplateSpec) : String :=
  let bytes := template.labels.flatMap fun e =>
    Bytes.ofString e.1 ++ Bytes.ofString "=" ++ Bytes.ofString e.2 ++ Bytes.ofString ";"
  String.ofList (digits36 (bytes.foldl fnvMix 14695981039346656037))

/-! ## The stores -/

structure Api (α : Type) [Object α] where
  store : Store α := .empty
  kind : String
  /-- The number of uids given out. -/
  seq : Nat := 0

/-- The number in at least eight digits. -/
def padded (n : Nat) : String :=
  let s := toString n
  String.ofList (List.replicate (8 - s.length) '0') ++ s

namespace Api

variable {α : Type} [Object α]

/-- The empty store of a kind. -/
def new (kind : String) : Api α := { kind }

/-- The object as the server stores it, with a uid. -/
def stamped (a : Api α) (o : α) : α :=
  if (objectMeta o).uid = "" then
    withMeta o { objectMeta o with uid := a.kind ++ "-" ++ padded (a.seq + 1) }
  else o

def create (a : Api α) (o : α) : Api α where
  store := a.store.upsert (a.stamped o)
  kind := a.kind
  seq := if (objectMeta o).uid = "" then a.seq + 1 else a.seq

def update (a : Api α) (o : α) : Api α := { a with store := a.store.upsert o }

def delete (a : Api α) (k : String) : Api α := { a with store := a.store.remove k }

def get (a : Api α) (k : String) : Option α := a.store.get k

def list (a : Api α) : List α := a.store.list

def listNamespaced (a : Api α) (namespaceName : String) : List α :=
  a.store.listByNamespace namespaceName

/-- An empty selector finds nothing. -/
def listMatching (a : Api α) (namespaceName : String) (selector : LabelSelector) : List α :=
  if selector.isEmpty then []
  else (a.store.listByNamespace namespaceName).filter fun o =>
    selectorMatches selector (objectMeta o).labels

/-- Is the object controlled by the owner? -/
def ownedBy (ownerUid : String) (o : α) : Bool :=
  (objectMeta o).ownerReferences.any fun r => r.controller && r.uid == ownerUid

def listOwnedBy (a : Api α) (ownerUid : String) : List α := a.list.filter (ownedBy ownerUid)

/-! ### What a request finds after a change -/

variable {a : Api α} {o : α} {k : String}

theorem objectMeta_stamped (a : Api α) (o : α) :
    ∃ uid, objectMeta (a.stamped o) = { objectMeta o with uid } := by
  rw [stamped]
  split
  · exact ⟨_, Object.objectMeta_withMeta _ _⟩
  · exact ⟨_, rfl⟩

@[simp]
theorem key_stamped (a : Api α) (o : α) : key (a.stamped o) = key o := by
  obtain ⟨uid, h⟩ := a.objectMeta_stamped o
  rw [key, h]
  rfl

@[simp]
theorem get_create (a : Api α) (o : α) (k : String) :
    (a.create o).get k = if k = key o then some (a.stamped o) else a.get k := by
  rw [get, create, Store.get_upsert, key_stamped]
  rfl

@[simp]
theorem get_update (a : Api α) (o : α) (k : String) :
    (a.update o).get k = if k = key o then some o else a.get k := Store.get_upsert ..

@[simp]
theorem get_delete (a : Api α) (k k' : String) :
    (a.delete k).get k' = if k' = k then none else a.get k' := Store.get_remove ..

theorem get_foldl_delete (keys : List String) (a : Api α) (k : String) :
    (keys.foldl delete a).get k = if k ∈ keys then none else a.get k := by
  induction keys generalizing a with
  | nil => rfl
  | cons j keys ih =>
    rw [List.foldl_cons, ih, get_delete]
    by_cases hk : k ∈ keys <;> by_cases hj : k = j <;> simp [hk, hj]

theorem key_of_get (h : a.get k = some o) : key o = k := Store.key_of_get h

theorem mem_list : o ∈ a.list ↔ a.get (key o) = some o := Store.mem_list

theorem mem_listOwnedBy {uid : String} :
    o ∈ a.listOwnedBy uid ↔ a.get (key o) = some o ∧ ownedBy uid o := by
  rw [listOwnedBy, List.mem_filter, mem_list]

theorem mem_listMatching {namespaceName : String} {selector : LabelSelector} :
    o ∈ a.listMatching namespaceName selector ↔ a.get (key o) = some o ∧ selector ≠ [] ∧
      (objectMeta o).namespaceName = namespaceName ∧
      selectorMatches selector (objectMeta o).labels := by
  rw [listMatching, ← mem_list]
  split
  next hempty => simp [List.isEmpty_iff.mp hempty]
  next hne =>
    have hne : selector ≠ [] := fun h => hne (List.isEmpty_iff.mpr h)
    rw [Store.listByNamespace_eq, List.mem_filter, List.mem_filter]
    simp [hne, list, and_assoc]

theorem nodup_keys_listMatching (a : Api α) (namespaceName : String) (selector : LabelSelector) :
    ((a.listMatching namespaceName selector).map key).Nodup := by
  rw [listMatching]
  split
  · exact List.nodup_nil
  · rw [Store.listByNamespace_eq]
    refine a.store.nodup_keys.sublist (List.Sublist.map _ ?_)
    exact List.filter_sublist.trans List.filter_sublist

theorem nodup_keys_listOwnedBy (a : Api α) (uid : String) : ((a.listOwnedBy uid).map key).Nodup :=
  a.store.nodup_keys.sublist (List.filter_sublist.map _)

theorem get_foldl_update (l : List α) (skip : α → Bool) (f : α → α) (hkey : ∀ o, key (f o) = key o)
    (a : Api α) (hl : ∀ o ∈ l, a.get (key o) = some o) (hnodup : (l.map key).Nodup) :
    (∀ o ∈ l, (l.foldl (fun a o => if skip o then a else a.update (f o)) a).get (key o) =
        some (if skip o then o else f o)) ∧
      ∀ k ∉ l.map key, (l.foldl (fun a o => if skip o then a else a.update (f o)) a).get k =
        a.get k := by
  induction l generalizing a with
  | nil => simp
  | cons o l ih =>
    obtain ⟨hout, hnodup⟩ := List.nodup_cons.mp hnodup
    let next := if skip o then a else a.update (f o)
    have hnext : ∀ k, k ≠ key o → next.get k = a.get k := by
      intro k hk
      dsimp only [next]
      split
      · rfl
      · rw [get_update, hkey, if_neg hk]
    have hself : next.get (key o) = some (if skip o then o else f o) := by
      dsimp only [next]
      split
      · exact hl o List.mem_cons_self
      · rw [get_update, hkey, if_pos rfl]
    obtain ⟨hin, hrest⟩ := ih next (fun o' ho' => by
      rw [hnext _ fun h => hout (h ▸ List.mem_map_of_mem ho')]
      exact hl o' (List.mem_cons_of_mem _ ho')) hnodup
    refine ⟨fun o' ho' => ?_, fun k hk => ?_⟩
    · rcases List.mem_cons.mp ho' with rfl | ho'
      · exact (hrest _ hout).trans hself
      · exact hin o' ho'
    · obtain ⟨hne, hmem⟩ := not_or.mp fun h => hk (List.mem_cons.mpr h)
      exact (hrest k hmem).trans (hnext k hne)

theorem countP_create_of_free (p : α → Bool) (h : a.get (key o) = none) :
    (a.create o).list.countP p = a.list.countP p + if p (a.stamped o) then 1 else 0 := by
  have hperm := a.store.list_upsert_perm (a.stamped o)
  rw [key_stamped, Store.list_remove_of_get_none h] at hperm
  exact (hperm.countP_eq p).trans List.countP_cons

theorem countP_delete (p : α → Bool) (h : a.get k = some o) :
    a.list.countP p = (a.delete k).list.countP p + if p o then 1 else 0 :=
  ((Store.list_perm_remove h).countP_eq p).trans List.countP_cons

end Api

structure Cluster where
  pods : Api Pod := .new "pod"
  replicasets : Api ReplicaSet := .new "rs"
  deployments : Api Deployment := .new "deploy"
  statefulsets : Api StatefulSet := .new "sts"
  daemonsets : Api DaemonSet := .new "ds"
  jobs : Api Job := .new "job"
  cronjobs : Api CronJob := .new "cronjob"
  namespaces : Api Namespace := .new "ns"
  endpoints : Api Endpoints := .new "ep"
  services : Api Service := .new "svc"
  serviceAccounts : Api ServiceAccount := .new "sa"
  pvcs : Api PersistentVolumeClaim := .new "pvc"

end CaveHome.ControllerManager
