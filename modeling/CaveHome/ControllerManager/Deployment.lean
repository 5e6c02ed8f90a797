import CaveHome.ControllerManager.ReplicaSet
import CaveHome.ControllerManager.WorkQueue
import Mathlib.Algebra.Order.BigOperators.Group.List
import Mathlib.Algebra.Order.Group.Int

/-!
# The deployment controller

A deployment owns one replica set for each template it has had.  The one of the current template is
scaled up and the others are scaled down, either one after the other or step by step.
-/

namespace CaveHome.ControllerManager

def podTemplateHash : String := "pod-template-hash"

def ReplicaSet.scaled (rs : ReplicaSet) (replicas : Int) : ReplicaSet :=
  { rs with spec := { rs.spec with replicas } }

/-- The sum, which goes round at the ends of the range. -/
def sumI32 (xs : List Int) : Int := I32.wrap xs.sum

namespace Deployment

/-- Does the replica set belong to the template with the hash? -/
def isNew (hash : String) (rs : ReplicaSet) : Bool :=
  rs.rsMeta.labels.get podTemplateHash = some hash

def rsName (d : Deployment) (hash : String) : String := d.deployMeta.name ++ "-" ++ hash

/-- The replica set of the current template, which starts without pods. -/
def newReplicaSet (d : Deployment) (hash : String) : ReplicaSet :=
  let selector := d.spec.selector.insert podTemplateHash hash
  let template : PodTemplateSpec := ⟨d.spec.template.labels.insert podTemplateHash hash⟩
  { rsMeta :=
      { name := d.rsName hash, namespaceName := d.deployMeta.namespaceName, uid := "",
        labels := template.labels,
        ownerReferences :=
          [(OwnerReference.to "Deployment" d.deployMeta.name d.deployMeta.uid).controlling.blocking] }
    spec := { replicas := 0, selector, template } }

/-- Set the number of replicas, if it is another one. -/
def scale (rs : ReplicaSet) (replicas : Int) (rss : Api ReplicaSet) : Api ReplicaSet :=
  if rs.spec.replicas = replicas then rss
  else
    match rss.get (key rs) with
    | none => rss
    | some current => rss.update (current.scaled replicas)

/-- First scale down what is old, and then scale up what is new. -/
def reconcileRecreate (d : Deployment) (newRs : ReplicaSet) (oldRs : List ReplicaSet)
    (rss : Api ReplicaSet) : Api ReplicaSet :=
  if 0 < sumI32 (oldRs.map (·.status.replicas)) then
    scale newRs 0 (oldRs.foldl (fun rss rs => scale rs 0 rss) rss)
  else scale newRs d.spec.replicas rss

/-- Cut the replica sets in order as long as the budget lasts. -/
def cutOld : List ReplicaSet → Int → Api ReplicaSet → Api ReplicaSet
  | [], _, rss => rss
  | rs :: olds, budget, rss =>
    if budget ≤ 0 then rss
    else
      let dec := min rs.spec.replicas budget
      if 0 < dec then
        cutOld olds (I32.wrap (budget - dec)) (scale rs (I32.wrap (rs.spec.replicas - dec)) rss)
      else cutOld olds budget rss

/-- The replicas of the new replica set within the surge. -/
def newReplicas (d : Deployment) (maxSurge : Int) (newRs : ReplicaSet) (oldRs : List ReplicaSet) :
    Int :=
  let desired := d.spec.replicas
  let totalSpec := I32.wrap (sumI32 (oldRs.map (·.spec.replicas)) + newRs.spec.replicas)
  let maxTotal := I32.wrap (desired + maxSurge)
  if totalSpec < maxTotal then
    let scaleUp :=
      max (min (I32.wrap (maxTotal - totalSpec)) (I32.wrap (desired - newRs.spec.replicas))) 0
    I32.wrap (newRs.spec.replicas + scaleUp)
  else newRs.spec.replicas

/-- The number of old pods that can go without too few being available. -/
def cutBudget (d : Deployment) (maxUnavailable : Int) (newReplicas : Int) (newRs : ReplicaSet)
    (oldRs : List ReplicaSet) : Int :=
  let available := I32.wrap
    (sumI32 (oldRs.map (·.status.availableReplicas)) + newRs.status.availableReplicas)
  let minAvailable := max (I32.wrap (d.spec.replicas - maxUnavailable)) 0
  let newUnavailable := max (I32.wrap (newReplicas - newRs.status.availableReplicas)) 0
  I32.wrap (I32.wrap (available - minAvailable) - newUnavailable)

/-- Scale up what is new and scale down what is old within the bounds. -/
def reconcileRolling (d : Deployment) (newRs : ReplicaSet) (oldRs : List ReplicaSet)
    (maxUnavailable maxSurge : Int) (rss : Api ReplicaSet) : Api ReplicaSet :=
  if sumI32 (oldRs.map (·.spec.replicas)) = 0 then scale newRs d.spec.replicas rss
  else
    let replicas := d.newReplicas maxSurge newRs oldRs
    let rss := scale newRs replicas rss
    let budget := d.cutBudget maxUnavailable replicas newRs oldRs
    -- the largest ones first
    let olds := oldRs.insertionSort fun a b => b.spec.replicas ≤ a.spec.replicas
    if 0 < budget then cutOld olds budget rss else rss

def writeStatus (d : Deployment) (c : Cluster) : Cluster :=
  let owned := c.replicasets.listOwnedBy d.deployMeta.uid
  let hash := templateHash d.spec.template
  match c.deployments.get (key d) with
  | none => c
  | some current =>
    let current := { current with
      status :=
        { replicas := sumI32 (owned.map (·.status.replicas))
          updatedReplicas := sumI32 ((owned.filter (isNew hash)).map (·.status.replicas))
          readyReplicas := sumI32 (owned.map (·.status.readyReplicas))
          availableReplicas := sumI32 (owned.map (·.status.availableReplicas)) } }
    { c with deployments := c.deployments.update current }

/-- Bring the replica sets of the deployment closer to what it wants. -/
def reconcileReplicaSets (d : Deployment) (rss : Api ReplicaSet) : Api ReplicaSet :=
  let hash := templateHash d.spec.template
  let owned := rss.listOwnedBy d.deployMeta.uid
  let oldRs := owned.filter fun rs => !isNew hash rs
  let (newRs, rss) := match owned.find? (isNew hash) with
    | some rs => (rs, rss)
    | none => (rss.stamped (d.newReplicaSet hash), rss.create (d.newReplicaSet hash))
  match d.spec.strategy with
  | .recreate => d.reconcileRecreate newRs oldRs rss
  | .rollingUpdate maxUnavailable maxSurge =>
    d.reconcileRolling newRs oldRs maxUnavailable maxSurge rss

/-- Reconcile the deployment with the key. -/
def reconcile (k : String) (c : Cluster) : Cluster :=
  match c.deployments.get k with
  | none => c
  | some d =>
    if d.deployMeta.isTerminating then c
    else d.writeStatus { c with replicasets := d.reconcileReplicaSets c.replicasets }

end Deployment

/-- The kubelet starts a pending pod. -/
def Pod.admitted (p : Pod) : Pod :=
  if p.isActive && p.status.phase == .pending then { p with status := ⟨.running, true⟩ } else p

end CaveHome.ControllerManager

/-!
## What a reconcile does to the replica sets

A reconcile of a deployment gives the listed replica sets new numbers of replicas and changes
nothing else of them (`Rescales`).  Either strategy is described by these numbers alone.
-/

namespace CaveHome.ControllerManager

theorem Api.list_update_perm {α : Type} [Object α] {a : Api α} {o o' : α} {rest : List α}
    (h : a.list.Perm (o :: rest)) (hkey : key o' = key o) : (a.update o').list.Perm (o' :: rest) := by
  have hget : a.get (key o) = some o := Api.mem_list.mp (h.mem_iff.mpr List.mem_cons_self)
  have hrest : rest.Perm (a.store.remove (key o)).list :=
    (h.symm.trans (Store.list_perm_remove hget)).cons_inv
  have hupdate : (a.update o').list.Perm (o' :: (a.store.remove (key o')).list) :=
    a.store.list_upsert_perm o'
  rw [hkey] at hupdate
  exact hupdate.trans (hrest.symm.cons _)

namespace ReplicaSet

@[simp]
theorem scaled_self (rs : ReplicaSet) : rs.scaled rs.spec.replicas = rs := rfl

@[simp]
theorem rsMeta_scaled (rs : ReplicaSet) (n : Int) : (rs.scaled n).rsMeta = rs.rsMeta := rfl

@[simp]
theorem replicas_scaled (rs : ReplicaSet) (n : Int) : (rs.scaled n).spec.replicas = n := rfl

@[simp]
theorem status_scaled (rs : ReplicaSet) (n : Int) : (rs.scaled n).status = rs.status := rfl

/-- The replica set with the number of replicas it has. -/
def asIs (rs : ReplicaSet) : ReplicaSet × Int := (rs, rs.spec.replicas)

theorem map_fst_asIs (l : List ReplicaSet) : (l.map asIs).map Prod.fst = l := by
  rw [List.map_map]
  exact List.map_id l

end ReplicaSet

namespace Deployment

variable {rss rss' : Api ReplicaSet} {ts ts' : List (ReplicaSet × Int)}

/-! ## Scaling -/

/-- The listed replica sets get new numbers of replicas. -/
structure Rescales (rss rss' : Api ReplicaSet) (ts : List (ReplicaSet × Int)) : Prop where
  before : rss.list.Perm (ts.map Prod.fst)
  after : rss'.list.Perm (ts.map fun t => t.1.scaled t.2)
  seq_eq : rss'.seq = rss.seq
  kind_eq : rss'.kind = rss.kind

theorem Rescales.perm (h : Rescales rss rss' ts) (hperm : ts.Perm ts') : Rescales rss rss' ts' where
  before := h.before.trans (hperm.map _)
  after := h.after.trans (hperm.map _)
  seq_eq := h.seq_eq
  kind_eq := h.kind_eq

/-- Scale one after the other. -/
def rescale (ts : List (ReplicaSet × Int)) (rss : Api ReplicaSet) : Api ReplicaSet :=
  ts.foldl (fun rss t => scale t.1 t.2 rss) rss

theorem scale_self (rs : ReplicaSet) (rss : Api ReplicaSet) :
    scale rs rs.spec.replicas rss = rss := if_pos rfl

theorem rescale_asIs (l : List ReplicaSet) (rss : Api ReplicaSet) :
    rescale (l.map ReplicaSet.asIs) rss = rss := by
  induction l with
  | nil => rfl
  | cons rs l ih =>
    rw [List.map_cons, rescale, List.foldl_cons]
    exact (congrArg (rescale (l.map ReplicaSet.asIs)) (scale_self rs rss)).trans ih

theorem list_scale {rs : ReplicaSet} {rest : List ReplicaSet} (h : rss.list.Perm (rs :: rest))
    (n : Int) : (scale rs n rss).list.Perm (rs.scaled n :: rest) := by
  rw [scale]
  split
  next hsame =>
    subst hsame
    exact h
  next =>
    rw [Api.mem_list.mp (h.mem_iff.mpr List.mem_cons_self)]
    exact Api.list_update_perm h rfl

theorem scale_seq (rs : ReplicaSet) (n : Int) (rss : Api ReplicaSet) :
    (scale rs n rss).seq = rss.seq ∧ (scale rs n rss).kind = rss.kind := by
  rw [scale]
  split
  · exact ⟨rfl, rfl⟩
  · split <;> exact ⟨rfl, rfl⟩

theorem list_rescale (ts : List (ReplicaSet × Int)) {rss : Api ReplicaSet} (rest : List ReplicaSet)
    (h : rss.list.Perm (ts.map Prod.fst ++ rest)) :
    (rescale ts rss).list.Perm (ts.map (fun t => t.1.scaled t.2) ++ rest) := by
  induction ts generalizing rss rest with
  | nil => exact h
  | cons t ts ih =>
    have hhead : (scale t.1 t.2 rss).list.Perm (ts.map Prod.fst ++ t.1.scaled t.2 :: rest) :=
      (list_scale h t.2).trans List.perm_middle.symm
    exact (ih _ hhead).trans List.perm_middle

theorem rescale_seq (ts : List (ReplicaSet × Int)) (rss : Api ReplicaSet) :
    (rescale ts rss).seq = rss.seq ∧ (rescale ts rss).kind = rss.kind := by
  induction ts generalizing rss with
  | nil => exact ⟨rfl, rfl⟩
  | cons t ts ih =>
    obtain ⟨hseq, hkind⟩ := ih (scale t.1 t.2 rss)
    obtain ⟨hseq', hkind'⟩ := scale_seq t.1 t.2 rss
    exact ⟨hseq.trans hseq', hkind.trans hkind'⟩

theorem rescales_rescale (h : rss.list.Perm (ts.map Prod.fst)) :
    Rescales rss (rescale ts rss) ts where
  before := h
  after := by simpa using list_rescale ts [] (by simpa using h)
  seq_eq := (rescale_seq ts rss).1
  kind_eq := (rescale_seq ts rss).2

theorem rescales_scale {newRs : ReplicaSet} {oldRs : List ReplicaSet}
    (h : rss.list.Perm (newRs :: oldRs)) (n : Int) :
    Rescales rss (scale newRs n rss) ((newRs, n) :: oldRs.map ReplicaSet.asIs) := by
  have hrescale : scale newRs n rss = rescale ((newRs, n) :: oldRs.map ReplicaSet.asIs) rss :=
    (rescale_asIs oldRs _).symm
  rw [hrescale]
  refine rescales_rescale ?_
  rw [List.map_cons, ReplicaSet.map_fst_asIs]
  exact h

variable (d : Deployment) {newRs : ReplicaSet} {oldRs : List ReplicaSet}

theorem reconcileRecreate_rescales (h : rss.list.Perm (newRs :: oldRs)) :
    Rescales rss (d.reconcileRecreate newRs oldRs rss)
      (if 0 < sumI32 (oldRs.map (·.status.replicas)) then
        (newRs, 0) :: oldRs.map fun rs => (rs, 0)
      else (newRs, d.spec.replicas) :: oldRs.map ReplicaSet.asIs) := by
  rw [reconcileRecreate]
  split
  · have hrescale : scale newRs 0 (oldRs.foldl (fun rss rs => scale rs 0 rss) rss) =
        rescale (oldRs.map (fun rs => (rs, (0 : Int))) ++ [(newRs, 0)]) rss := by
      rw [rescale, List.foldl_append, List.foldl_map]
      rfl
    have hperm : (oldRs.map (fun rs => (rs, (0 : Int))) ++ [(newRs, 0)]).Perm
        ((newRs, 0) :: oldRs.map fun rs => (rs, 0)) := List.perm_append_singleton _ _
    have hfst : ((newRs, (0 : Int)) :: oldRs.map fun rs => (rs, (0 : Int))).map Prod.fst =
        newRs :: oldRs := by
      rw [List.map_cons, List.map_map]
      exact congrArg (newRs :: ·) (List.map_id _)
    rw [hrescale]
    refine (rescales_rescale ?_).perm hperm
    exact (h.trans (List.Perm.of_eq hfst.symm)).trans (hperm.map _).symm
  · exact rescales_scale h d.spec.replicas

/-! ## Rolling update -/

/-- The replicas that are left to the replica sets by `cutOld`. -/
def cuts : List ReplicaSet → Int → List (ReplicaSet × Int)
  | [], _ => []
  | rs :: olds, budget =>
    if budget ≤ 0 then (rs :: olds).map ReplicaSet.asIs
    else
      let dec := min rs.spec.replicas budget
      if 0 < dec then
        (rs, I32.wrap (rs.spec.replicas - dec)) :: cuts olds (I32.wrap (budget - dec))
      else rs.asIs :: cuts olds budget

theorem cutOld_eq (olds : List ReplicaSet) (budget : Int) (rss : Api ReplicaSet) :
    cutOld olds budget rss = rescale (cuts olds budget) rss := by
  induction olds generalizing budget rss with
  | nil => rfl
  | cons rs olds ih =>
    rw [cutOld, cuts]
    split
    · exact (rescale_asIs _ rss).symm
    · dsimp only
      split
      · exact ih _ _
      · rw [ih, rescale, rescale, List.foldl_cons]
        exact congrArg (rescale (cuts olds budget)) (scale_self rs rss).symm

theorem map_fst_cuts (olds : List ReplicaSet) (budget : Int) :
    (cuts olds budget).map Prod.fst = olds := by
  induction olds generalizing budget with
  | nil => rfl
  | cons rs olds ih =>
    rw [cuts]
    split
    · exact ReplicaSet.map_fst_asIs _
    · dsimp only
      split
      · exact congrArg (rs :: ·) (ih _)
      · exact congrArg (rs :: ·) (ih _)

/-- The replicas that are left to the old replica sets. -/
def oldTargets (maxUnavailable maxSurge : Int) (newRs : ReplicaSet) (oldRs : List ReplicaSet) :
    List (ReplicaSet × Int) :=
  let budget := d.cutBudget maxUnavailable (d.newReplicas maxSurge newRs oldRs) newRs oldRs
  let olds := oldRs.insertionSort fun a b => b.spec.replicas ≤ a.spec.replicas
  if 0 < budget then cuts olds budget else olds.map ReplicaSet.asIs

theorem map_fst_oldTargets (maxUnavailable maxSurge : Int) (newRs : ReplicaSet)
    (oldRs : List ReplicaSet) :
    ((d.oldTargets maxUnavailable maxSurge newRs oldRs).map Prod.fst).Perm oldRs := by
  rw [oldTargets]
  split
  · rw [map_fst_cuts]
    exact List.perm_insertionSort _ _
  · rw [ReplicaSet.map_fst_asIs]
    exact List.perm_insertionSort _ _

theorem reconcileRolling_eq (newRs : ReplicaSet) (oldRs : List ReplicaSet)
    (maxUnavailable maxSurge : Int) (rss : Api ReplicaSet) :
    d.reconcileRolling newRs oldRs maxUnavailable maxSurge rss =
      rescale (if sumI32 (oldRs.map (·.spec.replicas)) = 0 then
          (newRs, d.spec.replicas) :: oldRs.map ReplicaSet.asIs
        else (newRs, d.newReplicas maxSurge newRs oldRs) ::
          d.oldTargets maxUnavailable maxSurge newRs oldRs) rss := by
  rw [reconcileRolling]
  split
  · exact (rescale_asIs oldRs _).symm
  · rw [rescale, List.foldl_cons, oldTargets]
    dsimp only
    split
    · exact cutOld_eq _ _ _
    · exact (rescale_asIs _ _).symm

theorem map_fst_rollingTargets (maxUnavailable maxSurge : Int) (newRs : ReplicaSet)
    (oldRs : List ReplicaSet) :
    ((if sumI32 (oldRs.map (·.spec.replicas)) = 0 then
        (newRs, d.spec.replicas) :: oldRs.map ReplicaSet.asIs
      else (newRs, d.newReplicas maxSurge newRs oldRs) ::
        d.oldTargets maxUnavailable maxSurge newRs oldRs).map Prod.fst).Perm (newRs :: oldRs) := by
  split
  · rw [List.map_cons, ReplicaSet.map_fst_asIs]
  · exact (d.map_fst_oldTargets maxUnavailable maxSurge newRs oldRs).cons newRs

theorem reconcileRolling_rescales (maxUnavailable maxSurge : Int)
    (h : rss.list.Perm (newRs :: oldRs)) :
    Rescales rss (d.reconcileRolling newRs oldRs maxUnavailable maxSurge rss)
      (if sumI32 (oldRs.map (·.spec.replicas)) = 0 then
        (newRs, d.spec.replicas) :: oldRs.map ReplicaSet.asIs
      else (newRs, d.newReplicas maxSurge newRs oldRs) ::
        d.oldTargets maxUnavailable maxSurge newRs oldRs) := by
  have hfst := d.map_fst_rollingTargets maxUnavailable maxSurge newRs oldRs
  rw [reconcileRolling_eq]
  exact rescales_rescale (h.trans hfst.symm)

/-! ## Either strategy -/

/-- The new numbers of replicas. -/
def targets (newRs : ReplicaSet) (oldRs : List ReplicaSet) : List (ReplicaSet × Int) :=
  match d.spec.strategy with
  | .recreate =>
    if 0 < sumI32 (oldRs.map (·.status.replicas)) then (newRs, 0) :: oldRs.map fun rs => (rs, 0)
    else (newRs, d.spec.replicas) :: oldRs.map ReplicaSet.asIs
  | .rollingUpdate maxUnavailable maxSurge =>
    if sumI32 (oldRs.map (·.spec.replicas)) = 0 then
      (newRs, d.spec.replicas) :: oldRs.map ReplicaSet.asIs
    else (newRs, d.newReplicas maxSurge newRs oldRs) ::
      d.oldTargets maxUnavailable maxSurge newRs oldRs

/-- The replica set of the current template, which is made if there is none, and the store with
it. -/
def prepared (rss : Api ReplicaSet) : ReplicaSet × Api ReplicaSet :=
  let hash := templateHash d.spec.template
  match (rss.listOwnedBy d.deployMeta.uid).find? (isNew hash) with
  | some rs => (rs, rss)
  | none => (rss.stamped (d.newReplicaSet hash), rss.create (d.newReplicaSet hash))

/-- The replica sets of other templates. -/
def oldSets (rss : Api ReplicaSet) : List ReplicaSet :=
  (rss.listOwnedBy d.deployMeta.uid).filter fun rs => !isNew (templateHash d.spec.template) rs

theorem reconcileReplicaSets_rescales
    (h : (d.prepared rss).2.list.Perm ((d.prepared rss).1 :: d.oldSets rss)) :
    Rescales (d.prepared rss).2 (d.reconcileReplicaSets rss)
      (d.targets (d.prepared rss).1 (d.oldSets rss)) := by
  have heq : d.reconcileReplicaSets rss = match d.spec.strategy with
      | .recreate => d.reconcileRecreate (d.prepared rss).1 (d.oldSets rss) (d.prepared rss).2
      | .rollingUpdate maxUnavailable maxSurge => d.reconcileRolling (d.prepared rss).1
          (d.oldSets rss) maxUnavailable maxSurge (d.prepared rss).2 := by
    rw [reconcileReplicaSets, prepared]
    dsimp only
    cases (rss.listOwnedBy d.deployMeta.uid).find? (isNew (templateHash d.spec.template)) <;> rfl
  rw [heq, targets]
  cases d.spec.strategy with
  | recreate => exact d.reconcileRecreate_rescales h
  | rollingUpdate maxUnavailable maxSurge =>
    exact d.reconcileRolling_rescales maxUnavailable maxSurge h

/-! ## Ranges -/

/-- Can the number be wanted? -/
def InRange (n : Int) : Prop := 0 ≤ n ∧ n ≤ I32.maxValue

theorem inRange_cuts (olds : List ReplicaSet) (budget : Int) (hbudget : budget ≤ I32.maxValue)
    (h : ∀ rs ∈ olds, InRange rs.spec.replicas) : ∀ t ∈ cuts olds budget, InRange t.2 := by
  induction olds generalizing budget with
  | nil => simp [cuts]
  | cons rs olds ih =>
    have hrs := h rs List.mem_cons_self
    have htail := fun rs' hrs' => h rs' (List.mem_cons_of_mem rs hrs')
    rw [cuts]
    split
    · intro t ht
      obtain ⟨rs', hrs', rfl⟩ := List.mem_map.mp ht
      exact h rs' hrs'
    · dsimp only
      unfold InRange I32.maxValue at *
      split
      · intro t ht
        rcases List.mem_cons.mp ht with rfl | ht
        · rw [I32.wrap_eq (by omega) (by unfold I32.maxValue; omega)]
          omega
        · rw [I32.wrap_eq (by omega) (by unfold I32.maxValue; omega)] at ht
          exact ih _ (by omega) htail t ht
      · intro t ht
        rcases List.mem_cons.mp ht with rfl | ht
        · exact hrs
        · exact ih _ hbudget htail t ht

theorem inRange_asIs {l : List ReplicaSet} (h : ∀ rs ∈ l, InRange rs.spec.replicas) :
    ∀ t ∈ l.map ReplicaSet.asIs, InRange t.2 := by
  intro t ht
  obtain ⟨rs, hrs, rfl⟩ := List.mem_map.mp ht
  exact h rs hrs

theorem inRange_targets (hd : InRange d.spec.replicas) (hnew : InRange newRs.spec.replicas)
    (hold : ∀ rs ∈ oldRs, InRange rs.spec.replicas) : ∀ t ∈ d.targets newRs oldRs, InRange t.2 := by
  have hsteady : ∀ t ∈ (newRs, d.spec.replicas) :: oldRs.map ReplicaSet.asIs, InRange t.2 :=
    List.forall_mem_cons.mpr ⟨hd, inRange_asIs hold⟩
  rw [targets]
  cases d.spec.strategy with
  | recreate =>
    dsimp only
    split
    · have hzero : InRange 0 := ⟨le_rfl, by decide⟩
      refine List.forall_mem_cons.mpr ⟨hzero, fun t ht => ?_⟩
      obtain ⟨rs, -, rfl⟩ := List.mem_map.mp ht
      exact hzero
    · exact hsteady
  | rollingUpdate maxUnavailable maxSurge =>
    dsimp only
    split
    · exact hsteady
    · have hsorted : ∀ rs ∈ oldRs.insertionSort fun a b => b.spec.replicas ≤ a.spec.replicas,
          InRange rs.spec.replicas := fun rs hrs => hold rs ((List.perm_insertionSort _ _).subset hrs)
      refine List.forall_mem_cons.mpr ⟨?_, ?_⟩
      · rw [newReplicas]
        dsimp only
        split
        · unfold InRange I32.wrap I32.maxValue at *
          omega
        · exact hnew
      · rw [oldTargets]
        split
        · refine inRange_cuts _ _ ?_ hsorted
          unfold cutBudget I32.wrap I32.maxValue
          dsimp only
          omega
        · exact inRange_asIs hsorted

/-! ## Progress of a rolling update -/

/-- The replicas that the replica sets want together. -/
def wanted (l : List ReplicaSet) : Int := (l.map (·.spec.replicas)).sum

theorem wanted_nonneg {l : List ReplicaSet} (h : ∀ rs ∈ l, InRange rs.spec.replicas) :
    0 ≤ wanted l := by
  refine List.sum_nonneg fun n hn => ?_
  obtain ⟨rs, hrs, rfl⟩ := List.mem_map.mp hn
  exact (h rs hrs).1

theorem sum_asIs (l : List ReplicaSet) : ((l.map ReplicaSet.asIs).map Prod.snd).sum = wanted l := by
  rw [List.map_map]
  rfl

theorem sumI32_wanted {l : List ReplicaSet} (h : ∀ rs ∈ l, InRange rs.spec.replicas)
    (hfits : wanted l ≤ I32.maxValue) : sumI32 (l.map (·.spec.replicas)) = wanted l :=
  I32.wrap_eq ((by decide : (-2147483648 : Int) ≤ 0).trans (wanted_nonneg h)) hfits

theorem newReplicas_mem (maxSurge : Int) (hd : InRange d.spec.replicas)
    (hnew : InRange newRs.spec.replicas) (oldRs : List ReplicaSet) :
    newRs.spec.replicas ≤ d.newReplicas maxSurge newRs oldRs ∧
      d.newReplicas maxSurge newRs oldRs ≤ max newRs.spec.replicas d.spec.replicas := by
  rw [newReplicas]
  dsimp only
  unfold InRange I32.wrap I32.maxValue at *
  split <;> omega

theorem newReplicas_fits {maxSurge : Int} (hd : InRange d.spec.replicas)
    (hnew : InRange newRs.spec.replicas) (hold : ∀ rs ∈ oldRs, InRange rs.spec.replicas)
    (hsurge : 0 ≤ maxSurge) (hfits : wanted oldRs + newRs.spec.replicas ≤ I32.maxValue)
    (hmax : d.spec.replicas + maxSurge ≤ I32.maxValue) :
    wanted oldRs + d.newReplicas maxSurge newRs oldRs ≤
        max (wanted oldRs + newRs.spec.replicas) (d.spec.replicas + maxSurge) ∧
      (newRs.spec.replicas < d.spec.replicas →
        wanted oldRs + newRs.spec.replicas < d.spec.replicas + maxSurge →
        newRs.spec.replicas < d.newReplicas maxSurge newRs oldRs) := by
  have hnonneg := wanted_nonneg hold
  have hle : wanted oldRs ≤ I32.maxValue := by
    have := hnew.1
    omega
  rw [newReplicas, sumI32_wanted hold hle]
  dsimp only
  unfold InRange I32.wrap I32.maxValue at *
  split <;> omega

theorem sum_cuts_le {olds : List ReplicaSet} {budget : Int} (hbudget : budget ≤ I32.maxValue)
    (h : ∀ rs ∈ olds, InRange rs.spec.replicas) :
    ((cuts olds budget).map Prod.snd).sum ≤ wanted olds ∧
      (0 < budget → 0 < wanted olds → ((cuts olds budget).map Prod.snd).sum < wanted olds) := by
  induction olds generalizing budget with
  | nil => exact ⟨le_rfl, fun _ hpos => absurd hpos (lt_irrefl 0)⟩
  | cons rs olds ih =>
    have hrs := h rs List.mem_cons_self
    have htail := fun rs' hrs' => h rs' (List.mem_cons_of_mem rs hrs')
    have hwanted : wanted (rs :: olds) = rs.spec.replicas + wanted olds := List.sum_cons
    rw [cuts]
    split
    next hzero =>
      rw [sum_asIs]
      exact ⟨le_rfl, fun hpos => absurd hpos hzero.not_gt⟩
    next hpos =>
      dsimp only
      unfold InRange at hrs
      split
      next hdec =>
        have hcut : I32.wrap (rs.spec.replicas - min rs.spec.replicas budget) =
            rs.spec.replicas - min rs.spec.replicas budget :=
          I32.wrap_eq (by omega) (by unfold I32.maxValue at *; omega)
        have hrest : I32.wrap (budget - min rs.spec.replicas budget) =
            budget - min rs.spec.replicas budget :=
          I32.wrap_eq (by omega) (by unfold I32.maxValue at *; omega)
        rw [hcut, hrest, List.map_cons, List.sum_cons, hwanted]
        have hrange : budget - min rs.spec.replicas budget ≤ I32.maxValue := by
          unfold I32.maxValue at *
          omega
        obtain ⟨hle, -⟩ := ih hrange htail
        dsimp only
        constructor
        · omega
        · omega
      next hdec =>
        obtain ⟨hle, hlt⟩ := ih hbudget htail
        rw [List.map_cons, List.sum_cons, hwanted, ReplicaSet.asIs]
        dsimp only
        constructor
        · omega
        · intro hbudget hwant
          have := hlt hbudget (by omega)
          omega

theorem sum_oldTargets (maxUnavailable maxSurge : Int) (newRs : ReplicaSet)
    (hold : ∀ rs ∈ oldRs, InRange rs.spec.replicas) :
    ((d.oldTargets maxUnavailable maxSurge newRs oldRs).map Prod.snd).sum ≤ wanted oldRs ∧
      (0 < d.cutBudget maxUnavailable (d.newReplicas maxSurge newRs oldRs) newRs oldRs →
        0 < wanted oldRs →
        ((d.oldTargets maxUnavailable maxSurge newRs oldRs).map Prod.snd).sum < wanted oldRs) := by
  let olds := oldRs.insertionSort fun a b => b.spec.replicas ≤ a.spec.replicas
  have hperm : olds.Perm oldRs := List.perm_insertionSort _ _
  have hwanted : wanted olds = wanted oldRs := (hperm.map _).sum_eq
  have hrange : ∀ rs ∈ olds, InRange rs.spec.replicas := fun rs hrs => hold rs (hperm.subset hrs)
  have hbudget : d.cutBudget maxUnavailable (d.newReplicas maxSurge newRs oldRs) newRs oldRs ≤
      I32.maxValue := by
    unfold cutBudget I32.wrap I32.maxValue
    dsimp only
    omega
  rw [oldTargets]
  split
  · rw [← hwanted]
    exact sum_cuts_le hbudget hrange
  next hzero =>
    rw [sum_asIs]
    exact ⟨hwanted.le, fun hpos => absurd hpos hzero⟩

theorem cutBudget_pos {maxUnavailable maxSurge : Int} (hd : InRange d.spec.replicas)
    (hnew : InRange newRs.spec.replicas) (hold : ∀ rs ∈ oldRs, InRange rs.spec.replicas)
    (hunavailable : 0 ≤ maxUnavailable) (hsurge : 0 ≤ maxSurge)
    (hboth : maxUnavailable ≠ 0 ∨ maxSurge ≠ 0)
    (hrange : maxUnavailable ≤ I32.maxValue)
    (hfits : wanted oldRs + newRs.spec.replicas ≤ I32.maxValue)
    (hmax : d.spec.replicas + maxSurge ≤ I32.maxValue)
    (hsynced : ∀ rs ∈ newRs :: oldRs, rs.status.availableReplicas = rs.spec.replicas)
    (hpos : 0 < wanted oldRs)
    (hsteady : d.newReplicas maxSurge newRs oldRs = newRs.spec.replicas) :
    0 < d.cutBudget maxUnavailable (d.newReplicas maxSurge newRs oldRs) newRs oldRs := by
  have hle : wanted oldRs ≤ I32.maxValue := by
    have := hnew.1
    omega
  have hroom := (d.newReplicas_fits hd hnew hold hsurge hfits hmax).2
  have havailable : oldRs.map (·.status.availableReplicas) = oldRs.map (·.spec.replicas) :=
    List.map_congr_left fun rs hrs => hsynced rs (List.mem_cons_of_mem _ hrs)
  rw [hsteady] at hroom ⊢
  rw [cutBudget, havailable, sumI32_wanted hold hle, hsynced newRs List.mem_cons_self]
  unfold InRange I32.wrap I32.maxValue at *
  omega

end Deployment

end CaveHome.ControllerManager
