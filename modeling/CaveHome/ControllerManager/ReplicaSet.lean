import CaveHome.ControllerManager.Apis
import Mathlib.Data.List.Sort

/-!
# The replica set controller

A reconcile adopts the pods that match and have no controller, releases those that do not match any
more, and then makes or deletes pods until there are as many active ones as the replica set wants.
-/

namespace CaveHome.ControllerManager

/-- Make so many pods, with the next values of a counter. -/
def createSeries (newPod : Nat → Pod) : Nat → Nat → Api Pod → Nat × Api Pod
  | 0, seq, pods => (seq, pods)
  | count + 1, seq, pods => createSeries newPod count (seq + 1) (pods.create (newPod (seq + 1)))

namespace ReplicaSet

/-- The reference of the pods to the replica set. -/
def reference (rs : ReplicaSet) : OwnerReference :=
  (OwnerReference.to "ReplicaSet" rs.rsMeta.name rs.rsMeta.uid).controlling.blocking

def hasController (p : Pod) : Bool := p.podMeta.ownerReferences.any (·.controller)

def adopted (rs : ReplicaSet) (p : Pod) : Pod :=
  { p with podMeta :=
      { p.podMeta with ownerReferences := p.podMeta.ownerReferences ++ [rs.reference] } }

def released (rs : ReplicaSet) (p : Pod) : Pod :=
  { p with podMeta :=
      { p.podMeta with
        ownerReferences := p.podMeta.ownerReferences.filter fun r =>
          !(r.controller && r.uid == rs.rsMeta.uid) } }

def claim (rs : ReplicaSet) (pods : Api Pod) : Api Pod :=
  (pods.listMatching rs.rsMeta.namespaceName rs.spec.selector).foldl (fun pods p =>
    if hasController p then pods else pods.update (rs.adopted p)) pods

def release (rs : ReplicaSet) (pods : Api Pod) : Api Pod :=
  (pods.listOwnedBy rs.rsMeta.uid).foldl (fun pods p =>
    if selectorMatches rs.spec.selector p.podMeta.labels then pods
    else pods.update (rs.released p)) pods

def claimAndRelease (rs : ReplicaSet) (pods : Api Pod) : Api Pod := rs.release (rs.claim pods)

def podName (rs : ReplicaSet) (seq : Nat) : String := rs.rsMeta.name ++ "-" ++ base36 seq

/-- The pod that is made for a value of the counter. -/
def newPod (rs : ReplicaSet) (seq : Nat) : Pod where
  podMeta :=
    { name := rs.podName seq, namespaceName := rs.rsMeta.namespaceName, uid := "",
      labels := rs.spec.template.labels, ownerReferences := [rs.reference] }

def createPods (rs : ReplicaSet) (count seq : Nat) (pods : Api Pod) : Nat × Api Pod :=
  createSeries rs.newPod count seq pods

def phaseRank : PodPhase → Nat
  | .unknown => 1
  | .running => 2
  | .pending | .succeeded | .failed => 0

/-- Is the first pod deleted rather than the second?  A weaker phase goes first, then a pod that is
not ready, then a newer one. -/
def VictimBefore (p p' : Pod) : Prop :=
  phaseRank p.status.phase < phaseRank p'.status.phase ∨
    (phaseRank p.status.phase = phaseRank p'.status.phase ∧
      (p.status.ready.toNat < p'.status.ready.toNat ∨
        (p.status.ready.toNat = p'.status.ready.toNat ∧ p'.podMeta.uid ≤ p.podMeta.uid)))

instance : DecidableRel VictimBefore := fun _ _ => instDecidableOr

def deleteSurplus (active : List Pod) (count : Nat) (pods : Api Pod) : Api Pod :=
  ((active.insertionSort VictimBefore).take count).foldl (fun pods p => pods.delete (key p)) pods

def activeOwned (pods : Api Pod) (uid : String) : List Pod :=
  (pods.listOwnedBy uid).filter (·.isActive)

def writeStatus (rs : ReplicaSet) (c : Cluster) : Cluster :=
  let active := activeOwned c.pods rs.rsMeta.uid
  let replicas := I32.clamp active.length
  let ready := I32.clamp (active.countP (·.status.ready))
  match c.replicasets.get (key rs) with
  | none => c
  | some current =>
    let current := { current with status := ⟨replicas, ready, ready⟩ }
    { c with replicasets := c.replicasets.update current }

/-- Bring the active pods to the wanted number. -/
def scalePods (rs : ReplicaSet) (podSeq : Nat) (pods : Api Pod) : Nat × Api Pod :=
  let active := activeOwned pods rs.rsMeta.uid
  let diff := I32.wrap (I32.clamp active.length - rs.spec.replicas)
  if diff < 0 then rs.createPods diff.natAbs podSeq pods
  else if 0 < diff then (podSeq, deleteSurplus active diff.natAbs pods)
  else (podSeq, pods)

/-- Reconcile the replica set with the key.  The counter of the controller is passed along. -/
def reconcile (k : String) (podSeq : Nat) (c : Cluster) : Nat × Cluster :=
  match c.replicasets.get k with
  | none => (podSeq, c)
  | some rs =>
    if rs.rsMeta.isTerminating then (podSeq, c)
    else
      let (podSeq, pods) := rs.scalePods podSeq (rs.claimAndRelease c.pods)
      (podSeq, rs.writeStatus { c with pods })

end ReplicaSet

/-! ## Jobs -/

namespace Job

def podName (job : Job) (seq : Nat) : String := job.jobMeta.name ++ "-" ++ toString seq

def newPod (job : Job) (seq : Nat) : Pod where
  podMeta :=
    { name := job.podName seq, namespaceName := job.jobMeta.namespaceName, uid := "",
      labels := job.spec.template.labels,
      ownerReferences :=
        [(OwnerReference.to "Job" job.jobMeta.name job.jobMeta.uid).controlling.blocking] }

def createPods (job : Job) (count seq : Nat) (pods : Api Pod) : Nat × Api Pod :=
  createSeries job.newPod count seq pods

def countPhase (pods : List Pod) (phase : PodPhase) : Int :=
  I32.clamp (pods.countP fun p => p.status.phase == phase)

def deleteActive (active : List Pod) (pods : Api Pod) : Api Pod :=
  active.foldl (fun pods p => pods.delete (key p)) pods

def i64From (now : Nat) : Int := min (now : Int) I64.maxValue

/-- The number of pods that are still to be made. -/
def missing (job : Job) (succeeded active : Int) : Int :=
  let want := min job.spec.parallelism (I32.wrap (job.spec.completions - succeeded))
  max (I32.wrap (want - active)) 0

/-- Reconcile the job with the key. -/
def reconcile (k : String) (now podSeq : Nat) (c : Cluster) : Nat × Cluster :=
  match c.jobs.get k with
  | none => (podSeq, c)
  | some job =>
    if job.jobMeta.isTerminating then (podSeq, c)
    else
      let owned := c.pods.listOwnedBy job.jobMeta.uid
      let succeeded := countPhase owned .succeeded
      let failed := countPhase owned .failed
      let active := owned.filter (·.isActive)
      let activeCount := I32.clamp active.length
      if job.status.complete || job.status.failedFinal then (podSeq, c)
      else
        let status := { job.status with succeeded, failed }
        let (podSeq, pods, status) : Nat × Api Pod × JobStatus :=
          if job.spec.completions ≤ succeeded then
            (podSeq, deleteActive active c.pods,
              { status with active := 0, complete := true, finishedAt := some (i64From now) })
          else if job.spec.backoffLimit < failed then
            (podSeq, deleteActive active c.pods,
              { status with active := 0, failedFinal := true, finishedAt := some (i64From now) })
          else
            let toCreate := job.missing succeeded activeCount
            let (podSeq, pods) := job.createPods toCreate.toNat podSeq c.pods
            (podSeq, pods, { status with active := I32.wrap (activeCount + toCreate) })
        let jobs := match c.jobs.get k with
          | none => c.jobs
          | some current => c.jobs.update { current with status }
        (podSeq, { c with pods, jobs })

end Job

end CaveHome.ControllerManager

/-!
## What a reconcile does to the pods

Adoption and release change each pod by itself (`claimed`).  Then pods are made under the next
names of the counter, or active ones are deleted, and the number of active pods that are owned
changes by as many as that, provided that the names are free.
-/

namespace CaveHome.ControllerManager

/-! ## Names -/

theorem keyOf_injective (namespaceName : String) : Function.Injective (keyOf namespaceName) := by
  intro a b h
  rw [keyOf, keyOf] at h
  split at h
  · exact h
  · exact (String.append_right_inj _).mp h

def undigit36 (c : Char) : Nat := if c.toNat < 58 then c.toNat - 48 else c.toNat - 87

theorem undigit36_digit36 {d : Nat} (h : d < 36) : undigit36 (digit36 d) = d := by
  have hall : ∀ d < 36, undigit36 (digit36 d) = d := by decide
  exact hall d h

theorem ofDigits_digits36 (n : Nat) : Nat.ofDigits 36 ((digits36 n).map undigit36) = n := by
  rw [digits36]
  split
  next h => exact h ▸ rfl
  next h =>
    have hdigits : ((Nat.digits 36 n).map digit36).map undigit36 = Nat.digits 36 n := by
      rw [List.map_map]
      refine (List.map_congr_left fun d hd => ?_).trans (List.map_id _)
      exact undigit36_digit36 (Nat.digits_lt_base (by decide) hd)
    rw [hdigits, Nat.ofDigits_digits]

theorem base36_injective : Function.Injective base36 := by
  intro m n h
  have hdigits : digits36 m = digits36 n :=
    List.reverse_injective (String.ofList_injective h)
  rw [← ofDigits_digits36 m, hdigits, ofDigits_digits36]

/-! ## Adoption and release -/

namespace ReplicaSet

variable (rs : ReplicaSet)

/-- The pod after the adoption of matching pods without a controller. -/
def adoptedIf (p : Pod) : Pod :=
  if rs.spec.selector ≠ [] ∧ p.podMeta.namespaceName = rs.rsMeta.namespaceName ∧
      selectorMatches rs.spec.selector p.podMeta.labels ∧ hasController p = false then rs.adopted p
  else p

/-- The pod after the release of owned pods that do not match. -/
def releasedIf (p : Pod) : Pod :=
  if Api.ownedBy rs.rsMeta.uid p ∧ selectorMatches rs.spec.selector p.podMeta.labels = false then
    rs.released p
  else p

/-- The pod after both. -/
def claimed (p : Pod) : Pod := rs.releasedIf (rs.adoptedIf p)

theorem key_adopted (p : Pod) : key (rs.adopted p) = key p := rfl

theorem key_released (p : Pod) : key (rs.released p) = key p := rfl

theorem get_claim (pods : Api Pod) (k : String) :
    (rs.claim pods).get k = (pods.get k).map rs.adoptedIf := by
  obtain ⟨hin, hout⟩ := Api.get_foldl_update
    (pods.listMatching rs.rsMeta.namespaceName rs.spec.selector) hasController rs.adopted
    rs.key_adopted pods (fun p hp => (Api.mem_listMatching.mp hp).1)
    (pods.nodup_keys_listMatching _ _)
  by_cases hk : k ∈ (pods.listMatching rs.rsMeta.namespaceName rs.spec.selector).map key
  · obtain ⟨p, hp, rfl⟩ := List.mem_map.mp hk
    obtain ⟨hget, hne, hns, hmatch⟩ := Api.mem_listMatching.mp hp
    refine (hin p hp).trans ?_
    rw [hget, Option.map_some, adoptedIf]
    refine congrArg some ?_
    change p.podMeta.namespaceName = _ at hns
    change selectorMatches _ p.podMeta.labels = true at hmatch
    cases hasController p <;> simp [hne, hns, hmatch]
  · refine (hout k hk).trans ?_
    cases hget : pods.get k with
    | none => rfl
    | some p =>
      have hkey := Api.key_of_get hget
      rw [Option.map_some, adoptedIf, if_neg]
      rintro ⟨hne, hns, hmatch, -⟩
      have hp : p ∈ pods.listMatching rs.rsMeta.namespaceName rs.spec.selector :=
        Api.mem_listMatching.mpr ⟨hkey ▸ hget, hne, hns, hmatch⟩
      exact hk (hkey ▸ List.mem_map_of_mem hp)

theorem get_release (pods : Api Pod) (k : String) :
    (rs.release pods).get k = (pods.get k).map rs.releasedIf := by
  obtain ⟨hin, hout⟩ := Api.get_foldl_update (pods.listOwnedBy rs.rsMeta.uid)
    (fun p => selectorMatches rs.spec.selector p.podMeta.labels) rs.released rs.key_released pods
    (fun p hp => (Api.mem_listOwnedBy.mp hp).1) (pods.nodup_keys_listOwnedBy _)
  by_cases hk : k ∈ (pods.listOwnedBy rs.rsMeta.uid).map key
  · obtain ⟨p, hp, rfl⟩ := List.mem_map.mp hk
    obtain ⟨hget, howned⟩ := Api.mem_listOwnedBy.mp hp
    refine (hin p hp).trans ?_
    rw [hget, Option.map_some, releasedIf]
    refine congrArg some ?_
    cases selectorMatches rs.spec.selector p.podMeta.labels <;> simp [howned]
  · refine (hout k hk).trans ?_
    cases hget : pods.get k with
    | none => rfl
    | some p =>
      have hkey := Api.key_of_get hget
      rw [Option.map_some, releasedIf, if_neg]
      rintro ⟨howned, -⟩
      have hp : p ∈ pods.listOwnedBy rs.rsMeta.uid := Api.mem_listOwnedBy.mpr ⟨hkey ▸ hget, howned⟩
      exact hk (hkey ▸ List.mem_map_of_mem hp)

theorem get_claimAndRelease (pods : Api Pod) (k : String) :
    (rs.claimAndRelease pods).get k = (pods.get k).map rs.claimed := by
  rw [claimAndRelease, get_release, get_claim, Option.map_map]
  rfl

end ReplicaSet

/-! ## Making pods -/

section CreateSeries

variable (newPod : Nat → Pod)

/-- Every pod that is made finds its key free. -/
def CreatesFresh : Nat → Nat → Api Pod → Prop
  | 0, _, _ => True
  | count + 1, seq, pods => pods.get (key (newPod (seq + 1))) = none ∧
      CreatesFresh count (seq + 1) (pods.create (newPod (seq + 1)))

variable {newPod}

theorem createSeries_seq (count seq : Nat) (pods : Api Pod) :
    (createSeries newPod count seq pods).1 = seq + count := by
  induction count generalizing seq pods with
  | zero => rfl
  | succ count ih =>
    rw [createSeries, ih]
    omega

theorem get_createSeries {count seq : Nat} {pods : Api Pod} {k : String} {p : Pod}
    (h : (createSeries newPod count seq pods).2.get k = some p) :
    pods.get k = some p ∨ ∃ i a, seq < i ∧ i ≤ seq + count ∧ k = key (newPod i) ∧
      p = Api.stamped a (newPod i) := by
  induction count generalizing seq pods with
  | zero => exact Or.inl h
  | succ count ih =>
    rcases ih h with h | ⟨i, a, hlo, hhi, hk, hp⟩
    · rw [Api.get_create] at h
      split at h
      next hk =>
        exact Or.inr ⟨seq + 1, pods, by omega, by omega, hk, (Option.some.inj h).symm⟩
      next => exact Or.inl h
    · exact Or.inr ⟨i, a, by omega, by omega, hk, hp⟩

theorem get_createSeries_of_ne {count seq : Nat} {pods : Api Pod} {k : String}
    (h : ∀ i, seq < i → i ≤ seq + count → k ≠ key (newPod i)) :
    (createSeries newPod count seq pods).2.get k = pods.get k := by
  induction count generalizing seq pods with
  | zero => rfl
  | succ count ih =>
    rw [createSeries, ih fun i hlo hhi => h i (by omega) (by omega), Api.get_create,
      if_neg (h (seq + 1) (by omega) (by omega))]

variable (hinj : Function.Injective fun i => key (newPod i))

include hinj

theorem createsFresh_iff (count seq : Nat) (pods : Api Pod) :
    CreatesFresh newPod count seq pods ↔
      ∀ i, seq < i → i ≤ seq + count → pods.get (key (newPod i)) = none := by
  induction count generalizing seq pods with
  | zero =>
    simp only [CreatesFresh, true_iff]
    omega
  | succ count ih =>
    rw [CreatesFresh, ih]
    have hother : ∀ i, seq + 1 < i →
        (pods.create (newPod (seq + 1))).get (key (newPod i)) = pods.get (key (newPod i)) := by
      intro i hi
      rw [Api.get_create, if_neg]
      intro h
      have : i = seq + 1 := hinj h
      omega
    constructor
    · rintro ⟨hfirst, hrest⟩ i hlo hhi
      rcases Nat.lt_or_ge (seq + 1) i with hi | hi
      · rw [← hother i hi]
        exact hrest i hi (by omega)
      · obtain rfl : i = seq + 1 := by omega
        exact hfirst
    · intro h
      refine ⟨h (seq + 1) (by omega) (by omega), fun i hlo hhi => ?_⟩
      rw [hother i hlo]
      exact h i (by omega) (by omega)

omit hinj in
theorem countP_createSeries {count seq : Nat} {pods : Api Pod} (q : Pod → Bool)
    (hq : ∀ (a : Api Pod) i, q (a.stamped (newPod i)))
    (h : CreatesFresh newPod count seq pods) :
    (createSeries newPod count seq pods).2.list.countP q = pods.list.countP q + count := by
  induction count generalizing seq pods with
  | zero => rfl
  | succ count ih =>
    rw [createSeries, ih h.2, Api.countP_create_of_free q h.1, if_pos (hq _ _)]
    omega

omit hinj in
theorem countP_createSeries_of_not {count seq : Nat} {pods : Api Pod} (q : Pod → Bool)
    (hq : ∀ (a : Api Pod) i, ¬ q (a.stamped (newPod i)))
    (h : CreatesFresh newPod count seq pods) :
    (createSeries newPod count seq pods).2.list.countP q = pods.list.countP q := by
  induction count generalizing seq pods with
  | zero => rfl
  | succ count ih =>
    rw [createSeries, ih h.2, Api.countP_create_of_free q h.1, if_neg (hq _ _), Nat.add_zero]

end CreateSeries

/-! ## Deleting pods -/

theorem get_foldl_delete (victims : List Pod) (pods : Api Pod) (k : String) :
    (victims.foldl (fun pods p => pods.delete (key p)) pods).get k =
      if k ∈ victims.map key then none else pods.get k := by
  rw [← Api.get_foldl_delete, List.foldl_map]

theorem stored_delete {p : Pod} {victims : List Pod} {pods : Api Pod}
    (hout : key p ∉ victims.map key) (hstored : ∀ p' ∈ p :: victims, pods.get (key p') = some p') :
    ∀ p' ∈ victims, (pods.delete (key p)).get (key p') = some p' := by
  intro p' hp'
  have hne : key p' ≠ key p := fun h => hout (h ▸ List.mem_map_of_mem hp')
  rw [Api.get_delete, if_neg hne]
  exact hstored p' (List.mem_cons_of_mem _ hp')

theorem countP_foldl_delete (q : Pod → Bool) (victims : List Pod) (pods : Api Pod)
    (hnodup : (victims.map key).Nodup) (hstored : ∀ p ∈ victims, pods.get (key p) = some p)
    (hq : ∀ p ∈ victims, q p) :
    pods.list.countP q =
      (victims.foldl (fun pods p => pods.delete (key p)) pods).list.countP q + victims.length := by
  induction victims generalizing pods with
  | nil => rfl
  | cons p victims ih =>
    obtain ⟨hout, hnodup⟩ := List.nodup_cons.mp hnodup
    rw [List.foldl_cons, Api.countP_delete q (hstored p List.mem_cons_self),
      if_pos (hq p List.mem_cons_self), ih _ hnodup (stored_delete hout hstored)
        fun p' hp' => hq p' (List.mem_cons_of_mem _ hp'), List.length_cons]
    omega

theorem countP_foldl_delete_of_not (q : Pod → Bool) (victims : List Pod) (pods : Api Pod)
    (hnodup : (victims.map key).Nodup) (hstored : ∀ p ∈ victims, pods.get (key p) = some p)
    (hq : ∀ p ∈ victims, ¬ q p) :
    (victims.foldl (fun pods p => pods.delete (key p)) pods).list.countP q =
      pods.list.countP q := by
  induction victims generalizing pods with
  | nil => rfl
  | cons p victims ih =>
    obtain ⟨hout, hnodup⟩ := List.nodup_cons.mp hnodup
    rw [List.foldl_cons, ih _ hnodup (stored_delete hout hstored)
        fun p' hp' => hq p' (List.mem_cons_of_mem _ hp'),
      Api.countP_delete q (hstored p List.mem_cons_self), if_neg (hq p List.mem_cons_self),
      Nat.add_zero]

namespace ReplicaSet

/-- The pod is active, and controlled by the replica set with the uid. -/
def counts (uid : String) (p : Pod) : Bool := Api.ownedBy uid p && p.isActive

theorem activeOwned_eq (pods : Api Pod) (uid : String) :
    activeOwned pods uid = pods.list.filter (counts uid) := by
  rw [activeOwned, Api.listOwnedBy, List.filter_filter]
  refine List.filter_congr fun p _ => ?_
  exact Bool.and_comm _ _

theorem length_activeOwned (pods : Api Pod) (uid : String) :
    (activeOwned pods uid).length = pods.list.countP (counts uid) := by
  rw [activeOwned_eq, List.countP_eq_length_filter]

theorem mem_activeOwned {pods : Api Pod} {uid : String} {p : Pod} :
    p ∈ activeOwned pods uid ↔ pods.get (key p) = some p ∧ counts uid p := by
  rw [activeOwned_eq, List.mem_filter, Api.mem_list]

theorem deleteSurplus_spec (pods : Api Pod) (uid : String) (count : Nat) :
    ∃ victims : List Pod, victims ⊆ activeOwned pods uid ∧
      victims.length = min count (activeOwned pods uid).length ∧
      (victims.map key).Nodup ∧
      deleteSurplus (activeOwned pods uid) count pods =
        victims.foldl (fun pods p => pods.delete (key p)) pods := by
  have hperm := (activeOwned pods uid).perm_insertionSort VictimBefore
  refine ⟨((activeOwned pods uid).insertionSort VictimBefore).take count,
    fun p hp => hperm.subset (List.mem_of_mem_take hp), ?_, ?_, rfl⟩
  · rw [List.length_take, hperm.length_eq]
  · have hnodup : ((activeOwned pods uid).map key).Nodup := by
      rw [activeOwned_eq]
      exact pods.store.nodup_keys.sublist (List.filter_sublist.map _)
    exact ((hperm.map key).nodup_iff.mpr hnodup).sublist ((List.take_sublist _ _).map _)

theorem countP_deleteSurplus (pods : Api Pod) (uid : String) (count : Nat) :
    (deleteSurplus (activeOwned pods uid) count pods).list.countP (counts uid) =
      pods.list.countP (counts uid) - count := by
  obtain ⟨victims, hsub, hlength, hnodup, heq⟩ := deleteSurplus_spec pods uid count
  have hcount := countP_foldl_delete (counts uid) victims pods hnodup
    (fun p hp => (mem_activeOwned.mp (hsub hp)).1) fun p hp => (mem_activeOwned.mp (hsub hp)).2
  rw [heq]
  rw [hlength, length_activeOwned] at hcount
  omega

variable (rs : ReplicaSet)

theorem counts_newPod (a : Api Pod) (i : Nat) :
    counts rs.rsMeta.uid (a.stamped (rs.newPod i)) := by
  have hstamped : a.stamped (rs.newPod i) =
      { rs.newPod i with podMeta := { (rs.newPod i).podMeta with
          uid := a.kind ++ "-" ++ padded (a.seq + 1) } } := rfl
  rw [hstamped, counts, Api.ownedBy]
  simp [objectMeta, newPod, reference, OwnerReference.to, OwnerReference.controlling,
    OwnerReference.blocking, Pod.isActive, PodPhase.isTerminal, ObjectMeta.isTerminating]

theorem key_newPod (i : Nat) :
    key (rs.newPod i) = keyOf rs.rsMeta.namespaceName (rs.podName i) := rfl

theorem key_newPod_injective : Function.Injective fun i => key (rs.newPod i) := by
  intro i j h
  have hname : rs.podName i = rs.podName j := keyOf_injective _ h
  exact base36_injective ((String.append_right_inj _).mp hname)

end ReplicaSet

end CaveHome.ControllerManager
