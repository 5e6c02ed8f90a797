import CaveHome.ControllerManager.ReplicaSet
import CaveHome.Lib.Text

/-!
# Pods that are made over existing ones

The names of new pods come from a counter that starts anew with the process, and making a pod puts
it in the place of one with the same name.  A reconcile keeps the pods that exist if and only if
the names it is about to use are free.
-/

namespace CaveHome.ControllerManager

/-! ## Replica sets -/

namespace ReplicaSet

variable (rs : ReplicaSet)

/-- The active pods that the replica set owns once it has adopted and released. -/
def claimedActive (pods : Api Pod) : Nat :=
  pods.list.countP fun p => counts rs.rsMeta.uid (rs.claimed p)

/-- The number of pods that a reconcile is about to make. -/
def toCreate (pods : Api Pod) : Nat :=
  (-I32.wrap (I32.clamp (rs.claimedActive pods) - rs.spec.replicas)).toNat

/-- No pod is replaced: every pod that is made finds its key free.  And so every pod that existed
is as it was, up to adoption and release, or was deleted as surplus, and as many pods are active
as the replica set wants. -/
structure KeepsPods (podSeq : Nat) (pods pods' : Api Pod) : Prop where
  fresh : CreatesFresh rs.newPod (rs.toCreate pods) podSeq (rs.claimAndRelease pods)
  kept : ∀ k p, pods.get k = some p → pods'.get k = some (rs.claimed p) ∨
    (pods'.get k = none ∧ counts rs.rsMeta.uid (rs.claimed p) ∧
      rs.spec.replicas < rs.claimedActive pods)
  exact : 0 ≤ rs.spec.replicas → selectorMatches rs.spec.selector rs.spec.template.labels →
    ((activeOwned pods' rs.rsMeta.uid).length : Int) = rs.spec.replicas

/-- The names that are about to be used are free, and the active pods can be counted in 32 bits. -/
def NamesFree (podSeq : Nat) (pods : Api Pod) : Prop :=
  (∀ i, podSeq < i → i ≤ podSeq + rs.toCreate pods →
      pods.get (keyOf rs.rsMeta.namespaceName (rs.podName i)) = none) ∧
    (0 ≤ rs.spec.replicas → selectorMatches rs.spec.selector rs.spec.template.labels →
      (rs.claimedActive pods : Int) ≤ I32.maxValue)

theorem countP_claimAndRelease (pods : Api Pod) :
    (rs.claimAndRelease pods).list.countP (counts rs.rsMeta.uid) = rs.claimedActive pods := by
  have hlist : (rs.claimAndRelease pods).list = pods.list.map rs.claimed :=
    Store.list_eq_map (rs.get_claimAndRelease pods)
  rw [hlist, List.countP_map]
  rfl

theorem scalePods_cases (podSeq : Nat) (pods : Api Pod) :
    let claimed := rs.claimAndRelease pods
    let diff := I32.wrap (I32.clamp (rs.claimedActive pods) - rs.spec.replicas)
    (diff < 0 ∧ rs.scalePods podSeq claimed =
        createSeries rs.newPod (rs.toCreate pods) podSeq claimed) ∨
      (0 ≤ diff ∧ rs.toCreate pods = 0 ∧ rs.scalePods podSeq claimed =
        (podSeq, deleteSurplus (activeOwned claimed rs.rsMeta.uid) diff.natAbs claimed)) := by
  intro claimed diff
  have hdiff : I32.wrap (I32.clamp (activeOwned claimed rs.rsMeta.uid).length - rs.spec.replicas) =
      diff := by
    rw [length_activeOwned, countP_claimAndRelease]
  have hcreate : rs.toCreate pods = (-diff).toNat := rfl
  rw [scalePods, hdiff, hcreate]
  rcases lt_trichotomy diff 0 with h | h | h
  · refine Or.inl ⟨h, ?_⟩
    rw [if_pos h, createPods, show diff.natAbs = (-diff).toNat by omega]
  · refine Or.inr ⟨h.ge, by omega, ?_⟩
    rw [if_neg (by omega), if_neg (by omega), h]
    rfl
  · refine Or.inr ⟨h.le, by omega, ?_⟩
    rw [if_neg (by omega), if_pos h]

theorem get_claimed_eq_none_iff (pods : Api Pod) (k : String) :
    (rs.claimAndRelease pods).get k = none ↔ pods.get k = none := by
  rw [get_claimAndRelease, Option.map_eq_none_iff]

theorem keepsPods_iff (podSeq : Nat) (pods : Api Pod) (hmin : -2147483648 ≤ rs.spec.replicas)
    (hmax : rs.spec.replicas ≤ I32.maxValue) :
    rs.KeepsPods podSeq pods (rs.scalePods podSeq (rs.claimAndRelease pods)).2 ↔
      rs.NamesFree podSeq pods := by
  have hfresh : CreatesFresh rs.newPod (rs.toCreate pods) podSeq (rs.claimAndRelease pods) ↔
      ∀ i, podSeq < i → i ≤ podSeq + rs.toCreate pods →
        pods.get (keyOf rs.rsMeta.namespaceName (rs.podName i)) = none := by
    rw [createsFresh_iff rs.key_newPod_injective]
    simp only [get_claimed_eq_none_iff, key_newPod]
  have hcount : (rs.claimAndRelease pods).list.countP (counts rs.rsMeta.uid) =
      rs.claimedActive pods := rs.countP_claimAndRelease pods
  have hget := fun k => rs.get_claimAndRelease pods k
  rcases rs.scalePods_cases podSeq pods with ⟨hneg, hscale⟩ | ⟨hnonneg, hzero, hscale⟩
  · rw [hscale]
    constructor
    · intro h
      refine ⟨hfresh.mp h.fresh, fun hr hmatch => ?_⟩
      unfold I32.wrap I32.clamp I32.maxValue at *
      omega
    · rintro ⟨hfree, hrange⟩
      have hf := hfresh.mpr hfree
      refine ⟨hf, fun k p hp => Or.inl ?_, fun hr hmatch => ?_⟩
      · rw [get_createSeries_of_ne, hget, hp]
        · rfl
        · rintro i hlo hhi rfl
          rw [key_newPod, hfree i hlo hhi] at hp
          cases hp
      · rw [length_activeOwned, countP_createSeries _ rs.counts_newPod hf, hcount, toCreate]
        have := hrange hr hmatch
        unfold I32.wrap I32.clamp I32.maxValue at *
        omega
  · rw [hscale]
    dsimp only
    obtain ⟨victims, hsub, hlength, -, heq⟩ := deleteSurplus_spec (rs.claimAndRelease pods)
      rs.rsMeta.uid (I32.wrap (I32.clamp (rs.claimedActive pods) - rs.spec.replicas)).natAbs
    constructor
    · intro h
      refine ⟨hfresh.mp h.fresh, fun hr hmatch => ?_⟩
      have hexact := h.exact hr hmatch
      rw [length_activeOwned, countP_deleteSurplus, hcount] at hexact
      unfold I32.wrap I32.clamp I32.maxValue at *
      omega
    · rintro ⟨hfree, hrange⟩
      refine ⟨hfresh.mpr hfree, fun k p hp => ?_, fun hr hmatch => ?_⟩
      · have hclaimed : (rs.claimAndRelease pods).get k = some (rs.claimed p) := by
          rw [hget, hp]
          rfl
        rw [heq, get_foldl_delete]
        split
        next hmem =>
          obtain ⟨v, hv, hvk⟩ := List.mem_map.mp hmem
          obtain ⟨hstored, hcounts⟩ := mem_activeOwned.mp (hsub hv)
          rw [hvk, hclaimed] at hstored
          obtain rfl := Option.some.inj hstored
          refine Or.inr ⟨rfl, hcounts, ?_⟩
          -- something is deleted, so the difference is positive
          have hpos : 0 < victims.length := List.length_pos_of_mem hv
          rw [hlength] at hpos
          unfold I32.wrap I32.clamp I32.maxValue at *
          omega
        next => exact Or.inl hclaimed
      · rw [length_activeOwned, countP_deleteSurplus, hcount]
        have := hrange hr hmatch
        unfold I32.wrap I32.clamp I32.maxValue at *
        omega

/-- What the controller should do with the replica set of the key. -/
def NeverReplaces (k : String) (podSeq : Nat) (c : Cluster) : Prop :=
  ∀ rs, c.replicasets.get k = some rs → rs.rsMeta.isTerminating = false →
    rs.KeepsPods podSeq c.pods (reconcile k podSeq c).2.pods

theorem writeStatus_pods (c : Cluster) : (rs.writeStatus c).pods = c.pods := by
  rw [writeStatus]
  split <;> rfl

theorem reconcile_pods {k : String} {podSeq : Nat} {c : Cluster} {rs : ReplicaSet}
    (hget : c.replicasets.get k = some rs) (hlive : rs.rsMeta.isTerminating = false) :
    (reconcile k podSeq c).2.pods = (rs.scalePods podSeq (rs.claimAndRelease c.pods)).2 := by
  rw [reconcile, hget]
  dsimp only
  rw [if_neg (by simp [hlive])]
  exact rs.writeStatus_pods _

end ReplicaSet

/-! ## Jobs -/

namespace Job

variable (job : Job)

/-- The number of pods that a reconcile is about to make. -/
def toCreate (pods : Api Pod) : Nat :=
  let owned := pods.listOwnedBy job.jobMeta.uid
  let succeeded := countPhase owned .succeeded
  if job.status.complete || job.status.failedFinal then 0
  else if job.spec.completions ≤ succeeded then 0
  else if job.spec.backoffLimit < countPhase owned .failed then 0
  else (job.missing succeeded (I32.clamp (owned.filter (·.isActive)).length)).toNat

/-- No pod is replaced, and every pod that existed is as it was or was active and deleted when the
job was over. -/
structure KeepsPods (podSeq : Nat) (pods pods' : Api Pod) : Prop where
  fresh : CreatesFresh job.newPod (job.toCreate pods) podSeq pods
  kept : ∀ k p, pods.get k = some p → pods'.get k = some p ∨
    (pods'.get k = none ∧ Api.ownedBy job.jobMeta.uid p ∧ p.isActive)

def NeverReplaces (k : String) (now podSeq : Nat) (c : Cluster) : Prop :=
  ∀ job, c.jobs.get k = some job → job.jobMeta.isTerminating = false →
    job.KeepsPods podSeq c.pods (reconcile k now podSeq c).2.pods

/-- The names that are about to be used are free. -/
def NamesFree (podSeq : Nat) (pods : Api Pod) : Prop :=
  ∀ i, podSeq < i → i ≤ podSeq + job.toCreate pods →
    pods.get (keyOf job.jobMeta.namespaceName (job.podName i)) = none

theorem key_newPod_injective : Function.Injective fun i => key (job.newPod i) := by
  intro i j h
  have hname : job.podName i = job.podName j := keyOf_injective _ h
  exact Text.toString_injective ((String.append_right_inj _).mp hname)

theorem reconcile_cases {k : String} (now podSeq : Nat) {c : Cluster} {job : Job}
    (hget : c.jobs.get k = some job) (hlive : job.jobMeta.isTerminating = false) :
    (reconcile k now podSeq c).2.pods =
        (createSeries job.newPod (job.toCreate c.pods) podSeq c.pods).2 ∨
      (job.toCreate c.pods = 0 ∧ (reconcile k now podSeq c).2.pods =
        deleteActive ((c.pods.listOwnedBy job.jobMeta.uid).filter (·.isActive)) c.pods) := by
  rw [reconcile, hget, toCreate]
  dsimp only
  rw [if_neg (by simp [hlive])]
  by_cases hfinished : (job.status.complete || job.status.failedFinal) = true
  · rw [if_pos hfinished, if_pos hfinished]
    exact Or.inl rfl
  · rw [if_neg hfinished, if_neg hfinished]
    by_cases hcomplete : job.spec.completions ≤
        countPhase (c.pods.listOwnedBy job.jobMeta.uid) .succeeded
    · rw [if_pos hcomplete, if_pos hcomplete]
      exact Or.inr ⟨rfl, rfl⟩
    · rw [if_neg hcomplete, if_neg hcomplete]
      by_cases hfailed : job.spec.backoffLimit <
          countPhase (c.pods.listOwnedBy job.jobMeta.uid) .failed
      · rw [if_pos hfailed, if_pos hfailed]
        exact Or.inr ⟨rfl, rfl⟩
      · rw [if_neg hfailed, if_neg hfailed]
        exact Or.inl rfl

theorem neverReplaces_iff (k : String) (now podSeq : Nat) (c : Cluster) :
    NeverReplaces k now podSeq c ↔
      ∀ job, c.jobs.get k = some job → job.jobMeta.isTerminating = false →
        job.NamesFree podSeq c.pods := by
  refine forall_congr' fun job => forall_congr' fun hget => forall_congr' fun hlive => ?_
  have hfresh : CreatesFresh job.newPod (job.toCreate c.pods) podSeq c.pods ↔
      job.NamesFree podSeq c.pods := createsFresh_iff job.key_newPod_injective _ _ _
  refine ⟨fun h => hfresh.mp h.fresh, fun hfree => ⟨hfresh.mpr hfree, fun k p hp => ?_⟩⟩
  rcases reconcile_cases now podSeq hget hlive with hpods | ⟨-, hpods⟩
  · rw [hpods, get_createSeries_of_ne]
    · exact Or.inl hp
    · rintro i hlo hhi rfl
      have hnone : c.pods.get (key (job.newPod i)) = none := hfree i hlo hhi
      simp [hnone] at hp
  · rw [hpods, deleteActive, get_foldl_delete]
    split
    next hmem =>
      obtain ⟨v, hv, hvk⟩ := List.mem_map.mp hmem
      obtain ⟨howned, hactive⟩ := List.mem_filter.mp hv
      obtain ⟨hstored, howned⟩ := Api.mem_listOwnedBy.mp howned
      rw [hvk, hp] at hstored
      obtain rfl := Option.some.inj hstored
      exact Or.inr ⟨rfl, howned, hactive⟩
    next => exact Or.inl hp

end Job

/-- Neither controller replaces a pod, for any cluster and counters, if and only if the names they
are about to use are free (and the pods of the replica set can be counted in 32 bits). -/
theorem neverReplaces_iff_namesFree (c : Cluster) (rsKey jobKey : String)
    (now rsSeq jobSeq : Nat)
    (hrange : ∀ rs, c.replicasets.get rsKey = some rs →
      -2147483648 ≤ rs.spec.replicas ∧ rs.spec.replicas ≤ I32.maxValue) :
    (ReplicaSet.NeverReplaces rsKey rsSeq c ∧ Job.NeverReplaces jobKey now jobSeq c) ↔
      (∀ rs, c.replicasets.get rsKey = some rs → rs.rsMeta.isTerminating = false →
        rs.NamesFree rsSeq c.pods) ∧
      ∀ job, c.jobs.get jobKey = some job → job.jobMeta.isTerminating = false →
        job.NamesFree jobSeq c.pods := by
  refine and_congr ?_ (Job.neverReplaces_iff jobKey now jobSeq c)
  refine forall_congr' fun rs => forall_congr' fun hget => forall_congr' fun hlive => ?_
  rw [ReplicaSet.reconcile_pods hget hlive]
  exact rs.keepsPods_iff rsSeq c.pods (hrange rs hget).1 (hrange rs hget).2

/-- A replica set that wants two pods. -/
def restartedSet : ReplicaSet where
  rsMeta := { name := "web", namespaceName := "prod", uid := "rs-00000001" }
  spec := { replicas := 2, selector := [("app", "web")], template := ⟨[("app", "web")]⟩ }

/-- It has one running pod, which an earlier process has made. -/
def restarted : Cluster where
  pods := (Api.new "pod" : Api Pod).create { restartedSet.newPod 1 with status := ⟨.running, true⟩ }
  replicasets := (Api.new "rs" : Api ReplicaSet).create restartedSet

theorem restarted_get : restarted.replicasets.get "prod/web" = some restartedSet := by
  decide

/-- With the counter where the earlier process left it, the pod is kept. -/
theorem restarted_kept : ReplicaSet.NeverReplaces "prod/web" 1 restarted := by
  have hrange : ∀ rs, restarted.replicasets.get "prod/web" = some rs →
      -2147483648 ≤ rs.spec.replicas ∧ rs.spec.replicas ≤ I32.maxValue := by
    intro rs hget
    obtain rfl := Option.some.inj (hget.symm.trans restarted_get)
    decide
  refine ((neverReplaces_iff_namesFree restarted "prod/web" "" 0 1 0 hrange).mpr ⟨?_, ?_⟩).1
  · intro rs hget _
    obtain rfl := Option.some.inj (hget.symm.trans restarted_get)
    refine ⟨fun i hlo hhi => ?_, fun _ _ => by decide⟩
    have hcount : restartedSet.toCreate restarted.pods = 1 := by decide
    obtain rfl : i = 2 := by omega
    decide
  · intro job hget
    cases hget

/-- With the counter of a new process, the running pod is replaced, and one active pod is left
where two are wanted. -/
theorem restarted_replaced : ¬ ReplicaSet.NeverReplaces "prod/web" 0 restarted := by
  intro h
  have hexact := (h restartedSet restarted_get rfl).exact (by decide) (by decide)
  have hone : (ReplicaSet.activeOwned (ReplicaSet.reconcile "prod/web" 0 restarted).2.pods
      restartedSet.rsMeta.uid).length = 1 := by decide
  rw [hone] at hexact
  cases hexact

end CaveHome.ControllerManager
