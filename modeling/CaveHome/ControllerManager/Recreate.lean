import CaveHome.ControllerManager.RolloutRun

/-!
# Recreate and overlapping revisions

With the strategy `recreate`, pods of the new template should start only when those of the older
ones are gone.  The controller asks for the pods that the older replica sets report, and a replica
set that was scaled up and not yet reconciled reports none.  Revisions never overlap in the runs in
which the older replica sets have reported whenever the deployment is reconciled.
-/

namespace CaveHome.ControllerManager

namespace Rollout

/-- The replica set wants pods, or has active ones. -/
def Up (pods : Api Pod) (r : ReplicaSet) : Prop :=
  0 < r.spec.replicas ∨ 0 < (ReplicaSet.activeOwned pods r.rsMeta.uid).length

instance (pods : Api Pod) (r : ReplicaSet) : Decidable (Up pods r) := instDecidableOr

/-- The replica set of the newest template is up, and so is one of another template. -/
structure Overlap (k : String) (c : Cluster) (newRs oldRs : ReplicaSet) (d : Deployment) :
    Prop where
  deployment : c.deployments.get k = some d
  newOwned : newRs ∈ c.replicasets.listOwnedBy d.deployMeta.uid
  oldOwned : oldRs ∈ c.replicasets.listOwnedBy d.deployMeta.uid
  isNew : Deployment.isNew (templateHash d.spec.template) newRs
  isOld : ¬ Deployment.isNew (templateHash d.spec.template) oldRs
  newUp : Up c.pods newRs
  oldUp : Up c.pods oldRs

/-- The replica sets with these keys overlap. -/
def Overlaps (k : String) (c : Cluster) (newKey oldKey : String) : Prop :=
  ∃ newRs oldRs d, key newRs = newKey ∧ key oldRs = oldKey ∧ Overlap k c newRs oldRs d

def templateOf (k : String) (c : Cluster) : Option PodTemplateSpec :=
  (c.deployments.get k).map (·.spec.template)

/-- A rollout, and the cluster as it was when the template last changed. -/
structure Traced where
  rollout : Rollout
  atChange : Cluster

def Traced.step (k : String) (t : Traced) (a : Step) : Traced where
  rollout := t.rollout.step k a
  atChange :=
    if templateOf k (t.rollout.step k a).cluster = templateOf k t.rollout.cluster then t.atChange
    else (t.rollout.step k a).cluster

/-- The states that are reached by steps which are all `ok`. -/
inductive Reached (k : String) (d₀ : Deployment) (ok : Rollout → Step → Prop) : Traced → Prop
  | start {s : Rollout} (hfresh : Fresh k d₀ s) (hstrategy : d₀.spec.strategy = .recreate) :
    Reached k d₀ ok ⟨s, s.cluster⟩
  | step {t : Traced} {a : Step} (h : Reached k d₀ ok t) (hlegal : a.Legal d₀.spec.selector)
    (hok : ok t.rollout a) : Reached k d₀ ok (t.step k a)

/-- No revisions overlap, but for those that did when the template last changed. -/
def KeepsApart (k : String) (t : Traced) : Prop :=
  ∀ newKey oldKey, Overlaps k t.rollout.cluster newKey oldKey →
    Overlaps k t.atChange newKey oldKey

/-- When a deployment that wants pods is reconciled while an older replica set is up, the older
ones report pods. -/
def OldReported (k : String) (s : Rollout) : Step → Prop
  | .reconcileDeployment => ∀ d ∈ s.cluster.deployments.get k, 0 < d.spec.replicas →
      (∃ r ∈ d.oldSets s.cluster.replicasets, Up s.cluster.pods r) →
      0 < sumI32 ((d.oldSets s.cluster.replicasets).map (·.status.replicas))
  | _ => True

/-! ## At most one replica set is up -/

theorem up_iff (pods : Api Pod) (r : ReplicaSet) :
    Up pods r ↔ 0 < r.spec.replicas ∨ 0 < pods.list.countP (ReplicaSet.counts r.rsMeta.uid) := by
  rw [Up, ReplicaSet.length_activeOwned]

def OneUp (rss : Api ReplicaSet) (pods : Api Pod) : Prop :=
  ∀ r ∈ rss.list, ∀ r' ∈ rss.list, Up pods r → Up pods r' → r = r'

section OneUp

variable {owner : ObjectMeta} {rss rss' : Api ReplicaSet} {pods pods' : Api Pod}
  {es : List (ReplicaSet × ReplicaSet)}

theorem OneUp.edits (h : OneUp rss pods) (hs' : OwnedSets owner rss') (he : Edits rss rss' es)
    (hup : ∀ e ∈ es, Up pods' e.2 → Up pods e.1) : OneUp rss' pods' := by
  intro r₁' hr₁' r₂' hr₂' hup₁ hup₂
  obtain ⟨r₁, hr₁, hmem₁, hsame₁⟩ := he.exists_before hr₁'
  obtain ⟨r₂, hr₂, hmem₂, hsame₂⟩ := he.exists_before hr₂'
  have heq := h r₁ hr₁ r₂ hr₂ (hup _ hmem₁ hup₁) (hup _ hmem₂ hup₂)
  refine hs'.eq_of_uid hr₁' hr₂' ?_
  rw [hsame₁.rsMeta, hsame₂.rsMeta, heq]

theorem OneUp.prepared {d : Deployment} {podSeq : Nat} (h : OneUp rss pods)
    (hprep : d.Prepared rss) (hp : OwnedPods rss podSeq pods) : OneUp (d.prepared rss).2 pods := by
  rcases hprep.found with heq | ⟨hperm, hzero, -⟩
  · rw [heq]
    exact h
  · have hdown : ¬ Up pods (d.prepared rss).1 := by
      rw [up_iff, hzero, hprep.countP_eq_zero hp hperm]
      simp
    intro r hr r' hr' hup hup'
    rcases List.mem_cons.mp (hperm.mem_iff.mp hr) with rfl | hr
    · exact absurd hup hdown
    · rcases List.mem_cons.mp (hperm.mem_iff.mp hr') with rfl | hr'
      · exact absurd hup' hdown
      · exact h r hr r' hr' hup hup'

theorem up_of_target {d : Deployment} {newRs : ReplicaSet} {oldRs : List ReplicaSet}
    (hstrategy : d.spec.strategy = .recreate) (hd : d.Valid)
    (hok : 0 < d.spec.replicas → (∃ r ∈ oldRs, Up pods r) →
      0 < sumI32 (oldRs.map (·.status.replicas)))
    (hold : ∃ r ∈ oldRs, Up pods r) {t : ReplicaSet × Int} (ht : t ∈ d.targets newRs oldRs)
    (hup : Up pods (t.1.scaled t.2)) : Up pods t.1 := by
  have hzero : t.2 = 0 → Up pods t.1 := by
    intro hzero
    rw [up_iff, ReplicaSet.replicas_scaled, hzero] at hup
    exact (up_iff _ _).mpr (Or.inr (hup.resolve_left (lt_irrefl 0)))
  rw [Deployment.targets, hstrategy] at ht
  dsimp only at ht
  split at ht
  · rcases List.mem_cons.mp ht with rfl | ht
    · exact hzero rfl
    · obtain ⟨r, -, rfl⟩ := List.mem_map.mp ht
      exact hzero rfl
  next hnone =>
    rcases List.mem_cons.mp ht with rfl | ht
    · -- the deployment wants no pods
      refine hzero (le_antisymm (not_lt.mp fun hpos => hnone (hok hpos hold)) hd.inRange.1)
    · obtain ⟨r, -, rfl⟩ := List.mem_map.mp ht
      exact hup

theorem eq_new_of_target {d : Deployment} {newRs : ReplicaSet} {oldRs : List ReplicaSet}
    (hstrategy : d.spec.strategy = .recreate) (hold : ¬ ∃ r ∈ oldRs, Up pods r)
    {t : ReplicaSet × Int} (ht : t ∈ d.targets newRs oldRs) (hup : Up pods (t.1.scaled t.2)) :
    t.1 = newRs := by
  have hdown : ∀ r ∈ oldRs, ¬ Up pods (r.scaled 0) := by
    intro r hr hup
    rw [up_iff, ReplicaSet.replicas_scaled] at hup
    exact hold ⟨r, hr, (up_iff _ _).mpr (Or.inr (hup.resolve_left (lt_irrefl 0)))⟩
  rw [Deployment.targets, hstrategy] at ht
  dsimp only at ht
  split at ht
  · rcases List.mem_cons.mp ht with rfl | ht
    · rfl
    · obtain ⟨r, hr, rfl⟩ := List.mem_map.mp ht
      exact absurd hup (hdown r hr)
  · rcases List.mem_cons.mp ht with rfl | ht
    · rfl
    · obtain ⟨r, hr, rfl⟩ := List.mem_map.mp ht
      exact absurd ⟨r, hr, hup⟩ hold

end OneUp

section Steps

variable {k : String} {d₀ : Deployment} {s : Rollout}

theorem OneUp.reconcileDeployment (hw : Wf k d₀ s) (hstrategy : d₀.spec.strategy = .recreate)
    (hok : OldReported k s .reconcileDeployment)
    (h : OneUp s.cluster.replicasets s.cluster.pods) :
    OneUp (s.step k .reconcileDeployment).cluster.replicasets
      (s.step k .reconcileDeployment).cluster.pods := by
  obtain ⟨d, hget, hlike, hd⟩ := hw.deployment
  have heq := Deployment.reconcile_eq hget hd
  have hs : OwnedSets d.deployMeta s.cluster.replicasets := hlike.deployMeta ▸ hw.sets
  have hprep := Deployment.prepared_spec hd hs
  have hedits := (Deployment.rescales hd hs).edits
  have hs' := Deployment.ownedSets_reconcile hd hs
  have hrecreate : d.spec.strategy = .recreate := hlike.strategy.trans hstrategy
  rw [Rollout.step, heq]
  change OneUp (d.reconcileReplicaSets s.cluster.replicasets) s.cluster.pods
  by_cases hold : ∃ r ∈ d.oldSets s.cluster.replicasets, Up s.cluster.pods r
  · refine (h.prepared hprep hw.pods).edits hs' hedits fun e he hup => ?_
    obtain ⟨t, ht, rfl⟩ := List.mem_map.mp he
    exact up_of_target hrecreate hd (hok d hget) hold ht hup
  · have hnew : ∀ r' ∈ (d.reconcileReplicaSets s.cluster.replicasets).list,
        Up s.cluster.pods r' →
          r'.rsMeta.uid = (d.prepared s.cluster.replicasets).1.rsMeta.uid := by
      intro r' hr' hup
      obtain ⟨r, -, hmem, -⟩ := hedits.exists_before hr'
      obtain ⟨t, ht, he⟩ := List.mem_map.mp hmem
      obtain ⟨rfl, rfl⟩ := Prod.mk.inj he
      rw [ReplicaSet.rsMeta_scaled, eq_new_of_target hrecreate hold ht hup]
    intro r₁ hr₁ r₂ hr₂ hup₁ hup₂
    exact hs'.eq_of_uid hr₁ hr₂ ((hnew r₁ hr₁ hup₁).trans (hnew r₂ hr₂ hup₂).symm)

theorem OneUp.reconcileReplicaSet (hw : Wf k d₀ s) (rsKey : String)
    (h : OneUp s.cluster.replicasets s.cluster.pods) :
    OneUp (s.step k (.reconcileReplicaSet rsKey)).cluster.replicasets
      (s.step k (.reconcileReplicaSet rsKey)).cluster.pods := by
  have hw' := hw.reconcileReplicaSet rsKey
  cases hget : s.cluster.replicasets.get rsKey with
  | none =>
    rw [Rollout.step, ReplicaSet.reconcile, hget]
    exact h
  | some r =>
    have hr : r ∈ s.cluster.replicasets.list := Api.mem_list.mpr (Api.key_of_get hget ▸ hget)
    obtain ⟨podSeq', pods', hscales, heq⟩ := reconcile_replicaSet hw.sets hw.pods hget
    obtain ⟨rest, hperm, hedits⟩ := edits_status hr (observed pods' r.rsMeta.uid)
    have hsets := hw'.sets
    rw [Rollout.step, heq] at hsets ⊢
    -- a replica set that wants no pods has none after its reconcile
    have hself : Up pods' r → Up s.cluster.pods r := by
      intro hup
      rw [up_iff] at hup ⊢
      have hexact := hscales.exact
      omega
    refine h.edits hsets hedits fun e he hup => ?_
    rcases List.mem_cons.mp he with rfl | he
    · exact hself hup
    · obtain ⟨r', hr', rfl⟩ := List.mem_map.mp he
      by_cases huid : r'.rsMeta.uid = r.rsMeta.uid
      · obtain rfl := hw.sets.eq_of_uid
          (hperm.mem_iff.mpr (List.mem_cons_of_mem _ hr')) hr huid
        exact hself hup
      · rw [up_iff, hscales.others _ huid] at hup
        exact (up_iff _ _).mpr hup

theorem OneUp.step (hw : Wf k d₀ s) (hstrategy : d₀.spec.strategy = .recreate) {a : Step}
    (hok : OldReported k s a) (h : OneUp s.cluster.replicasets s.cluster.pods) :
    OneUp (s.step k a).cluster.replicasets (s.step k a).cluster.pods := by
  have hedit : ∀ f, OneUp (edit k f s.cluster).replicasets (edit k f s.cluster).pods := by
    intro f
    obtain ⟨d, hget, -, -⟩ := hw.deployment
    rw [edit_eq hget]
    exact h
  cases a with
  | reconcileDeployment => exact h.reconcileDeployment hw hstrategy hok
  | reconcileReplicaSet rsKey => exact h.reconcileReplicaSet hw rsKey
  | startPod podKey =>
    have hcount := (admits_admitPod podKey s.cluster.pods).countP_eq hw.pods
    intro r hr r' hr' hup hup'
    rw [up_iff] at hup hup'
    change _ ∨ 0 < (admitPod podKey s.cluster.pods).list.countP _ at hup hup'
    rw [hcount] at hup hup'
    exact h r hr r' hr' ((up_iff _ _).mpr hup) ((up_iff _ _).mpr hup')
  | setTemplate template => exact hedit _
  | setReplicas replicas => exact hedit _

theorem Reached.oneUp {t : Traced} (h : Reached k d₀ (OldReported k) t) :
    Wf k d₀ t.rollout ∧ d₀.spec.strategy = .recreate ∧
      OneUp t.rollout.cluster.replicasets t.rollout.cluster.pods := by
  induction h with
  | start hfresh hstrategy =>
    refine ⟨hfresh.wf, hstrategy, fun r hr => ?_⟩
    rw [hfresh.noSets] at hr
    cases hr
  | step _ hlegal hok ih =>
    obtain ⟨hw, hstrategy, hone⟩ := ih
    exact ⟨hw.step hlegal, hstrategy, hone.step hw hstrategy hok⟩

end Steps

/-- In every run in which the older replica sets have reported whenever the deployment is
reconciled, no revisions overlap in any state. -/
theorem recreate_keepsApart {k : String} {d₀ : Deployment} {t : Traced}
    (h : Reached k d₀ (OldReported k) t) : KeepsApart k t := by
  obtain ⟨-, -, hone⟩ := h.oneUp
  rintro newKey oldKey ⟨newRs, oldRs, d, -, -, hover⟩
  have heq := hone newRs (List.mem_filter.mp hover.newOwned).1 oldRs
    (List.mem_filter.mp hover.oldOwned).1 hover.newUp hover.oldUp
  exact absurd (heq ▸ hover.isNew) hover.isOld

/-! ## Two runs -/

instance (k : String) (s : Rollout) (a : Step) : Decidable (OldReported k s a) :=
  match a with
  | .reconcileDeployment => Option.decidableForallMem _
  | .reconcileReplicaSet _ => .isTrue trivial
  | .startPod _ => .isTrue trivial
  | .setTemplate _ => .isTrue trivial
  | .setReplicas _ => .isTrue trivial

theorem Traced.atChange_same {k : String} {t : Traced} {a : Step}
    (h : templateOf k (t.rollout.step k a).cluster = templateOf k t.rollout.cluster) :
    (t.step k a).atChange = t.atChange := if_pos h

theorem Traced.atChange_changed {k : String} {t : Traced} {a : Step}
    (h : templateOf k (t.rollout.step k a).cluster ≠ templateOf k t.rollout.cluster) :
    (t.step k a).atChange = (t.rollout.step k a).cluster := if_neg h

/-- A deployment that wants one pod. -/
def recreated : Deployment where
  deployMeta := { name := "web", namespaceName := "prod", uid := "deploy-00000001" }
  spec :=
    { replicas := 1, selector := [("app", "web")], template := ⟨[("app", "web")]⟩,
      strategy := .recreate }

def recreatedStart : Rollout where
  podSeq := 0
  cluster := { deployments := (Api.new "deploy" : Api Deployment).create recreated }

def recreatedTemplate : PodTemplateSpec := ⟨[("app", "web"), ("version", "2")]⟩

theorem recreated_selects :
    selectorMatches recreated.spec.selector recreatedTemplate.labels := by decide

theorem recreated_fresh : Fresh "prod/web" recreated recreatedStart where
  deployment := by decide
  valid := ⟨rfl, List.pairwise_singleton _ _, by decide, by decide, by decide⟩
  noSets := rfl
  noPods := rfl

/-- The start, and the states after so many steps. -/
def recreatedRun (steps : List Step) : Traced :=
  steps.foldl (Traced.step "prod/web") ⟨recreatedStart, recreatedStart.cluster⟩

/-- The first replica set is reconciled before the template changes, and drained after it. -/
def recreatedOrderly : List Step :=
  [.reconcileDeployment, .reconcileReplicaSet ("prod/web-" ++ templateHash recreated.spec.template),
    .setTemplate recreatedTemplate, .reconcileDeployment,
    .reconcileReplicaSet ("prod/web-" ++ templateHash recreated.spec.template),
    .reconcileDeployment]

theorem recreated_keepsApart : KeepsApart "prod/web" (recreatedRun recreatedOrderly) := by
  have hstart : Reached "prod/web" recreated (OldReported "prod/web")
      ⟨recreatedStart, recreatedStart.cluster⟩ := .start recreated_fresh rfl
  have h₁ := hstart.step (a := .reconcileDeployment) trivial (by decide)
  have h₂ := h₁.step (a := .reconcileReplicaSet
    ("prod/web-" ++ templateHash recreated.spec.template)) trivial trivial
  have h₃ := h₂.step (a := .setTemplate recreatedTemplate) recreated_selects trivial
  have h₄ := h₃.step (a := .reconcileDeployment) trivial (by decide)
  have h₅ := h₄.step (a := .reconcileReplicaSet
    ("prod/web-" ++ templateHash recreated.spec.template)) trivial trivial
  exact recreate_keepsApart (h₅.step (a := .reconcileDeployment) trivial (by decide))

/-- The template changes before the first replica set is reconciled. -/
def recreatedHasty : List Step :=
  [.reconcileDeployment, .setTemplate recreatedTemplate, .reconcileDeployment]

/-- Then both replica sets want a pod, which neither did when the template changed. -/
theorem recreated_overlaps : ¬ ∀ k d₀ t, Reached k d₀ (fun _ _ => True) t → KeepsApart k t := by
  intro hall
  have hstart : Reached "prod/web" recreated (fun _ _ => True)
      ⟨recreatedStart, recreatedStart.cluster⟩ := .start recreated_fresh rfl
  have h₁ := hstart.step (a := .reconcileDeployment) trivial trivial
  have h₂ := h₁.step (a := .setTemplate recreatedTemplate) recreated_selects trivial
  have h₃ := h₂.step (a := .reconcileDeployment) trivial trivial
  have hover : ∃ d ∈ (recreatedRun recreatedHasty).rollout.cluster.deployments.get "prod/web",
      ∃ newRs ∈ (recreatedRun recreatedHasty).rollout.cluster.replicasets.listOwnedBy
        d.deployMeta.uid,
      ∃ oldRs ∈ (recreatedRun recreatedHasty).rollout.cluster.replicasets.listOwnedBy
        d.deployMeta.uid,
      Deployment.isNew (templateHash d.spec.template) newRs ∧
        ¬ Deployment.isNew (templateHash d.spec.template) oldRs ∧
        Up (recreatedRun recreatedHasty).rollout.cluster.pods newRs ∧
        Up (recreatedRun recreatedHasty).rollout.cluster.pods oldRs := by decide
  obtain ⟨d, hd, newRs, hnew, oldRs, hold, hisNew, hisOld, hnewUp, holdUp⟩ := hover
  have hbefore := hall _ _ _ h₃ (key newRs) (key oldRs)
    ⟨newRs, oldRs, d, rfl, rfl, hd, hnew, hold, hisNew, hisOld, hnewUp, holdUp⟩
  rw [Traced.atChange_same (by decide), Traced.atChange_changed (by decide)]
    at hbefore
  -- when the template changed there was no replica set for it
  have hnone : ∀ d ∈ (recreatedRun (recreatedHasty.take 2)).rollout.cluster.deployments.get
        "prod/web",
      ∀ r ∈ (recreatedRun (recreatedHasty.take 2)).rollout.cluster.replicasets.list,
        ¬ Deployment.isNew (templateHash d.spec.template) r := by decide
  obtain ⟨newRs', oldRs', d', -, -, hover⟩ := hbefore
  exact hnone d' hover.deployment newRs' (List.mem_filter.mp hover.newOwned).1 hover.isNew

end Rollout

end CaveHome.ControllerManager
