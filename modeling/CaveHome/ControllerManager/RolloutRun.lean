import CaveHome.ControllerManager.Rollout

/-!
# Runs of a rollout

One deployment, whose template and replicas are edited from time to time, and the two controllers
and the kubelet, which take their turns in any order.
-/

namespace CaveHome.ControllerManager

/-! ## Reconciling the deployment -/

namespace Deployment

/-- A deployment that the controllers work on. -/
structure Valid (d : Deployment) : Prop where
  live : d.deployMeta.isTerminating = false
  sorted : BTreeMap.Sorted d.spec.selector
  selects : selectorMatches d.spec.selector d.spec.template.labels
  inRange : Deployment.InRange d.spec.replicas

/-- The same deployment, apart from its template, its replicas and its status. -/
structure Like (d₀ d : Deployment) : Prop where
  deployMeta : d.deployMeta = d₀.deployMeta
  selector : d.spec.selector = d₀.spec.selector
  strategy : d.spec.strategy = d₀.spec.strategy

variable {d : Deployment} {rss : Api ReplicaSet}

theorem selects_newReplicaSet (hd : d.Valid) (hash : String) :
    selectorMatches (d.newReplicaSet hash).spec.selector
      (d.newReplicaSet hash).spec.template.labels := by
  rw [selectorMatches, List.all_eq_true]
  intro e he
  have hget := (hd.sorted.insert podTemplateHash hash).mem_iff.mp he
  have hmatch := List.all_eq_true.mp hd.selects
  rw [BTreeMap.get_insert] at hget
  refine decide_eq_true ?_
  change BTreeMap.get e.1 (BTreeMap.insert podTemplateHash hash d.spec.template.labels) = _
  rw [BTreeMap.get_insert]
  split at hget
  next hkey => rw [if_pos hkey, hget]
  next hkey =>
    rw [if_neg hkey]
    simpa using hmatch e (hd.sorted.mem_iff.mpr hget)

/-- What a reconcile finds: the replica set of the current template, which is there already or was
just made. -/
structure Prepared (d : Deployment) (rss : Api ReplicaSet) : Prop where
  list : (d.prepared rss).2.list.Perm ((d.prepared rss).1 :: d.oldSets rss)
  isNew : isNew (templateHash d.spec.template) (d.prepared rss).1
  isOld : ∀ r ∈ d.oldSets rss, ¬ Deployment.isNew (templateHash d.spec.template) r
  sets : OwnedSets d.deployMeta (d.prepared rss).2
  found : (d.prepared rss).2 = rss ∨
    ((d.prepared rss).2.list.Perm ((d.prepared rss).1 :: rss.list) ∧
      (d.prepared rss).1.spec.replicas = 0 ∧ (d.prepared rss).1.status = {})

theorem eq_of_isNew (hs : OwnedSets d.deployMeta rss) {hash : String} {r r' : ReplicaSet}
    (hr : r ∈ rss.list) (hr' : r' ∈ rss.list) (hnew : isNew hash r)
    (hnew' : isNew hash r') : r = r' := by
  have hkey : key r = key r' := (hs.key_eq hr hnew).trans (hs.key_eq hr' hnew').symm
  have hget := Api.mem_list.mp hr
  rw [hkey, Api.mem_list.mp hr'] at hget
  exact (Option.some.inj hget).symm

theorem prepared_found (hs : OwnedSets d.deployMeta rss) {r : ReplicaSet} (hr : r ∈ rss.list)
    (hnew : isNew (templateHash d.spec.template) r) :
    rss.list.Perm (r :: d.oldSets rss) := by
  have hnodup : rss.list.Nodup := List.Nodup.of_map _ hs.uids
  have holds : d.oldSets rss = rss.list.erase r := by
    rw [oldSets, hs.listOwnedBy, hnodup.erase_eq_filter]
    refine List.filter_congr fun r' hr' => ?_
    rw [Bool.not_eq_eq_eq_not, Bool.eq_iff_iff]
    by_cases heq : r' = r
    · simp [heq, hnew]
    · have : ¬ isNew (templateHash d.spec.template) r' :=
        fun h => heq (eq_of_isNew hs hr' hr h hnew)
      simp [heq, this]
  rw [holds]
  exact List.perm_cons_erase hr

theorem ownedSets_create (hd : d.Valid) (hs : OwnedSets d.deployMeta rss)
    (hnone : ∀ r ∈ rss.list, ¬ isNew (templateHash d.spec.template) r) :
    (rss.create (d.newReplicaSet (templateHash d.spec.template))).list.Perm
        (rss.stamped (d.newReplicaSet (templateHash d.spec.template)) :: rss.list) ∧
      OwnedSets d.deployMeta (rss.create (d.newReplicaSet (templateHash d.spec.template))) := by
  set hash := templateHash d.spec.template
  set newRs := d.newReplicaSet hash
  have hfree : rss.get (key newRs) = none := by
    rw [Option.eq_none_iff_forall_ne_some]
    intro r hget
    have hr : r ∈ rss.list := Api.mem_list.mpr (Api.key_of_get hget ▸ hget)
    obtain ⟨hash', hlabel, -⟩ := (hs.madeFor r hr).named
    have hlabelled : isNew hash' r := by simpa [isNew] using hlabel
    have hkey := (hs.key_eq hr hlabelled).symm.trans (Api.key_of_get hget)
    have hhash : hash' = hash := (String.append_right_inj _).mp (keyOf_injective _ hkey)
    exact hnone r hr (by simpa [isNew, hhash] using hlabel)
  have hperm : (rss.create newRs).list.Perm (rss.stamped newRs :: rss.list) := by
    have hupsert := rss.store.list_upsert_perm (rss.stamped newRs)
    rw [Api.key_stamped, Store.list_remove_of_get_none hfree] at hupsert
    exact hupsert
  have huid : (rss.stamped newRs).rsMeta.uid = rss.kind ++ "-" ++ padded (rss.seq + 1) := rfl
  have hseq : (rss.create newRs).seq = rss.seq + 1 := rfl
  refine ⟨hperm, fun r hr => ?_, ?_⟩
  · rw [hseq]
    rcases List.mem_cons.mp (hperm.mem_iff.mp hr) with rfl | hr
    · exact
        { named := ⟨hash, BTreeMap.get_insert_self _ _ _, rfl⟩
          sameNamespace := rfl
          owned := by
            change (d.newReplicaSet hash).rsMeta.ownerReferences.any _ = true
            simp [Deployment.newReplicaSet, OwnerReference.to, OwnerReference.controlling,
              OwnerReference.blocking]
          live := rfl
          numbered := ⟨rss.seq + 1, le_rfl, rfl⟩
          selects := selects_newReplicaSet hd hash
          nonneg := le_rfl
          inRange := show (0 : Int) ≤ I32.maxValue by decide }
    · obtain ⟨n, hn, hname⟩ := (hs.madeFor r hr).numbered
      exact { hs.madeFor r hr with numbered := ⟨n, Nat.le_succ_of_le hn, hname⟩ }
  · refine (hperm.map (·.rsMeta.uid)).nodup_iff.mpr (List.nodup_cons.mpr ⟨?_, hs.uids⟩)
    intro hmem
    obtain ⟨r, hr, heq⟩ := List.mem_map.mp hmem
    obtain ⟨n, hn, hname⟩ := (hs.madeFor r hr).numbered
    have hnumber : n = rss.seq + 1 :=
      padded_injective ((String.append_right_inj _).mp (hname.symm.trans (heq.trans huid)))
    omega

theorem prepared_spec (hd : d.Valid) (hs : OwnedSets d.deployMeta rss) : d.Prepared rss := by
  have hold : ∀ r ∈ d.oldSets rss, ¬ isNew (templateHash d.spec.template) r := by
    intro r hr
    simpa using (List.mem_filter.mp hr).2
  cases hfind : rss.list.find? (isNew (templateHash d.spec.template)) with
  | some r =>
    have heq : d.prepared rss = (r, rss) := by
      rw [Deployment.prepared, hs.listOwnedBy, hfind]
    have hr := List.mem_of_find?_eq_some hfind
    have hnew := List.find?_some hfind
    refine ⟨?_, ?_, hold, ?_, ?_⟩ <;> rw [heq]
    · exact prepared_found hs hr hnew
    · exact hnew
    · exact hs
    · exact Or.inl rfl
  | none =>
    have heq : d.prepared rss = (rss.stamped (d.newReplicaSet (templateHash d.spec.template)),
        rss.create (d.newReplicaSet (templateHash d.spec.template))) := by
      rw [Deployment.prepared, hs.listOwnedBy, hfind]
    have hnone : ∀ r ∈ rss.list, ¬ isNew (templateHash d.spec.template) r := by
      simpa using hfind
    have holds : d.oldSets rss = rss.list := by
      rw [oldSets, hs.listOwnedBy]
      exact List.filter_eq_self.mpr fun r hr => by simpa using hnone r hr
    obtain ⟨hperm, hsets⟩ := ownedSets_create hd hs hnone
    refine ⟨?_, ?_, hold, ?_, ?_⟩ <;> rw [heq]
    · rw [holds]
      exact hperm
    · rw [isNew, decide_eq_true_eq]
      exact BTreeMap.get_insert_self _ _ _
    · exact hsets
    · exact Or.inr ⟨hperm, rfl, rfl⟩

/-- The status that the controller writes. -/
def observed (d : Deployment) (rss : Api ReplicaSet) : DeploymentStatus :=
  let owned := rss.listOwnedBy d.deployMeta.uid
  { replicas := sumI32 (owned.map (·.status.replicas))
    updatedReplicas := sumI32
      ((owned.filter (Deployment.isNew (templateHash d.spec.template))).map (·.status.replicas))
    readyReplicas := sumI32 (owned.map (·.status.readyReplicas))
    availableReplicas := sumI32 (owned.map (·.status.availableReplicas)) }

theorem reconcile_eq {k : String} {c : Cluster} (hget : c.deployments.get k = some d)
    (hd : d.Valid) :
    reconcile k c = { c with
      replicasets := d.reconcileReplicaSets c.replicasets
      deployments := c.deployments.update
        { d with status := d.observed (d.reconcileReplicaSets c.replicasets) } } := by
  rw [reconcile, hget]
  dsimp only
  rw [if_neg (by simp [hd.live]), writeStatus, Api.key_of_get hget]
  dsimp only
  rw [hget]
  rfl

theorem Rescales.edits {rss' : Api ReplicaSet} {ts : List (ReplicaSet × Int)}
    (h : Rescales rss rss' ts) :
    Edits rss rss' (ts.map fun t => (t.1, t.1.scaled t.2)) where
  before := by simpa [Function.comp_def] using h.before
  after := by simpa [Function.comp_def] using h.after
  same e he := by
    obtain ⟨t, -, rfl⟩ := List.mem_map.mp he
    exact t.1.same_scaled t.2
  seq_eq := h.seq_eq
  kind_eq := h.kind_eq

theorem Prepared.countP_eq_zero {podSeq : Nat} {pods : Api Pod} (h : d.Prepared rss)
    (hp : OwnedPods rss podSeq pods)
    (hperm : (d.prepared rss).2.list.Perm ((d.prepared rss).1 :: rss.list)) :
    pods.list.countP (ReplicaSet.counts (d.prepared rss).1.rsMeta.uid) = 0 := by
  have huids := (hperm.map (·.rsMeta.uid)).nodup_iff.mp h.sets.uids
  refine List.countP_eq_zero.mpr fun p hmem => ?_
  obtain ⟨r', hr', hmade⟩ := hp.madeBy p hmem
  rw [hmade.counts_iff]
  intro heq
  have hmem := List.mem_map_of_mem (f := fun r => r.rsMeta.uid) hr'
  rw [heq] at hmem
  exact (List.nodup_cons.mp huids).1 hmem

theorem Prepared.ownedPods {podSeq : Nat} {pods : Api Pod} (h : d.Prepared rss)
    (hp : OwnedPods rss podSeq pods) : OwnedPods (d.prepared rss).2 podSeq pods := by
  rcases h.found with heq | ⟨hperm, -⟩
  · rw [heq]
    exact hp
  · refine ⟨fun p hmem => ?_, fun r hr => ?_⟩
    · obtain ⟨r, hr, hmade⟩ := hp.madeBy p hmem
      exact ⟨r, hperm.mem_iff.mpr (List.mem_cons_of_mem _ hr), hmade⟩
    · rcases List.mem_cons.mp (hperm.mem_iff.mp hr) with rfl | hold
      · rw [h.countP_eq_zero hp hperm]
        decide
      · exact hp.countable r hold

theorem rescales (hd : d.Valid) (hs : OwnedSets d.deployMeta rss) :
    Rescales (d.prepared rss).2 (d.reconcileReplicaSets rss)
      (d.targets (d.prepared rss).1 (d.oldSets rss)) :=
  d.reconcileReplicaSets_rescales (prepared_spec hd hs).list

theorem ownedSets_reconcile (hd : d.Valid) (hs : OwnedSets d.deployMeta rss) :
    OwnedSets d.deployMeta (d.reconcileReplicaSets rss) := by
  have hprep := prepared_spec hd hs
  have hrange : ∀ r ∈ (d.prepared rss).2.list, InRange r.spec.replicas := fun r hr =>
    ⟨(hprep.sets.madeFor r hr).nonneg, (hprep.sets.madeFor r hr).inRange⟩
  refine hprep.sets.edits (rescales hd hs).edits fun e he => ?_
  obtain ⟨t, ht, rfl⟩ := List.mem_map.mp he
  refine d.inRange_targets hd.inRange ?_ ?_ t ht
  · exact hrange _ (hprep.list.mem_iff.mpr List.mem_cons_self)
  · exact fun r hr => hrange r (hprep.list.mem_iff.mpr (List.mem_cons_of_mem _ hr))

end Deployment

/-- The counter of the replica set controller, and the cluster. -/
structure Rollout where
  podSeq : Nat
  cluster : Cluster

namespace Rollout

inductive Step
  | reconcileDeployment
  | reconcileReplicaSet (k : String)
  | startPod (k : String)
  | setTemplate (template : PodTemplateSpec)
  | setReplicas (replicas : Int)

/-- Edit what the deployment wants. -/
def edit (k : String) (f : DeploymentSpec → DeploymentSpec) (c : Cluster) : Cluster :=
  match c.deployments.get k with
  | none => c
  | some d => { c with deployments := c.deployments.update { d with spec := f d.spec } }

/-- The kubelet starts one pod. -/
def admitPod (k : String) (pods : Api Pod) : Api Pod :=
  match pods.get k with
  | none => pods
  | some p => pods.update p.admitted

/-- A step of the rollout of the deployment with the key. -/
def step (k : String) (s : Rollout) : Step → Rollout
  | .reconcileDeployment => { s with cluster := Deployment.reconcile k s.cluster }
  | .reconcileReplicaSet rsKey =>
    let (podSeq, cluster) := ReplicaSet.reconcile rsKey s.podSeq s.cluster
    { podSeq, cluster }
  | .startPod podKey => { s with cluster := { s.cluster with pods := admitPod podKey s.cluster.pods } }
  | .setTemplate template => { s with cluster := edit k ({ · with template }) s.cluster }
  | .setReplicas replicas => { s with cluster := edit k ({ · with replicas }) s.cluster }

def run (k : String) (s : Rollout) (steps : List Step) : Rollout := steps.foldl (step k) s

/-- What an edit may ask for: a template that the selector matches, and replicas in range. -/
def Step.Legal (selector : LabelSelector) : Step → Prop
  | .setTemplate template => selectorMatches selector template.labels
  | .setReplicas replicas => Deployment.InRange replicas
  | _ => True

/-! ## What every run keeps -/

structure Wf (k : String) (d₀ : Deployment) (s : Rollout) : Prop where
  deployment : ∃ d, s.cluster.deployments.get k = some d ∧ d₀.Like d ∧ d.Valid
  sets : OwnedSets d₀.deployMeta s.cluster.replicasets
  pods : OwnedPods s.cluster.replicasets s.podSeq s.cluster.pods

/-- At the start the deployment was just created. -/
structure Fresh (k : String) (d₀ : Deployment) (s : Rollout) : Prop where
  deployment : s.cluster.deployments.get k = some d₀
  valid : d₀.Valid
  noSets : s.cluster.replicasets.list = []
  noPods : s.cluster.pods.list = []

theorem Fresh.wf {k : String} {d₀ : Deployment} {s : Rollout} (h : Fresh k d₀ s) : Wf k d₀ s where
  deployment := ⟨d₀, h.deployment, ⟨rfl, rfl, rfl⟩, h.valid⟩
  sets := ⟨by simp [h.noSets], by simp [h.noSets]⟩
  pods := ⟨by simp [h.noPods], by simp [h.noSets]⟩

theorem admits_admitPod (k : String) (pods : Api Pod) :
    Admits (fun p => if key p = k then p.admitted else p) pods (admitPod k pods) := by
  refine ⟨Store.list_eq_map fun k' => ?_, fun p => ?_⟩
  · change (admitPod k pods).get k' = (pods.get k').map _
    rw [admitPod]
    cases hget : pods.get k with
    | none =>
      dsimp only
      cases hget' : pods.get k' with
      | none => rfl
      | some p =>
        have hne : key p ≠ k := by
          rintro rfl
          rw [Api.key_of_get hget', hget'] at hget
          cases hget
        rw [Option.map_some, if_neg hne]
    | some p =>
      have hkey := Api.key_of_get hget
      dsimp only
      rw [Api.get_update, key_admitted, hkey]
      split
      next heq => rw [heq, hget, Option.map_some, if_pos hkey]
      next hne =>
        cases hget' : pods.get k' with
        | none => rfl
        | some p' => rw [Option.map_some, if_neg (Api.key_of_get hget' ▸ hne)]
  · split
    · exact Or.inr rfl
    · exact Or.inl rfl

/-! ## Every step keeps it -/

section Steps

variable {k : String} {d₀ : Deployment} {s : Rollout}

theorem Wf.reconcileDeployment (h : Wf k d₀ s) : Wf k d₀ (s.step k .reconcileDeployment) := by
  obtain ⟨d, hget, hlike, hd⟩ := h.deployment
  have heq := Deployment.reconcile_eq hget hd
  have hs : OwnedSets d.deployMeta s.cluster.replicasets := hlike.deployMeta ▸ h.sets
  have hprep := Deployment.prepared_spec hd hs
  set status := d.observed (d.reconcileReplicaSets s.cluster.replicasets)
  have hkey : key { d with status } = k := (rfl : _ = key d).trans (Api.key_of_get hget)
  rw [step, heq]
  refine ⟨⟨{ d with status }, ?_, ⟨hlike.deployMeta, hlike.selector, hlike.strategy⟩,
    ⟨hd.live, hd.sorted, hd.selects, hd.inRange⟩⟩, ?_, ?_⟩
  · rw [Api.get_update, if_pos hkey.symm]
  · exact hlike.deployMeta ▸ Deployment.ownedSets_reconcile hd hs
  · exact (hprep.ownedPods h.pods).edits (Deployment.rescales hd hs).edits

theorem Wf.reconcileReplicaSet (h : Wf k d₀ s) (rsKey : String) :
    Wf k d₀ (s.step k (.reconcileReplicaSet rsKey)) := by
  cases hget : s.cluster.replicasets.get rsKey with
  | none =>
    rw [step, ReplicaSet.reconcile, hget]
    exact h
  | some r =>
    have hr : r ∈ s.cluster.replicasets.list := Api.mem_list.mpr (Api.key_of_get hget ▸ hget)
    obtain ⟨podSeq', pods', hscales, heq⟩ := reconcile_replicaSet h.sets h.pods hget
    obtain ⟨rest, hperm, hedits⟩ := edits_status hr (observed pods' r.rsMeta.uid)
    rw [step, heq]
    refine ⟨h.deployment, h.sets.edits hedits fun e he => ?_, ?_⟩
    · have hmade : ∀ r' ∈ s.cluster.replicasets.list, Deployment.InRange r'.spec.replicas :=
        fun r' hr' => ⟨(h.sets.madeFor r' hr').nonneg, (h.sets.madeFor r' hr').inRange⟩
      rcases List.mem_cons.mp he with rfl | he
      · exact hmade r hr
      · obtain ⟨r', hr', rfl⟩ := List.mem_map.mp he
        exact hmade r' (hperm.mem_iff.mpr (List.mem_cons_of_mem _ hr'))
    · exact (h.pods.scaled h.sets hr hscales).edits hedits

theorem Wf.startPod (h : Wf k d₀ s) (podKey : String) : Wf k d₀ (s.step k (.startPod podKey)) :=
  ⟨h.deployment, h.sets, h.pods.admits (admits_admitPod podKey s.cluster.pods)⟩

theorem edit_eq {f : DeploymentSpec → DeploymentSpec} {c : Cluster} {d : Deployment}
    (hget : c.deployments.get k = some d) :
    edit k f c = { c with deployments := c.deployments.update { d with spec := f d.spec } } := by
  rw [edit, hget]

theorem get_edit {f : DeploymentSpec → DeploymentSpec} {c : Cluster} {d : Deployment}
    (hget : c.deployments.get k = some d) :
    (edit k f c).deployments.get k = some { d with spec := f d.spec } := by
  have hkey : key { d with spec := f d.spec } = k :=
    (rfl : _ = key d).trans (Api.key_of_get hget)
  rw [edit_eq hget, Api.get_update, if_pos hkey.symm]

theorem Wf.edit (h : Wf k d₀ s) {f : DeploymentSpec → DeploymentSpec}
    (hf : ∀ d, d₀.Like d → d.Valid → Deployment.Like d₀ { d with spec := f d.spec } ∧
      Deployment.Valid { d with spec := f d.spec }) :
    Wf k d₀ { s with cluster := Rollout.edit k f s.cluster } := by
  obtain ⟨d, hget, hlike, hd⟩ := h.deployment
  refine ⟨⟨_, get_edit hget, hf d hlike hd⟩, ?_, ?_⟩
  · rw [edit_eq hget]
    exact h.sets
  · rw [edit_eq hget]
    exact h.pods

theorem Wf.step (h : Wf k d₀ s) {a : Step} (ha : a.Legal d₀.spec.selector) :
    Wf k d₀ (s.step k a) := by
  cases a with
  | reconcileDeployment => exact h.reconcileDeployment
  | reconcileReplicaSet rsKey => exact h.reconcileReplicaSet rsKey
  | startPod podKey => exact h.startPod podKey
  | setTemplate template =>
    refine h.edit fun d hlike hd => ⟨⟨hlike.deployMeta, hlike.selector, hlike.strategy⟩,
      ⟨hd.live, hd.sorted, ?_, hd.inRange⟩⟩
    rw [show ({ d with spec := { d.spec with template } } : Deployment).spec.selector =
      d₀.spec.selector from hlike.selector]
    exact ha
  | setReplicas replicas =>
    exact h.edit fun d hlike hd => ⟨⟨hlike.deployMeta, hlike.selector, hlike.strategy⟩,
      ⟨hd.live, hd.sorted, hd.selects, ha⟩⟩

theorem Wf.run (h : Wf k d₀ s) {steps : List Step}
    (hlegal : ∀ a ∈ steps, a.Legal d₀.spec.selector) : Wf k d₀ (s.run k steps) := by
  induction steps generalizing s with
  | nil => exact h
  | cons a steps ih =>
    obtain ⟨ha, hlegal⟩ := List.forall_mem_cons.mp hlegal
    exact ih (h.step ha) hlegal

end Steps

end Rollout

end CaveHome.ControllerManager
