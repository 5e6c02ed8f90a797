import CaveHome.ControllerManager.Deployment

/-!
# The bounds of a rolling update

One reconcile keeps the replicas that are wanted within the surge and takes no more of them away
than there are available beyond the minimum.  Other replica sets may be in the store.
-/

namespace CaveHome.ControllerManager

namespace Deployment

variable {rss rss' : Api ReplicaSet} {ts : List (ReplicaSet × Int)} {newRs : ReplicaSet}
  {oldRs rest : List ReplicaSet} (d : Deployment)

/-! ## Numbers -/

/-- The pods that are available together. -/
def availableOf (l : List ReplicaSet) : Int := (l.map (·.status.availableReplicas)).sum

/-- The numbers of a replica set: no more pods are available than wanted. -/
structure Counted (rs : ReplicaSet) : Prop where
  replicas : InRange rs.spec.replicas
  nonneg : 0 ≤ rs.status.availableReplicas
  le : rs.status.availableReplicas ≤ rs.spec.replicas

theorem wanted_perm {l l' : List ReplicaSet} (h : l.Perm l') : wanted l = wanted l' :=
  (h.map _).sum_eq

theorem availableOf_le {l : List ReplicaSet} (h : ∀ rs ∈ l, Counted rs) :
    0 ≤ availableOf l ∧ availableOf l ≤ wanted l := by
  refine ⟨List.sum_nonneg fun n hn => ?_, List.sum_le_sum fun rs hrs => (h rs hrs).le⟩
  obtain ⟨rs, hrs, rfl⟩ := List.mem_map.mp hn
  exact (h rs hrs).nonneg

/-- No sum of a reconcile leaves the range. -/
structure NoOverflow (maxUnavailable maxSurge : Int) (newRs : ReplicaSet)
    (oldRs : List ReplicaSet) : Prop where
  old : wanted oldRs ≤ I32.maxValue
  total : wanted oldRs ≠ 0 → wanted oldRs + newRs.spec.replicas ≤ I32.maxValue
  surge : wanted oldRs ≠ 0 → d.spec.replicas + maxSurge ≤ I32.maxValue
  budget : wanted oldRs ≠ 0 → -2147483648 ≤
    availableOf oldRs + newRs.status.availableReplicas - max (d.spec.replicas - maxUnavailable) 0 -
      max (d.newReplicas maxSurge newRs oldRs - newRs.status.availableReplicas) 0

variable {d} {maxUnavailable maxSurge : Int}

theorem sumI32_available {l : List ReplicaSet} (h : ∀ rs ∈ l, Counted rs)
    (hfits : wanted l ≤ I32.maxValue) :
    sumI32 (l.map (·.status.availableReplicas)) = availableOf l := by
  obtain ⟨hnonneg, hle⟩ := availableOf_le h
  exact I32.wrap_eq ((by decide : (-2147483648 : Int) ≤ 0).trans hnonneg) (hle.trans hfits)

theorem cutBudget_eq (hd : InRange d.spec.replicas) (hunavailable : InRange maxUnavailable)
    (hnew : Counted newRs) (hold : ∀ rs ∈ oldRs, Counted rs)
    (hfits : d.NoOverflow maxUnavailable maxSurge newRs oldRs) (hpos : wanted oldRs ≠ 0) :
    d.cutBudget maxUnavailable (d.newReplicas maxSurge newRs oldRs) newRs oldRs =
      availableOf oldRs + newRs.status.availableReplicas -
        max (d.spec.replicas - maxUnavailable) 0 -
          max (d.newReplicas maxSurge newRs oldRs - newRs.status.availableReplicas) 0 := by
  have hmem := d.newReplicas_mem maxSurge hd hnew.replicas oldRs
  obtain ⟨hnonneg, hle⟩ := availableOf_le hold
  have htotal := hfits.total hpos
  have hbudget := hfits.budget hpos
  have hcount := hnew.le
  have hcount' := hnew.nonneg
  have hrange := hnew.replicas
  rw [cutBudget, sumI32_available hold hfits.old]
  unfold InRange I32.wrap I32.maxValue at *
  omega

theorem cuts_ge {olds : List ReplicaSet} {budget : Int} (hbudget : budget ≤ I32.maxValue)
    (h : ∀ rs ∈ olds, InRange rs.spec.replicas) :
    (∀ t ∈ cuts olds budget, t.2 ≤ t.1.spec.replicas) ∧
      wanted olds - max budget 0 ≤ ((cuts olds budget).map Prod.snd).sum := by
  induction olds generalizing budget with
  | nil => exact ⟨by simp [cuts], by simp [cuts, wanted]⟩
  | cons rs olds ih =>
    have hrs := h rs List.mem_cons_self
    have htail := fun rs' hrs' => h rs' (List.mem_cons_of_mem rs hrs')
    have hwanted : wanted (rs :: olds) = rs.spec.replicas + wanted olds := List.sum_cons
    rw [cuts]
    split
    next hzero =>
      rw [sum_asIs]
      refine ⟨fun t ht => ?_, by omega⟩
      obtain ⟨rs', -, rfl⟩ := List.mem_map.mp ht
      exact le_rfl
    next hpos =>
      dsimp only
      unfold InRange at hrs
      split
      next hdec =>
        have hcut : I32.wrap (rs.spec.replicas - min rs.spec.replicas budget) =
            rs.spec.replicas - min rs.spec.replicas budget :=
          I32.wrap_eq (by omega) (by unfold I32.maxValue at *; omega)
        have hrest : I32.wrap (budget - min rs.spec.replicas budget) =
            budget - min rs.spec.replicas budget :=
          I32.wrap_eq (by omega) (by unfold I32.maxValue at *; omega)
        rw [hcut, hrest, List.forall_mem_cons, List.map_cons, List.sum_cons, hwanted]
        have hleft : budget - min rs.spec.replicas budget ≤ I32.maxValue := by omega
        obtain ⟨heach, hsum⟩ := ih hleft htail
        exact ⟨⟨by dsimp only; omega, heach⟩, by dsimp only; omega⟩
      next hdec =>
        obtain ⟨heach, hsum⟩ := ih hbudget htail
        rw [List.forall_mem_cons, List.map_cons, List.sum_cons, hwanted]
        exact ⟨⟨le_rfl, heach⟩, by dsimp only [ReplicaSet.asIs]; omega⟩

theorem oldTargets_ge (hold : ∀ rs ∈ oldRs, InRange rs.spec.replicas) (newRs : ReplicaSet)
    (maxUnavailable maxSurge : Int) :
    (∀ t ∈ d.oldTargets maxUnavailable maxSurge newRs oldRs, t.2 ≤ t.1.spec.replicas) ∧
      wanted oldRs -
          max (d.cutBudget maxUnavailable (d.newReplicas maxSurge newRs oldRs) newRs oldRs) 0 ≤
        ((d.oldTargets maxUnavailable maxSurge newRs oldRs).map Prod.snd).sum := by
  let olds := oldRs.insertionSort fun a b => b.spec.replicas ≤ a.spec.replicas
  have hperm : olds.Perm oldRs := List.perm_insertionSort _ _
  have hwanted : wanted olds = wanted oldRs := wanted_perm hperm
  have hrange : ∀ rs ∈ olds, InRange rs.spec.replicas := fun rs hrs => hold rs (hperm.subset hrs)
  have hbudget : d.cutBudget maxUnavailable (d.newReplicas maxSurge newRs oldRs) newRs oldRs ≤
      I32.maxValue := by
    unfold cutBudget I32.wrap I32.maxValue
    dsimp only
    omega
  rw [oldTargets]
  split
  · rw [← hwanted]
    exact cuts_ge hbudget hrange
  next hzero =>
    rw [sum_asIs]
    refine ⟨fun t ht => ?_, ?_⟩
    · obtain ⟨rs, -, rfl⟩ := List.mem_map.mp ht
      exact le_rfl
    · change _ ≤ wanted olds
      omega

/-! ## The replica sets of the deployment -/

/-- The replica sets of the deployment in the store, as it was found. -/
def ownedSets (d : Deployment) (rss : Api ReplicaSet) : List ReplicaSet :=
  rss.listOwnedBy d.deployMeta.uid

/-- One replica set at most is of the current template; if none is, the key of the one to make is
not taken by an owned one. -/
structure Distinct (d : Deployment) (rss : Api ReplicaSet) : Prop where
  one : ((d.ownedSets rss).filter (isNew (templateHash d.spec.template))).length ≤ 1
  free : (d.ownedSets rss).filter (isNew (templateHash d.spec.template)) = [] →
    ∀ rs ∈ d.ownedSets rss, key rs ≠ key (d.newReplicaSet (templateHash d.spec.template))

/-- A store that has the replica sets of the deployment, and others. -/
structure Holds (d : Deployment) (rss : Api ReplicaSet) (sets rest : List ReplicaSet) : Prop where
  list : rss.list.Perm (sets ++ rest)
  owned : ∀ rs ∈ sets, Api.ownedBy d.deployMeta.uid rs = true
  others : ∀ rs ∈ rest, Api.ownedBy d.deployMeta.uid rs = false

theorem Holds.listOwnedBy {sets : List ReplicaSet} (h : d.Holds rss sets rest) :
    (d.ownedSets rss).Perm sets := by
  have hfilter := h.list.filter (Api.ownedBy d.deployMeta.uid)
  have hrest : rest.filter (Api.ownedBy d.deployMeta.uid) = [] := by
    rw [List.filter_eq_nil_iff]
    intro rs hrs
    rw [h.others rs hrs]
    exact Bool.false_ne_true
  rw [List.filter_append, hrest, List.append_nil, List.filter_eq_self.mpr h.owned] at hfilter
  exact hfilter

theorem exists_holds (rss : Api ReplicaSet) {sets : List ReplicaSet}
    (h : (d.ownedSets rss).Perm sets) : ∃ rest, d.Holds rss sets rest := by
  refine ⟨rss.list.filter fun rs => !Api.ownedBy d.deployMeta.uid rs, ?_, fun rs hrs => ?_, ?_⟩
  · have hsplit := List.filter_append_perm (Api.ownedBy d.deployMeta.uid) rss.list
    exact hsplit.symm.trans (h.append_right _)
  · exact (List.mem_filter.mp (h.mem_iff.mpr hrs)).2
  · intro rs hrs
    simpa using (List.mem_filter.mp hrs).2

theorem ownedSets_create_perm {hash : String}
    (hfree : ∀ rs ∈ d.ownedSets rss, key rs ≠ key (d.newReplicaSet hash)) :
    (d.ownedSets (rss.create (d.newReplicaSet hash))).Perm
      (rss.stamped (d.newReplicaSet hash) :: d.ownedSets rss) := by
  let newRs := d.newReplicaSet hash
  have hcreate : (rss.create newRs).list.Perm
      (rss.stamped newRs :: (rss.store.remove (key newRs)).list) := by
    have hupsert := rss.store.list_upsert_perm (rss.stamped newRs)
    rwa [Api.key_stamped] at hupsert
  have howned : Api.ownedBy d.deployMeta.uid (rss.stamped newRs) = true := by
    change ((true && d.deployMeta.uid == d.deployMeta.uid) || false) = true
    rw [beq_self_eq_true]
    rfl
  have hrest : ((rss.store.remove (key newRs)).list.filter
      (Api.ownedBy d.deployMeta.uid)).Perm (d.ownedSets rss) := by
    cases hget : rss.get (key newRs) with
    | none => rw [Store.list_remove_of_get_none hget]; rfl
    | some old =>
      -- what is replaced is not owned
      have hkey := Api.key_of_get hget
      have hnot : Api.ownedBy d.deployMeta.uid old = false := by
        by_contra hold
        rw [Bool.not_eq_false] at hold
        exact hfree old (Api.mem_listOwnedBy.mpr ⟨hkey ▸ hget, hold⟩) hkey
      have hperm := (Store.list_perm_remove hget).filter (Api.ownedBy d.deployMeta.uid)
      rw [List.filter_cons_of_neg (by rw [hnot]; exact Bool.false_ne_true)] at hperm
      exact hperm.symm
  have hfilter := hcreate.filter (Api.ownedBy d.deployMeta.uid)
  rw [List.filter_cons_of_pos howned] at hfilter
  exact hfilter.trans (hrest.cons _)

theorem ownedSets_cases (hdistinct : d.Distinct rss) :
    ((d.prepared rss).2 = rss ∧ (d.ownedSets rss).Perm ((d.prepared rss).1 :: d.oldSets rss)) ∨
      d.ownedSets rss = d.oldSets rss ∧
        (d.ownedSets (d.prepared rss).2).Perm ((d.prepared rss).1 :: d.oldSets rss) ∧
        (d.prepared rss).1.spec.replicas = 0 ∧ (d.prepared rss).1.status.availableReplicas = 0 := by
  let hash := templateHash d.spec.template
  cases hfind : (d.ownedSets rss).find? (isNew hash) with
  | some rs =>
    have hprepared : d.prepared rss = (rs, rss) := by
      rw [ownedSets] at hfind
      simp only [prepared, hash, hfind] at hfind ⊢
    have hmem : rs ∈ (d.ownedSets rss).filter (isNew hash) :=
      List.mem_filter.mpr ⟨List.mem_of_find?_eq_some hfind, List.find?_some hfind⟩
    have hnew : (d.ownedSets rss).filter (isNew hash) = [rs] := by
      obtain ⟨rs', hrs'⟩ := List.length_eq_one_iff.mp
        (le_antisymm hdistinct.one (List.length_pos_of_mem hmem))
      rw [hrs'] at hmem ⊢
      rw [List.mem_singleton.mp hmem]
    refine .inl ⟨by rw [hprepared], ?_⟩
    have hsplit := List.filter_append_perm (isNew hash) (d.ownedSets rss)
    rw [hnew] at hsplit
    rw [hprepared]
    exact hsplit.symm
  | none =>
    have hprepared : d.prepared rss =
        (rss.stamped (d.newReplicaSet hash), rss.create (d.newReplicaSet hash)) := by
      rw [ownedSets] at hfind
      simp only [prepared, hash, hfind] at hfind ⊢
    have hnone : ∀ rs ∈ d.ownedSets rss, isNew hash rs = false := by
      intro rs hrs
      simpa using List.find?_eq_none.mp hfind rs hrs
    have hold : d.oldSets rss = d.ownedSets rss := by
      refine List.filter_eq_self.mpr fun rs hrs => ?_
      rw [hnone rs hrs]
      rfl
    have hfree := hdistinct.free (List.filter_eq_nil_iff.mpr fun rs hrs => by
      rw [hnone rs hrs]
      exact Bool.false_ne_true)
    refine .inr ⟨hold.symm, ?_, ?_⟩
    · rw [hprepared, hold]
      exact ownedSets_create_perm hfree
    · rw [hprepared]
      exact ⟨rfl, rfl⟩

theorem exists_holds_prepared (hdistinct : d.Distinct rss) :
    ∃ rest, d.Holds (d.prepared rss).2 ((d.prepared rss).1 :: d.oldSets rss) rest := by
  rcases ownedSets_cases hdistinct with ⟨heq, hperm⟩ | ⟨-, hperm, -⟩
  · exact exists_holds _ (heq.symm ▸ hperm)
  · exact exists_holds _ hperm

theorem sum_ownedSets (hdistinct : d.Distinct rss) (f : ReplicaSet → Int)
    (hzero : (d.prepared rss).1.spec.replicas = 0 →
      (d.prepared rss).1.status.availableReplicas = 0 → f (d.prepared rss).1 = 0) :
    ((d.ownedSets rss).map f).sum =
      f (d.prepared rss).1 + ((d.oldSets rss).map f).sum := by
  rcases ownedSets_cases hdistinct with ⟨-, hperm⟩ | ⟨heq, -, hreplicas, havailable⟩
  · rw [(hperm.map f).sum_eq, List.map_cons, List.sum_cons]
  · rw [heq, hzero hreplicas havailable, zero_add]

/-! ## Scaling them -/

theorem Holds.rescale (h : d.Holds rss (ts.map Prod.fst) rest) :
    d.Holds (Deployment.rescale ts rss) (ts.map fun t => t.1.scaled t.2) rest where
  list := list_rescale ts rest h.list
  owned rs hrs := by
    obtain ⟨t, ht, rfl⟩ := List.mem_map.mp hrs
    exact h.owned t.1 (List.mem_map_of_mem ht)
  others := h.others

theorem Holds.get_rescale (h : d.Holds rss (ts.map Prod.fst) rest) {t : ReplicaSet × Int}
    (ht : t ∈ ts) : (Deployment.rescale ts rss).get (key t.1) = some (t.1.scaled t.2) := by
  have hmem := h.rescale.list.mem_iff.mpr
    (List.mem_append_left rest (List.mem_map_of_mem (f := fun t => t.1.scaled t.2) ht))
  exact Api.mem_list.mp hmem

/-- The replicas that are taken away from the listed replica sets. -/
def removed (before : List ReplicaSet) (rss' : Api ReplicaSet) : Int :=
  (before.map fun rs =>
    max (rs.spec.replicas - ((rss'.get (key rs)).elim 0 (·.spec.replicas))) 0).sum

theorem removed_eq (h : d.Holds rss (ts.map Prod.fst) rest) :
    removed (ts.map Prod.fst) (Deployment.rescale ts rss) =
      (ts.map fun t => max (t.1.spec.replicas - t.2) 0).sum := by
  rw [removed, List.map_map]
  refine congrArg List.sum (List.map_congr_left fun t ht => ?_)
  rw [Function.comp_apply, h.get_rescale ht]
  rfl

theorem sum_shrinks {ts : List (ReplicaSet × Int)} (h : ∀ t ∈ ts, t.2 ≤ t.1.spec.replicas) :
    (ts.map fun t => max (t.1.spec.replicas - t.2) 0).sum =
      wanted (ts.map Prod.fst) - (ts.map Prod.snd).sum := by
  induction ts with
  | nil => rfl
  | cons t ts ih =>
    obtain ⟨hfirst, hrest⟩ := List.forall_mem_cons.mp h
    have hwanted : wanted ((t :: ts).map Prod.fst) = t.1.spec.replicas + wanted (ts.map Prod.fst) :=
      List.sum_cons
    rw [List.map_cons, List.sum_cons, ih hrest, hwanted, List.map_cons, List.sum_cons]
    omega

/-! ## One reconcile -/

theorem replicasets_reconcile {k : String} {c : Cluster} (hget : c.deployments.get k = some d)
    (hterm : d.deployMeta.isTerminating = false) :
    (reconcile k c).replicasets = d.reconcileReplicaSets c.replicasets := by
  have hstatus : ∀ c : Cluster, (d.writeStatus c).replicasets = c.replicasets := by
    intro c
    rw [writeStatus]
    dsimp only
    split <;> rfl
  rw [reconcile, hget]
  dsimp only
  rw [hterm]
  exact hstatus _

theorem reconcileReplicaSets_rolling (rss : Api ReplicaSet)
    (hstrategy : d.spec.strategy = .rollingUpdate maxUnavailable maxSurge) :
    d.reconcileReplicaSets rss = d.reconcileRolling (d.prepared rss).1 (d.oldSets rss)
      maxUnavailable maxSurge (d.prepared rss).2 := by
  rw [reconcileReplicaSets, prepared, hstrategy]
  dsimp only
  cases (rss.listOwnedBy d.deployMeta.uid).find? (isNew (templateHash d.spec.template)) <;> rfl

theorem Holds.perm {sets sets' : List ReplicaSet} (h : d.Holds rss sets rest)
    (hperm : sets.Perm sets') : d.Holds rss sets' rest where
  list := h.list.trans (hperm.append_right rest)
  owned rs hrs := h.owned rs (hperm.mem_iff.mpr hrs)
  others := h.others

theorem counted_prepared (hdistinct : d.Distinct rss)
    (hcounted : ∀ rs ∈ d.ownedSets rss, Counted rs) :
    Counted (d.prepared rss).1 ∧ ∀ rs ∈ d.oldSets rss, Counted rs := by
  refine ⟨?_, fun rs hrs => hcounted rs (List.mem_of_mem_filter hrs)⟩
  rcases ownedSets_cases hdistinct with ⟨-, hperm⟩ | ⟨-, -, hreplicas, havailable⟩
  · exact hcounted _ (hperm.mem_iff.mpr List.mem_cons_self)
  · exact ⟨by rw [hreplicas]; exact ⟨le_rfl, by decide⟩, havailable.ge,
      (havailable.trans hreplicas.symm).le⟩

theorem totals_rescale (hdistinct : d.Distinct rss)
    (hts : (ts.map Prod.fst).Perm ((d.prepared rss).1 :: d.oldSets rss))
    (hnonneg : ∀ t ∈ ts, 0 ≤ t.2) :
    wanted (d.ownedSets (Deployment.rescale ts (d.prepared rss).2)) = (ts.map Prod.snd).sum ∧
      removed (d.ownedSets rss) (Deployment.rescale ts (d.prepared rss).2) =
        (ts.map fun t => max (t.1.spec.replicas - t.2) 0).sum ∧
      ∀ rs ∈ d.ownedSets (Deployment.rescale ts (d.prepared rss).2), 0 ≤ rs.spec.replicas := by
  obtain ⟨rest, hholds⟩ := exists_holds_prepared hdistinct
  replace hholds := hholds.perm hts.symm
  have hafter := hholds.rescale.listOwnedBy
  refine ⟨?_, ?_, fun rs hrs => ?_⟩
  · rw [wanted, (hafter.map _).sum_eq, List.map_map]
    rfl
  · rw [← removed_eq hholds, removed, removed, (hts.map _).sum_eq, List.map_cons, List.sum_cons]
    refine sum_ownedSets hdistinct _ fun hzero _ => ?_
    -- from a new replica set nothing can be taken
    obtain ⟨t, ht, hfst⟩ := List.mem_map.mp (hts.mem_iff.mpr List.mem_cons_self)
    rw [hzero, ← hfst, hholds.get_rescale ht]
    have := hnonneg t ht
    change max (0 - t.2) 0 = 0
    omega
  · obtain ⟨t, ht, rfl⟩ := List.mem_map.mp (hafter.mem_iff.mp hrs)
    exact hnonneg t ht

/-- A reconcile of a rolling update wants no more replicas than before or than the surge allows,
takes no more of them away than are available beyond the minimum, and none is negative. -/
theorem rolling_bounds (c : Cluster) (k : String) (d : Deployment) (maxUnavailable maxSurge : Int)
    (hget : c.deployments.get k = some d) (hterm : d.deployMeta.isTerminating = false)
    (hstrategy : d.spec.strategy = .rollingUpdate maxUnavailable maxSurge)
    (hd : InRange d.spec.replicas) (hunavailable : InRange maxUnavailable)
    (hsurge : InRange maxSurge) (hcounted : ∀ rs ∈ d.ownedSets c.replicasets, Counted rs)
    (hdistinct : d.Distinct c.replicasets)
    (hfits : d.NoOverflow maxUnavailable maxSurge (d.prepared c.replicasets).1
      (d.oldSets c.replicasets)) :
    wanted (d.ownedSets (reconcile k c).replicasets) ≤
        max (wanted (d.ownedSets c.replicasets)) (d.spec.replicas + maxSurge) ∧
      (wanted (d.oldSets c.replicasets) ≠ 0 →
        removed (d.ownedSets c.replicasets) (reconcile k c).replicasets ≤
          max (availableOf (d.ownedSets c.replicasets) -
            max (d.spec.replicas - maxUnavailable) 0) 0) ∧
      ∀ rs ∈ d.ownedSets (reconcile k c).replicasets, 0 ≤ rs.spec.replicas := by
  rw [replicasets_reconcile hget hterm, reconcileReplicaSets_rolling _ hstrategy,
    reconcileRolling_eq]
  generalize hrss : c.replicasets = rss at *
  obtain ⟨hnew, hold⟩ := counted_prepared hdistinct hcounted
  have hrange : ∀ rs ∈ d.oldSets rss, InRange rs.spec.replicas :=
    fun rs hrs => (hold rs hrs).replicas
  have hwanted := wanted_nonneg hrange
  have hsum := sumI32_wanted hrange hfits.old
  have htotal : wanted (d.ownedSets rss) =
      (d.prepared rss).1.spec.replicas + wanted (d.oldSets rss) :=
    sum_ownedSets hdistinct (·.spec.replicas) fun hzero _ => hzero
  have havailable : availableOf (d.ownedSets rss) =
      (d.prepared rss).1.status.availableReplicas + availableOf (d.oldSets rss) :=
    sum_ownedSets hdistinct (·.status.availableReplicas) fun _ hzero => hzero
  have hfst := d.map_fst_rollingTargets maxUnavailable maxSurge (d.prepared rss).1 (d.oldSets rss)
  by_cases hzero : wanted (d.oldSets rss) = 0
  · rw [hsum, if_pos hzero] at hfst ⊢
    obtain ⟨hafter, -, hall⟩ := totals_rescale hdistinct hfst
      (List.forall_mem_cons.mpr ⟨hd.1, fun t ht => (inRange_asIs hrange t ht).1⟩)
    refine ⟨?_, fun hne => absurd hzero hne, hall⟩
    rw [hafter, List.map_cons, List.sum_cons, sum_asIs, hzero]
    have := hsurge.1
    dsimp only
    omega
  · rw [hsum, if_neg hzero] at hfst ⊢
    have hmem := d.newReplicas_mem maxSurge hd hnew.replicas (d.oldSets rss)
    have hroom := (d.newReplicas_fits hd hnew.replicas hrange hsurge.1 (hfits.total hzero)
      (hfits.surge hzero)).1
    obtain ⟨heach, hcut⟩ := oldTargets_ge (d := d) hrange (d.prepared rss).1 maxUnavailable maxSurge
    have hle := (d.sum_oldTargets maxUnavailable maxSurge (d.prepared rss).1 hrange).1
    have hbudget := cutBudget_eq hd hunavailable hnew hold hfits hzero
    have hnonneg := d.inRange_targets hd hnew.replicas hrange
    rw [targets, hstrategy] at hnonneg
    dsimp only at hnonneg
    rw [hsum, if_neg hzero] at hnonneg
    obtain ⟨hafter, hremoved, hall⟩ := totals_rescale hdistinct hfst fun t ht => (hnonneg t ht).1
    refine ⟨?_, fun _ => ?_, hall⟩
    · rw [hafter, List.map_cons, List.sum_cons, htotal]
      dsimp only
      omega
    · have hsame := wanted_perm
        (d.map_fst_oldTargets maxUnavailable maxSurge (d.prepared rss).1 (d.oldSets rss))
      rw [hremoved, List.map_cons, List.sum_cons, sum_shrinks heach, hsame, havailable]
      dsimp only
      omega

/-- A deployment of two replicas. -/
def bounded : Deployment where
  deployMeta := { name := "web", namespaceName := "prod", uid := "d-1" }
  spec := { replicas := 2 }

/-- A replica set of an older template of it, with pods that are available. -/
def olderSet (availableReplicas : Int) : ReplicaSet where
  rsMeta :=
    { name := "web-old", namespaceName := "prod", uid := "rs-1",
      ownerReferences := [(OwnerReference.to "Deployment" "web" "d-1").controlling] }
  spec := { replicas := 2 }
  status := { availableReplicas }

def boundedCluster (availableReplicas : Int) : Cluster where
  deployments := (Api.new "deploy").create bounded
  replicasets := (Api.new "rs").create (olderSet availableReplicas)

theorem rolling_bounds_bounded :
    wanted (bounded.ownedSets (reconcile "prod/web" (boundedCluster 2)).replicasets) ≤ 3 ∧
      removed (bounded.ownedSets (boundedCluster 2).replicasets)
        (reconcile "prod/web" (boundedCluster 2)).replicasets ≤ 1 := by
  have howned : bounded.ownedSets (boundedCluster 2).replicasets = [olderSet 2] := by decide
  have hold : bounded.oldSets (boundedCluster 2).replicasets = [olderSet 2] := by decide
  have hdistinct : bounded.Distinct (boundedCluster 2).replicasets := by
    constructor
    · decide
    · decide
  have hcounted : ∀ rs ∈ bounded.ownedSets (boundedCluster 2).replicasets, Counted rs := by
    rw [howned]
    intro rs hrs
    rw [List.mem_singleton.mp hrs]
    exact ⟨⟨by decide, by decide⟩, by decide, by decide⟩
  have hfits : bounded.NoOverflow 1 1 (bounded.prepared (boundedCluster 2).replicasets).1
      (bounded.oldSets (boundedCluster 2).replicasets) :=
    ⟨by decide, by decide, by decide, by decide⟩
  have hone : InRange 1 := ⟨by decide, by decide⟩
  have h := rolling_bounds (boundedCluster 2) "prod/web" bounded 1 1 rfl rfl rfl
    ⟨by decide, by decide⟩ hone hone hcounted hdistinct hfits
  rw [hold, howned] at h
  exact ⟨h.1, h.2.1 (by decide)⟩

/-- Nothing is taken away where less is available than the minimum, which the difference of the two
does not allow for. -/
theorem removed_unavailable :
    (boundedCluster 0).deployments.get "prod/web" = some bounded ∧
      wanted (bounded.oldSets (boundedCluster 0).replicasets) = 2 ∧
      removed (bounded.ownedSets (boundedCluster 0).replicasets)
        (reconcile "prod/web" (boundedCluster 0)).replicasets = 0 ∧
      availableOf (bounded.ownedSets (boundedCluster 0).replicasets) -
        max (bounded.spec.replicas - 1) 0 = -1 := by
  exact ⟨rfl, by decide, by decide, by decide⟩

end Deployment

end CaveHome.ControllerManager
