import CaveHome.ControllerManager.Deployment
import CaveHome.ControllerManager.NoClobber

/-!
# A deployment and its replica sets

The runs in which the two controllers reconcile, pods are admitted and the deployment is edited, in
any order, and what all of them keep (`Wf`): the replica sets are as the deployment made them, the
pods are as the replica sets made them, and no name is used twice.
-/

namespace CaveHome.ControllerManager

theorem padded_injective {m n : Nat} (h : padded m = padded n) : m = n := by
  have hvalue : ∀ n, Nat.ofDigitChars 10 (padded n).toList 0 = n := by
    intro n
    rw [padded]
    rw [String.toList_append, String.toList_ofList, Nat.ofDigitChars_append,
      Nat.ofDigitChars_replicate_zero, Nat.mul_zero]
    exact (congrArg (Nat.ofDigitChars 10 · 0) Nat.toList_repr).trans Nat.ofDigitChars_ten_toDigits
  rw [← hvalue m, h, hvalue]

theorem dash_notMem_base36 (n : Nat) : '-' ∉ (base36 n).toList := by
  have hall : ∀ d < 36, digit36 d ≠ '-' := by decide
  rw [base36, String.toList_ofList, List.mem_reverse, digits36]
  split
  · decide
  · rw [List.mem_map]
    rintro ⟨d, hd, hdash⟩
    exact hall d (Nat.digits_lt_base (by decide) hd) hdash

theorem podName_number {r r' : ReplicaSet} {i j : Nat} (h : r.podName i = r'.podName j) : i = j := by
  have hlists := congrArg (List.reverse ∘ String.toList) h
  simp only [Function.comp_apply, ReplicaSet.podName, String.toList_append, List.reverse_append,
    show "-".toList = ['-'] from rfl, List.reverse_cons, List.reverse_nil, List.nil_append,
    List.singleton_append] at hlists
  have hmem : ∀ i, '-' ∉ (base36 i).toList.reverse := fun i =>
    fun h => dash_notMem_base36 i (List.mem_reverse.mp h)
  -- behind the last dash there is the number only
  have htake : ∀ i rest, ((base36 i).toList.reverse ++ '-' :: rest).takeWhile (· ≠ '-') =
      (base36 i).toList.reverse := by
    intro i rest
    rw [List.takeWhile_append_of_pos fun c hc => by
      simpa using fun h : c = '-' => hmem i (h ▸ hc)]
    simp
  have hnumbers : (base36 i).toList.reverse = (base36 j).toList.reverse := by
    rw [← htake i, hlists, htake]
  exact base36_injective (String.toList_injective (List.reverse_injective hnumbers))

/-! ## Replica sets of a deployment -/

/-- Nothing differs but the replicas and the status. -/
structure ReplicaSet.Same (r r' : ReplicaSet) : Prop where
  rsMeta : r'.rsMeta = r.rsMeta
  selector : r'.spec.selector = r.spec.selector
  template : r'.spec.template = r.spec.template

theorem ReplicaSet.same_scaled (r : ReplicaSet) (n : Int) : r.Same (r.scaled n) := ⟨rfl, rfl, rfl⟩

/-- A replica set as a deployment makes it. -/
structure ReplicaSet.MadeFor (owner : ObjectMeta) (kind : String) (seq : Nat) (r : ReplicaSet) :
    Prop where
  named : ∃ hash, r.rsMeta.labels.get podTemplateHash = some hash ∧
    r.rsMeta.name = owner.name ++ "-" ++ hash
  sameNamespace : r.rsMeta.namespaceName = owner.namespaceName
  owned : Api.ownedBy owner.uid r
  live : r.rsMeta.isTerminating = false
  numbered : ∃ n ≤ seq, r.rsMeta.uid = kind ++ "-" ++ padded n
  selects : selectorMatches r.spec.selector r.spec.template.labels
  nonneg : 0 ≤ r.spec.replicas
  inRange : r.spec.replicas ≤ I32.maxValue

theorem ReplicaSet.MadeFor.of_same {owner : ObjectMeta} {kind : String} {seq : Nat}
    {r r' : ReplicaSet} (h : r.MadeFor owner kind seq) (hsame : r.Same r')
    (hnonneg : 0 ≤ r'.spec.replicas) (hrange : r'.spec.replicas ≤ I32.maxValue) :
    r'.MadeFor owner kind seq where
  named := hsame.rsMeta ▸ h.named
  sameNamespace := hsame.rsMeta ▸ h.sameNamespace
  owned := by
    rw [Api.ownedBy, show objectMeta r' = r'.rsMeta from rfl, hsame.rsMeta]
    exact h.owned
  live := hsame.rsMeta ▸ h.live
  numbered := hsame.rsMeta ▸ h.numbered
  selects := by
    rw [hsame.selector, hsame.template]
    exact h.selects
  nonneg := hnonneg
  inRange := hrange

/-- All replica sets were made for the deployment, and under uids of their own. -/
structure OwnedSets (owner : ObjectMeta) (rss : Api ReplicaSet) : Prop where
  madeFor : ∀ r ∈ rss.list, r.MadeFor owner rss.kind rss.seq
  uids : (rss.list.map (·.rsMeta.uid)).Nodup

/-- Some listed replica sets are replaced by ones that differ in the replicas and the status. -/
structure Edits (rss rss' : Api ReplicaSet) (es : List (ReplicaSet × ReplicaSet)) : Prop where
  before : rss.list.Perm (es.map Prod.fst)
  after : rss'.list.Perm (es.map Prod.snd)
  same : ∀ e ∈ es, e.1.Same e.2
  seq_eq : rss'.seq = rss.seq
  kind_eq : rss'.kind = rss.kind

section Edits

variable {owner : ObjectMeta} {rss rss' : Api ReplicaSet} {es : List (ReplicaSet × ReplicaSet)}

theorem Edits.uids_eq (h : Edits rss rss' es) :
    (rss'.list.map (·.rsMeta.uid)).Perm (rss.list.map (·.rsMeta.uid)) := by
  refine (h.after.map _).trans (List.Perm.trans ?_ (h.before.map _).symm)
  rw [List.map_map, List.map_map]
  refine List.Perm.of_eq (List.map_congr_left fun e he => ?_)
  exact congrArg ObjectMeta.uid (h.same e he).rsMeta

theorem Edits.exists_before (h : Edits rss rss' es) {r' : ReplicaSet} (hr : r' ∈ rss'.list) :
    ∃ r ∈ rss.list, (r, r') ∈ es ∧ r.Same r' := by
  obtain ⟨e, he, rfl⟩ := List.mem_map.mp (h.after.mem_iff.mp hr)
  exact ⟨e.1, h.before.mem_iff.mpr (List.mem_map_of_mem he), he, h.same e he⟩

theorem Edits.exists_after (h : Edits rss rss' es) {r : ReplicaSet} (hr : r ∈ rss.list) :
    ∃ r' ∈ rss'.list, (r, r') ∈ es ∧ r.Same r' := by
  obtain ⟨e, he, rfl⟩ := List.mem_map.mp (h.before.mem_iff.mp hr)
  exact ⟨e.2, h.after.mem_iff.mpr (List.mem_map_of_mem he), he, h.same e he⟩

theorem OwnedSets.edits (h : OwnedSets owner rss) (he : Edits rss rss' es)
    (hrange : ∀ e ∈ es, 0 ≤ e.2.spec.replicas ∧ e.2.spec.replicas ≤ I32.maxValue) :
    OwnedSets owner rss' where
  madeFor r' hr' := by
    obtain ⟨r, hr, hmem, hsame⟩ := he.exists_before hr'
    obtain ⟨hnonneg, hmax⟩ := hrange _ hmem
    rw [he.kind_eq, he.seq_eq]
    exact (h.madeFor r hr).of_same hsame hnonneg hmax
  uids := he.uids_eq.nodup_iff.mpr h.uids

theorem OwnedSets.eq_of_uid (h : OwnedSets owner rss) {r r' : ReplicaSet} (hr : r ∈ rss.list)
    (hr' : r' ∈ rss.list) (huid : r.rsMeta.uid = r'.rsMeta.uid) : r = r' :=
  List.inj_on_of_nodup_map h.uids hr hr' huid

theorem OwnedSets.listOwnedBy (h : OwnedSets owner rss) : rss.listOwnedBy owner.uid = rss.list :=
  List.filter_eq_self.mpr fun r hr => (h.madeFor r hr).owned

theorem OwnedSets.key_eq (h : OwnedSets owner rss) {r : ReplicaSet} (hr : r ∈ rss.list)
    {hash : String} (hnew : Deployment.isNew hash r) :
    key r = keyOf owner.namespaceName (owner.name ++ "-" ++ hash) := by
  obtain ⟨hash', hlabel, hname⟩ := (h.madeFor r hr).named
  have heq : hash' = hash := Option.some.inj (hlabel.symm.trans (by simpa [Deployment.isNew] using hnew))
  rw [key, ← (h.madeFor r hr).sameNamespace, ← heq, ← hname]
  rfl

end Edits

/-! ## Pods of the replica sets -/

/-- A pod as a replica set makes it, which may have been admitted since. -/
structure Pod.MadeBy (r : ReplicaSet) (podSeq : Nat) (p : Pod) : Prop where
  numbered : ∃ i ≤ podSeq, key p = key (r.newPod i)
  labels : p.podMeta.labels = r.spec.template.labels
  owner : p.podMeta.ownerReferences = [r.reference]
  live : p.podMeta.isTerminating = false
  status : p.status = ⟨.pending, false⟩ ∨ p.status = ⟨.running, true⟩

/-- All pods were made by the replica sets, which have no more of them than 32 bits can count. -/
structure OwnedPods (rss : Api ReplicaSet) (podSeq : Nat) (pods : Api Pod) : Prop where
  madeBy : ∀ p ∈ pods.list, ∃ r ∈ rss.list, p.MadeBy r podSeq
  countable : ∀ r ∈ rss.list,
    (pods.list.countP (ReplicaSet.counts r.rsMeta.uid) : Int) ≤ I32.maxValue

section MadeBy

variable {r r' : ReplicaSet} {podSeq podSeq' : Nat} {p : Pod}

theorem Pod.MadeBy.of_same (h : p.MadeBy r podSeq) (hsame : r.Same r') : p.MadeBy r' podSeq where
  numbered := by
    obtain ⟨i, hi, hkey⟩ := h.numbered
    refine ⟨i, hi, hkey.trans ?_⟩
    rw [ReplicaSet.key_newPod, ReplicaSet.key_newPod, ReplicaSet.podName, ReplicaSet.podName,
      hsame.rsMeta]
  labels := by rw [h.labels, hsame.template]
  owner := by rw [h.owner, ReplicaSet.reference, ReplicaSet.reference, hsame.rsMeta]
  live := h.live
  status := h.status

theorem Pod.MadeBy.mono (h : p.MadeBy r podSeq) (hle : podSeq ≤ podSeq') : p.MadeBy r podSeq' :=
  { h with
    numbered := by
      obtain ⟨i, hi, hkey⟩ := h.numbered
      exact ⟨i, hi.trans hle, hkey⟩ }

theorem Pod.MadeBy.isActive (h : p.MadeBy r podSeq) : p.isActive := by
  rw [Pod.isActive, h.live]
  rcases h.status with hs | hs <;> rw [hs] <;> rfl

theorem Pod.MadeBy.counts_iff (h : p.MadeBy r podSeq) (uid : String) :
    ReplicaSet.counts uid p ↔ r.rsMeta.uid = uid := by
  rw [ReplicaSet.counts, h.isActive, Bool.and_true, Api.ownedBy,
    show (objectMeta p).ownerReferences = [r.reference] from h.owner]
  simp [ReplicaSet.reference, OwnerReference.to, OwnerReference.controlling,
    OwnerReference.blocking]

theorem Pod.madeBy_newPod (r : ReplicaSet) (a : Api Pod) {i : Nat} (hi : i ≤ podSeq) :
    (a.stamped (r.newPod i)).MadeBy r podSeq where
  numbered := ⟨i, hi, a.key_stamped _⟩
  labels := rfl
  owner := rfl
  live := rfl
  status := Or.inl rfl

end MadeBy

theorem OwnedPods.edits {podSeq : Nat} {pods : Api Pod} {rss rss' : Api ReplicaSet}
    {es : List (ReplicaSet × ReplicaSet)} (hp : OwnedPods rss podSeq pods)
    (he : Edits rss rss' es) : OwnedPods rss' podSeq pods where
  madeBy p hmem := by
    obtain ⟨r, hr, hmade⟩ := hp.madeBy p hmem
    obtain ⟨r', hr', -, hsame⟩ := he.exists_after hr
    exact ⟨r', hr', hmade.of_same hsame⟩
  countable r' hr' := by
    obtain ⟨r, hr, -, hsame⟩ := he.exists_before hr'
    rw [hsame.rsMeta]
    exact hp.countable r hr

/-! ## Reconciling a replica set -/

/-- What a reconcile of the replica set does to the pods. -/
structure ReplicaSet.Scales (r : ReplicaSet) (podSeq podSeq' : Nat) (pods pods' : Api Pod) :
    Prop where
  le : podSeq ≤ podSeq'
  mem : ∀ p ∈ pods'.list, p ∈ pods.list ∨ p.MadeBy r podSeq'
  exact : (pods'.list.countP (counts r.rsMeta.uid) : Int) = r.spec.replicas
  others : ∀ uid, uid ≠ r.rsMeta.uid →
    pods'.list.countP (counts uid) = pods.list.countP (counts uid)
  idle : (pods.list.countP (counts r.rsMeta.uid) : Int) = r.spec.replicas →
    podSeq' = podSeq ∧ pods'.list = pods.list

section Scales

variable {owner : ObjectMeta} {rss : Api ReplicaSet} {podSeq : Nat} {pods : Api Pod}
  {r : ReplicaSet}

theorem OwnedPods.claimed_eq (hs : OwnedSets owner rss) (hp : OwnedPods rss podSeq pods)
    (hr : r ∈ rss.list) {p : Pod} (hmem : p ∈ pods.list) : r.claimed p = p := by
  obtain ⟨r', hr', hmade⟩ := hp.madeBy p hmem
  have hcontrolled : ReplicaSet.hasController p = true := by
    rw [ReplicaSet.hasController, hmade.owner]
    rfl
  have hadopted : r.adoptedIf p = p := by
    rw [ReplicaSet.adoptedIf, if_neg]
    rintro ⟨-, -, -, hnone⟩
    rw [hcontrolled] at hnone
    cases hnone
  rw [ReplicaSet.claimed, hadopted, ReplicaSet.releasedIf, if_neg]
  rintro ⟨howned, hmatch⟩
  have hcounts : ReplicaSet.counts r.rsMeta.uid p := by
    rw [ReplicaSet.counts, howned, hmade.isActive]
    rfl
  obtain rfl := hs.eq_of_uid hr' hr ((hmade.counts_iff _).mp hcounts)
  rw [hmade.labels, (hs.madeFor r' hr).selects] at hmatch
  cases hmatch

theorem OwnedPods.get_claimAndRelease (hs : OwnedSets owner rss) (hp : OwnedPods rss podSeq pods)
    (hr : r ∈ rss.list) (k : String) : (r.claimAndRelease pods).get k = pods.get k := by
  rw [ReplicaSet.get_claimAndRelease]
  cases hget : pods.get k with
  | none => rfl
  | some p =>
    have hmem : p ∈ pods.list := Api.mem_list.mpr (Api.key_of_get hget ▸ hget)
    rw [Option.map_some, hp.claimed_eq hs hr hmem]

theorem OwnedPods.list_claimAndRelease (hs : OwnedSets owner rss) (hp : OwnedPods rss podSeq pods)
    (hr : r ∈ rss.list) : (r.claimAndRelease pods).list = pods.list := by
  refine (Store.list_eq_map (f := id) fun k => ?_).trans (List.map_id _)
  rw [Option.map_id]
  exact hp.get_claimAndRelease hs hr k

theorem OwnedPods.namesFree (hs : OwnedSets owner rss) (hp : OwnedPods rss podSeq pods)
    (hr : r ∈ rss.list) {i : Nat} (hi : podSeq < i) :
    pods.get (keyOf r.rsMeta.namespaceName (r.podName i)) = none := by
  rw [Option.eq_none_iff_forall_ne_some]
  intro p hget
  have hkey := Api.key_of_get hget
  obtain ⟨r', hr', hmade⟩ := hp.madeBy p (Api.mem_list.mpr (hkey ▸ hget))
  obtain ⟨j, hj, hnumber⟩ := hmade.numbered
  rw [hkey, ReplicaSet.key_newPod, (hs.madeFor r hr).sameNamespace,
    (hs.madeFor r' hr').sameNamespace] at hnumber
  have : i = j := podName_number (keyOf_injective _ hnumber)
  omega

theorem OwnedPods.claimedActive_eq (hs : OwnedSets owner rss) (hp : OwnedPods rss podSeq pods)
    (hr : r ∈ rss.list) :
    r.claimedActive pods = pods.list.countP (ReplicaSet.counts r.rsMeta.uid) := by
  rw [← r.countP_claimAndRelease, hp.list_claimAndRelease hs hr]

theorem OwnedPods.scales (hs : OwnedSets owner rss) (hp : OwnedPods rss podSeq pods)
    (hr : r ∈ rss.list) :
    r.Scales podSeq (r.scalePods podSeq (r.claimAndRelease pods)).1 pods
      (r.scalePods podSeq (r.claimAndRelease pods)).2 := by
  have hmade := hs.madeFor r hr
  have hcount := hp.claimedActive_eq hs hr
  have hcountable := hp.countable r hr
  have hget := fun k => hp.get_claimAndRelease hs hr k
  have hlist := hp.list_claimAndRelease hs hr
  have hnonneg := hmade.nonneg
  have hrange := hmade.inRange
  have hfree : r.NamesFree podSeq pods :=
    ⟨fun i hlo _ => hp.namesFree hs hr hlo, fun _ _ => hcount ▸ hcountable⟩
  have hkeeps := (r.keepsPods_iff podSeq pods (by omega) hrange).mpr hfree
  have hexact := hkeeps.exact hnonneg hmade.selects
  rw [ReplicaSet.length_activeOwned] at hexact
  rcases r.scalePods_cases podSeq pods with ⟨hneg, hscale⟩ | ⟨-, -, hscale⟩
  · rw [hscale] at hexact ⊢
    refine ⟨?_, fun p hmem => ?_, hexact, fun uid huid => ?_, fun hsame => ?_⟩
    · rw [createSeries_seq]
      omega
    · rcases get_createSeries (Api.mem_list.mp hmem) with h | ⟨i, a, -, hi, -, rfl⟩
      · exact Or.inl (Api.mem_list.mpr ((hget _).symm.trans h))
      · rw [createSeries_seq]
        exact Or.inr (Pod.madeBy_newPod r a hi)
    · rw [countP_createSeries_of_not _ (fun a i => ?_) hkeeps.fresh, hlist]
      rw [(Pod.madeBy_newPod r a le_rfl).counts_iff]
      exact Ne.symm huid
    · rw [hcount] at hneg
      unfold I32.wrap I32.clamp I32.maxValue at *
      omega
  · rw [hscale] at hexact ⊢
    obtain ⟨victims, hsub, hlength, hnodup, heq⟩ := ReplicaSet.deleteSurplus_spec
      (r.claimAndRelease pods) r.rsMeta.uid
      (I32.wrap (I32.clamp (r.claimedActive pods) - r.spec.replicas)).natAbs
    dsimp only at hexact ⊢
    rw [heq] at hexact ⊢
    refine ⟨le_rfl, fun p hmem => Or.inl ?_, hexact, fun uid huid => ?_, fun hsame => ⟨rfl, ?_⟩⟩
    · have hstored := Api.mem_list.mp hmem
      rw [get_foldl_delete] at hstored
      split at hstored
      · cases hstored
      · exact Api.mem_list.mpr ((hget _).symm.trans hstored)
    · rw [countP_foldl_delete_of_not _ _ _ hnodup (fun p hp => ?_) fun p hp' => ?_, hlist]
      · exact (ReplicaSet.mem_activeOwned.mp (hsub hp)).1
      · obtain ⟨hstored, hcounts⟩ := ReplicaSet.mem_activeOwned.mp (hsub hp')
        obtain ⟨r', -, hmade'⟩ := hp.madeBy p (Api.mem_list.mpr ((hget _).symm.trans hstored))
        rw [hmade'.counts_iff] at hcounts ⊢
        exact fun h => huid (h.symm.trans hcounts)
    · have hnone : victims = [] := by
        rw [hcount] at hlength
        refine List.eq_nil_of_length_eq_zero ?_
        unfold I32.wrap I32.clamp I32.maxValue at *
        omega
      rw [hnone]
      exact hlist

end Scales

/-- The status that the controller writes. -/
def observed (pods : Api Pod) (uid : String) : ReplicaSetStatus :=
  let active := ReplicaSet.activeOwned pods uid
  let ready := I32.clamp (active.countP (·.status.ready))
  ⟨I32.clamp active.length, ready, ready⟩

theorem reconcile_replicaSet {owner : ObjectMeta} {k : String} {podSeq : Nat} {c : Cluster}
    {r : ReplicaSet} (hs : OwnedSets owner c.replicasets)
    (hp : OwnedPods c.replicasets podSeq c.pods) (hget : c.replicasets.get k = some r) :
    ∃ podSeq' pods', r.Scales podSeq podSeq' c.pods pods' ∧
      ReplicaSet.reconcile k podSeq c = (podSeq', { c with
        pods := pods'
        replicasets :=
          c.replicasets.update { r with status := observed pods' r.rsMeta.uid } }) := by
  have hkey := Api.key_of_get hget
  have hr : r ∈ c.replicasets.list := Api.mem_list.mpr (hkey ▸ hget)
  refine ⟨_, _, hp.scales hs hr, ?_⟩
  rw [ReplicaSet.reconcile, hget]
  dsimp only
  rw [if_neg (by simp [(hs.madeFor r hr).live]), ReplicaSet.writeStatus, hkey]
  dsimp only
  rw [hget]
  rfl

theorem edits_status {rss : Api ReplicaSet} {r : ReplicaSet} (hr : r ∈ rss.list)
    (status : ReplicaSetStatus) :
    ∃ rest, rss.list.Perm (r :: rest) ∧ Edits rss (rss.update { r with status })
      ((r, { r with status }) :: rest.map fun r => (r, r)) := by
  have hperm := List.perm_cons_erase hr
  refine ⟨rss.list.erase r, hperm, ?_, ?_, fun e he => ?_, rfl, rfl⟩
  · simpa [Function.comp_def] using hperm
  · have hupdate : (rss.update { r with status }).list.Perm ({ r with status } :: rss.list.erase r) :=
      Api.list_update_perm hperm rfl
    simpa [Function.comp_def] using hupdate
  · rcases List.mem_cons.mp he with rfl | he
    · exact ⟨rfl, rfl, rfl⟩
    · obtain ⟨r', -, rfl⟩ := List.mem_map.mp he
      exact ⟨rfl, rfl, rfl⟩

theorem OwnedPods.scaled {rss : Api ReplicaSet} {r : ReplicaSet} {podSeq podSeq' : Nat}
    {pods pods' : Api Pod} {owner : ObjectMeta} (hs : OwnedSets owner rss)
    (hp : OwnedPods rss podSeq pods) (hr : r ∈ rss.list) (h : r.Scales podSeq podSeq' pods pods') :
    OwnedPods rss podSeq' pods' where
  madeBy p hmem := by
    rcases h.mem p hmem with hmem | hmade
    · obtain ⟨r', hr', hmade⟩ := hp.madeBy p hmem
      exact ⟨r', hr', hmade.mono h.le⟩
    · exact ⟨r, hr, hmade⟩
  countable r' hr' := by
    by_cases huid : r'.rsMeta.uid = r.rsMeta.uid
    · rw [huid, h.exact]
      exact (hs.madeFor r hr).inRange
    · rw [h.others _ huid]
      exact hp.countable r' hr'

/-! ## Admission -/

theorem admitted_meta (p : Pod) : p.admitted.podMeta = p.podMeta := by
  rw [Pod.admitted]
  split <;> rfl

theorem key_admitted (p : Pod) : key p.admitted = key p := by
  change keyOf p.admitted.podMeta.namespaceName p.admitted.podMeta.name = _
  rw [admitted_meta]
  rfl

theorem Pod.MadeBy.admitted {r : ReplicaSet} {podSeq : Nat} {p : Pod} (h : p.MadeBy r podSeq) :
    p.admitted.MadeBy r podSeq where
  numbered := by
    rw [key_admitted]
    exact h.numbered
  labels := by rw [admitted_meta, h.labels]
  owner := by rw [admitted_meta, h.owner]
  live := by rw [admitted_meta, h.live]
  status := by
    rw [Pod.admitted]
    split
    · exact Or.inr rfl
    · exact h.status

theorem Pod.MadeBy.counts_admitted {r : ReplicaSet} {podSeq : Nat} {p : Pod}
    (h : p.MadeBy r podSeq) (uid : String) :
    ReplicaSet.counts uid p.admitted = ReplicaSet.counts uid p := by
  rw [Bool.eq_iff_iff, h.counts_iff, h.admitted.counts_iff]

/-- Some pods are admitted. -/
structure Admits (f : Pod → Pod) (pods pods' : Api Pod) : Prop where
  list : pods'.list = pods.list.map f
  cases : ∀ p, f p = p ∨ f p = p.admitted

theorem Admits.countP_eq {f : Pod → Pod} {pods pods' : Api Pod} {rss : Api ReplicaSet}
    {podSeq : Nat} (h : Admits f pods pods') (hp : OwnedPods rss podSeq pods) (uid : String) :
    pods'.list.countP (ReplicaSet.counts uid) = pods.list.countP (ReplicaSet.counts uid) := by
  rw [h.list, List.countP_map]
  refine List.countP_congr fun p hmem => ?_
  obtain ⟨r, -, hmade⟩ := hp.madeBy p hmem
  rw [Function.comp_apply]
  rcases h.cases p with heq | heq <;> rw [heq]
  rw [hmade.counts_admitted]

theorem OwnedPods.admits {f : Pod → Pod} {pods pods' : Api Pod} {rss : Api ReplicaSet}
    {podSeq : Nat} (hp : OwnedPods rss podSeq pods) (h : Admits f pods pods') :
    OwnedPods rss podSeq pods' where
  madeBy p' hmem := by
    rw [h.list] at hmem
    obtain ⟨p, hp', rfl⟩ := List.mem_map.mp hmem
    obtain ⟨r, hr, hmade⟩ := hp.madeBy p hp'
    refine ⟨r, hr, ?_⟩
    rcases h.cases p with heq | heq <;> rw [heq]
    · exact hmade
    · exact hmade.admitted
  countable r hr := by
    rw [h.countP_eq hp]
    exact hp.countable r hr

end CaveHome.ControllerManager
