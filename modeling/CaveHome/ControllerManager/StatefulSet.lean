import CaveHome.ControllerManager.Apis
import CaveHome.Lib.Text

/-!
# The stateful set controller

The pods of a stateful set are named by ordinals.  In the ordered mode a reconcile makes or removes
one pod at most: it makes the lowest one that is missing once all before it are ready, and removes
the highest one that is too many.
-/

namespace CaveHome.ControllerManager

namespace StatefulSet

def podName (sts : StatefulSet) (ordinal : Nat) : String :=
  sts.stsMeta.name ++ "-" ++ toString ordinal

/-- The ordinal at the end of the name of a pod. -/
def ordinal (stsName podName : String) : Option Int :=
  let start := (stsName ++ "-").toList
  if start.isPrefixOf podName.toList then
    Text.parseI32 (String.ofList (podName.toList.drop start.length))
  else none

def claimName (sts : StatefulSet) (template : String) (ordinal : Nat) : String :=
  template ++ "-" ++ sts.stsMeta.name ++ "-" ++ toString ordinal

def pvcKey (sts : StatefulSet) (template : String) (ordinal : Nat) : String :=
  keyOf sts.stsMeta.namespaceName (sts.claimName template ordinal)

def claim (sts : StatefulSet) (template : String) (ordinal : Nat) : PersistentVolumeClaim where
  claimMeta :=
    { name := sts.claimName template ordinal, namespaceName := sts.stsMeta.namespaceName, uid := "",
      ownerReferences :=
        [(OwnerReference.to "StatefulSet" sts.stsMeta.name sts.stsMeta.uid).controlling] }

/-- Make the claims of an ordinal that are not there. -/
def ensurePvcs (sts : StatefulSet) (ordinal : Nat) (pvcs : Api PersistentVolumeClaim) :
    Api PersistentVolumeClaim :=
  sts.spec.volumeClaimTemplates.foldl (fun pvcs template =>
    if (pvcs.get (sts.pvcKey template ordinal)).isSome then pvcs
    else pvcs.create (sts.claim template ordinal)) pvcs

def pod (sts : StatefulSet) (ordinal : Nat) : Pod where
  podMeta :=
    { name := sts.podName ordinal, namespaceName := sts.stsMeta.namespaceName, uid := "",
      labels := sts.spec.template.labels,
      ownerReferences :=
        [(OwnerReference.to "StatefulSet" sts.stsMeta.name sts.stsMeta.uid).controlling.blocking] }

def createPod (sts : StatefulSet) (ordinal : Nat) (c : Cluster) : Cluster :=
  { c with
    pvcs := sts.ensurePvcs ordinal c.pvcs
    pods := c.pods.create (sts.pod ordinal) }

/-- The owned pods whose ordinals are too high. -/
def surplus (sts : StatefulSet) (owned : List Pod) : List (Int × Pod) :=
  (owned.filterMap fun p => (ordinal sts.stsMeta.name p.podMeta.name).map (·, p)).filter fun e =>
    sts.spec.replicas ≤ e.1

/-- The entry with the highest number, and the last one of several. -/
def highest (entries : List (Int × Pod)) : Option (Int × Pod) :=
  entries.foldl (fun best e =>
    match best with
    | none => some e
    | some b => if b.1 ≤ e.1 then some e else some b) none

def exists? (sts : StatefulSet) (owned : List Pod) (ordinal : Nat) : Bool :=
  owned.any fun p => p.podMeta.name == sts.podName ordinal

def predecessorsReady (sts : StatefulSet) (owned : List Pod) (ordinal : Nat) : Bool :=
  (List.range ordinal).all fun o =>
    (owned.find? fun p => p.podMeta.name == sts.podName o).any (·.status.ready)

def reconcileOrdered (sts : StatefulSet) (c : Cluster) : Cluster :=
  let owned := c.pods.listOwnedBy sts.stsMeta.uid
  match highest (sts.surplus owned) with
  | some victim => { c with pods := c.pods.delete (key victim.2) }
  | none =>
    match (List.range sts.spec.replicas.toNat).find? fun target => !sts.exists? owned target with
    | none => c
    | some target => if sts.predecessorsReady owned target then sts.createPod target c else c

def reconcileParallel (sts : StatefulSet) (c : Cluster) : Cluster :=
  let owned := c.pods.listOwnedBy sts.stsMeta.uid
  let c := owned.foldl (fun c p =>
    match ordinal sts.stsMeta.name p.podMeta.name with
    | none => c
    | some o => if sts.spec.replicas ≤ o then { c with pods := c.pods.delete (key p) } else c) c
  (List.range sts.spec.replicas.toNat).foldl (fun c target =>
    if sts.exists? owned target then c else sts.createPod target c) c

def writeStatus (sts : StatefulSet) (c : Cluster) : Cluster :=
  let owned := c.pods.listOwnedBy sts.stsMeta.uid
  let replicas := I32.clamp owned.length
  let ready := I32.clamp (owned.countP (·.status.ready))
  match c.statefulsets.get (key sts) with
  | none => c
  | some current =>
    let current := { current with status := ⟨replicas, ready, replicas, replicas⟩ }
    { c with statefulsets := c.statefulsets.update current }

/-- Reconcile the stateful set with the key. -/
def reconcile (k : String) (c : Cluster) : Cluster :=
  match c.statefulsets.get k with
  | none => c
  | some sts =>
    if sts.stsMeta.isTerminating then c
    else
      match sts.spec.podManagementPolicy with
      | .orderedReady => sts.writeStatus (sts.reconcileOrdered c)
      | .parallel => sts.writeStatus (sts.reconcileParallel c)

end StatefulSet

end CaveHome.ControllerManager

/-!
## The order of a stateful set

What one ordered reconcile does, in cases, and that the claims of every pod it makes stay, whatever
happens to the replicas and to the pods in between.
-/

namespace CaveHome.ControllerManager

namespace StatefulSet

variable {sts : StatefulSet} {c c' : Cluster}

theorem foldl_best_spec {f : Option (Int × Pod) → Int × Pod → Option (Int × Pod)}
    (hf : ∀ b e, f (some b) e = if b.1 ≤ e.1 then some e else some b)
    (entries : List (Int × Pod)) (b : Int × Pod) :
    ∃ e, entries.foldl f (some b) = some e ∧ (e = b ∨ e ∈ entries) ∧ b.1 ≤ e.1 ∧
      ∀ e' ∈ entries, e'.1 ≤ e.1 := by
  induction entries generalizing b with
  | nil => exact ⟨b, rfl, Or.inl rfl, le_refl _, fun e' he' => absurd he' List.not_mem_nil⟩
  | cons a es ih =>
    rw [List.foldl_cons, hf]
    split
    next hle =>
      obtain ⟨e, he, hmem, hb, hall⟩ := ih a
      refine ⟨e, he, Or.inr ?_, hle.trans hb, fun e' he' => ?_⟩
      · exact hmem.elim (fun h => h ▸ List.mem_cons_self) (List.mem_cons_of_mem _)
      · rcases List.mem_cons.mp he' with rfl | he'
        · exact hb
        · exact hall e' he'
    next hlt =>
      obtain ⟨e, he, hmem, hb, hall⟩ := ih b
      refine ⟨e, he, hmem.imp_right (List.mem_cons_of_mem _), hb, fun e' he' => ?_⟩
      rcases List.mem_cons.mp he' with rfl | he'
      · exact (not_le.mp hlt).le.trans hb
      · exact hall e' he'

theorem highest_spec (entries : List (Int × Pod)) :
    (highest entries = none ∧ entries = []) ∨
      ∃ e, highest entries = some e ∧ e ∈ entries ∧ ∀ e' ∈ entries, e'.1 ≤ e.1 := by
  cases entries with
  | nil => exact Or.inl ⟨rfl, rfl⟩
  | cons a es =>
    have hbest : ∃ e, highest (a :: es) = some e ∧ (e = a ∨ e ∈ es) ∧ a.1 ≤ e.1 ∧
        ∀ e' ∈ es, e'.1 ≤ e.1 := foldl_best_spec (fun _ _ => rfl) es a
    obtain ⟨e, he, hmem, hb, hall⟩ := hbest
    refine Or.inr ⟨e, he, ?_, fun e' he' => ?_⟩
    · exact hmem.elim (fun h => h ▸ List.mem_cons_self) (List.mem_cons_of_mem _)
    · rcases List.mem_cons.mp he' with rfl | he'
      · exact hb
      · exact hall e' he'

/-! ## Claims -/

/-- Every claim that was there is there unchanged. -/
def PvcsKept (pvcs pvcs' : Api PersistentVolumeClaim) : Prop :=
  ∀ k claim, pvcs.get k = some claim → pvcs'.get k = some claim

/-- The claims of the ordinal are there. -/
def HasPvcs (sts : StatefulSet) (ordinal : Nat) (pvcs : Api PersistentVolumeClaim) : Prop :=
  ∀ template ∈ sts.spec.volumeClaimTemplates, (pvcs.get (sts.pvcKey template ordinal)).isSome

theorem PvcsKept.trans {p₁ p₂ p₃ : Api PersistentVolumeClaim} (h : PvcsKept p₁ p₂)
    (h' : PvcsKept p₂ p₃) : PvcsKept p₁ p₃ := fun k claim hk => h' k claim (h k claim hk)

theorem HasPvcs.kept {pvcs pvcs' : Api PersistentVolumeClaim} {ordinal : Nat}
    (h : sts.HasPvcs ordinal pvcs) (hkept : PvcsKept pvcs pvcs') : sts.HasPvcs ordinal pvcs' := by
  intro template ht
  obtain ⟨claim, hclaim⟩ := Option.isSome_iff_exists.mp (h template ht)
  rw [hkept _ _ hclaim]
  rfl

theorem key_claim (sts : StatefulSet) (template : String) (ordinal : Nat) :
    key (sts.claim template ordinal) = sts.pvcKey template ordinal := rfl

theorem ensurePvcs_spec (sts : StatefulSet) (ordinal : Nat) (pvcs : Api PersistentVolumeClaim) :
    PvcsKept pvcs (sts.ensurePvcs ordinal pvcs) ∧
      sts.HasPvcs ordinal (sts.ensurePvcs ordinal pvcs) := by
  rw [HasPvcs, ensurePvcs]
  induction sts.spec.volumeClaimTemplates generalizing pvcs with
  | nil => exact ⟨fun _ _ h => h, fun t ht => absurd ht List.not_mem_nil⟩
  | cons template templates ih =>
    rw [List.foldl_cons]
    split
    next hsome =>
      obtain ⟨hkept, hhas⟩ := ih pvcs
      refine ⟨hkept, fun t ht => ?_⟩
      rcases List.mem_cons.mp ht with rfl | ht
      · obtain ⟨claim, hclaim⟩ := Option.isSome_iff_exists.mp hsome
        rw [hkept _ _ hclaim]
        rfl
      · exact hhas t ht
    next hnone =>
      obtain ⟨hkept, hhas⟩ := ih (pvcs.create (sts.claim template ordinal))
      refine ⟨fun k claim hk => hkept k claim ?_, fun t ht => ?_⟩
      · rw [Api.get_create, key_claim, if_neg]
        · exact hk
        · rintro rfl
          simp [hk] at hnone
      · rcases List.mem_cons.mp ht with rfl | ht
        · rw [hkept _ (pvcs.stamped (sts.claim t ordinal)) (by rw [Api.get_create, key_claim, if_pos rfl])]
          rfl
        · exact hhas t ht

/-! ## One reconcile -/

/-- The owned pod with the highest ordinal is deleted, and it is one too many. -/
def Deletes (sts : StatefulSet) (c c' : Cluster) : Prop :=
  ∃ p ∈ c.pods.listOwnedBy sts.stsMeta.uid, ∃ o,
    ordinal sts.stsMeta.name p.podMeta.name = some o ∧ sts.spec.replicas ≤ o ∧
    (∀ p' ∈ c.pods.listOwnedBy sts.stsMeta.uid, ∀ o',
      ordinal sts.stsMeta.name p'.podMeta.name = some o' → o' ≤ o) ∧
    c'.pods = c.pods.delete (key p) ∧ c'.pvcs = c.pvcs

/-- The pod with the ordinal is made.  Those before it are there and ready, and none is too
many. -/
def Creates (sts : StatefulSet) (k : Nat) (c c' : Cluster) : Prop :=
  (k : Int) < sts.spec.replicas ∧
    (∀ j < k, ∃ p ∈ c.pods.listOwnedBy sts.stsMeta.uid,
      p.podMeta.name = sts.podName j ∧ p.status.ready) ∧
    (∀ p ∈ c.pods.listOwnedBy sts.stsMeta.uid, p.podMeta.name ≠ sts.podName k) ∧
    (∀ p ∈ c.pods.listOwnedBy sts.stsMeta.uid, ∀ o,
      ordinal sts.stsMeta.name p.podMeta.name = some o → o < sts.spec.replicas) ∧
    c'.pods = c.pods.create (sts.pod k) ∧ sts.HasPvcs k c'.pvcs

/-- A reconcile leaves the pods alone, deletes one, or makes one. -/
def Orderly (k : String) (c c' : Cluster) : Prop :=
  PvcsKept c.pvcs c'.pvcs ∧
    (c'.pods = c.pods ∨
      ∃ sts, c.statefulsets.get k = some sts ∧
        (sts.Deletes c c' ∨ ∃ ordinal, sts.Creates ordinal c c'))

theorem mem_surplus {owned : List Pod} {e : Int × Pod} :
    e ∈ sts.surplus owned ↔ e.2 ∈ owned ∧
      ordinal sts.stsMeta.name e.2.podMeta.name = some e.1 ∧ sts.spec.replicas ≤ e.1 := by
  rw [surplus, List.mem_filter, List.mem_filterMap]
  constructor
  · rintro ⟨⟨p, hp, he⟩, hle⟩
    obtain ⟨o, ho, rfl⟩ := Option.map_eq_some_iff.mp he
    exact ⟨hp, ho, by simpa using hle⟩
  · rintro ⟨hp, ho, hle⟩
    exact ⟨⟨e.2, hp, by rw [ho]; rfl⟩, by simpa using hle⟩

theorem exists_of_predecessorsReady {owned : List Pod} {k : Nat}
    (h : sts.predecessorsReady owned k) :
    ∀ j < k, ∃ p ∈ owned, p.podMeta.name = sts.podName j ∧ p.status.ready := by
  intro j hj
  have hready := List.all_eq_true.mp h j (List.mem_range.mpr hj)
  cases hfind : owned.find? fun p => p.podMeta.name == sts.podName j with
  | none => simp [hfind] at hready
  | some p =>
    rw [hfind] at hready
    exact ⟨p, List.mem_of_find?_eq_some hfind, by simpa using List.find?_some hfind, hready⟩

theorem reconcileOrdered_cases (sts : StatefulSet) (c : Cluster) :
    sts.reconcileOrdered c = c ∨ sts.Deletes c (sts.reconcileOrdered c) ∨
      ∃ k, sts.Creates k c (sts.reconcileOrdered c) ∧
        PvcsKept c.pvcs (sts.reconcileOrdered c).pvcs := by
  rw [reconcileOrdered]
  rcases highest_spec (sts.surplus (c.pods.listOwnedBy sts.stsMeta.uid)) with
    ⟨hnone, hempty⟩ | ⟨e, he, hmem, hall⟩
  · rw [hnone]
    dsimp only
    split
    · exact Or.inl rfl
    next target hfind =>
      split
      next hready =>
        obtain ⟨hkept, hhas⟩ := sts.ensurePvcs_spec target c.pvcs
        have hmissing := List.find?_some hfind
        have hrange := List.mem_range.mp (List.mem_of_find?_eq_some hfind)
        refine Or.inr (Or.inr ⟨target, ⟨by omega, exists_of_predecessorsReady hready, ?_, ?_, rfl,
          hhas⟩, hkept⟩)
        · intro p hp hname
          simp only [exists?, Bool.not_eq_true', List.any_eq_false, beq_iff_eq] at hmissing
          exact hmissing p hp hname
        · intro p hp o ho
          by_contra hle
          have : (o, p) ∈ sts.surplus (c.pods.listOwnedBy sts.stsMeta.uid) :=
            mem_surplus.mpr ⟨hp, ho, not_lt.mp hle⟩
          rw [hempty] at this
          exact List.not_mem_nil this
      · exact Or.inl rfl
  · rw [he]
    obtain ⟨hp, ho, hle⟩ := mem_surplus.mp hmem
    refine Or.inr (Or.inl ⟨e.2, hp, e.1, ho, hle, fun p' hp' o' ho' => ?_, rfl, rfl⟩)
    rcases le_or_gt sts.spec.replicas o' with h | h
    · exact hall (o', p') (mem_surplus.mpr ⟨hp', ho', h⟩)
    · exact h.le.trans hle

@[simp]
theorem writeStatus_pods (sts : StatefulSet) (c : Cluster) : (sts.writeStatus c).pods = c.pods := by
  rw [writeStatus]
  dsimp only
  split <;> rfl

@[simp]
theorem writeStatus_pvcs (sts : StatefulSet) (c : Cluster) : (sts.writeStatus c).pvcs = c.pvcs := by
  rw [writeStatus]
  dsimp only
  split <;> rfl

theorem reconcile_orderly {k : String}
    (hpolicy : ∀ sts, c.statefulsets.get k = some sts →
      sts.spec.podManagementPolicy = .orderedReady) : Orderly k c (reconcile k c) := by
  have hrefl : PvcsKept c.pvcs c.pvcs := fun _ _ h => h
  rw [reconcile]
  split
  · exact ⟨hrefl, Or.inl rfl⟩
  next sts hget =>
    split
    · exact ⟨hrefl, Or.inl rfl⟩
    · rw [hpolicy sts hget]
      dsimp only
      simp only [Orderly, Deletes, Creates, writeStatus_pods, writeStatus_pvcs]
      rcases sts.reconcileOrdered_cases c with heq | hdel | ⟨o, hcreate, hkept⟩
      · rw [heq]
        exact ⟨hrefl, Or.inl rfl⟩
      · have hpvcs : (sts.reconcileOrdered c).pvcs = c.pvcs := by
          obtain ⟨-, -, -, -, -, -, -, h⟩ := hdel
          exact h
        exact ⟨hpvcs ▸ hrefl, Or.inr ⟨sts, hget, Or.inl hdel⟩⟩
      · exact ⟨hkept, Or.inr ⟨sts, hget, Or.inr ⟨o, hcreate⟩⟩⟩

/-! ## Runs -/

inductive Step
  | reconcile
  | setReplicas (replicas : Nat)
  /-- A pod becomes ready, or is so no longer. -/
  | setReady (podKey : String) (ready : Bool)
  /-- Someone else deletes a pod. -/
  | deletePod (podKey : String)

def step (k : String) (c : Cluster) : Step → Cluster
  | .reconcile => reconcile k c
  | .setReplicas replicas =>
    match c.statefulsets.get k with
    | none => c
    | some sts =>
      let sts := { sts with spec := { sts.spec with replicas := replicas } }
      { c with statefulsets := c.statefulsets.update sts }
  | .setReady podKey ready =>
    match c.pods.get podKey with
    | none => c
    | some p =>
      let p := { p with status := { p.status with ready } }
      { c with pods := c.pods.update p }
  | .deletePod podKey => { c with pods := c.pods.delete podKey }

def run (k : String) (c : Cluster) (steps : List Step) : Cluster := steps.foldl (step k) c

/-- The stateful set is in the ordered mode. -/
def Ordered (k : String) (c : Cluster) : Prop :=
  ∀ sts, c.statefulsets.get k = some sts → sts.spec.podManagementPolicy = .orderedReady

theorem reconcileOrdered_statefulsets (sts : StatefulSet) (c : Cluster) :
    (sts.reconcileOrdered c).statefulsets = c.statefulsets := by
  rw [reconcileOrdered]
  split
  · rfl
  · split
    · rfl
    · split <;> rfl

theorem Ordered.writeStatus {k : String} (h : Ordered k c) (sts : StatefulSet) :
    Ordered k (sts.writeStatus c) := by
  rw [StatefulSet.writeStatus]
  split
  · exact h
  next current hget =>
    intro sts' hget'
    rw [Api.get_update] at hget'
    split at hget'
    next hk =>
      have hkey : key current = key sts := Api.key_of_get hget
      have hself : c.statefulsets.get k = some current := by
        rw [hk]
        exact hkey ▸ hget
      rw [← Option.some.inj hget']
      exact h current hself
    next => exact h sts' hget'

theorem Ordered.step {k : String} (h : Ordered k c) (s : Step) : Ordered k (step k c s) := by
  cases s with
  | reconcile =>
    rw [StatefulSet.step, reconcile]
    split
    · exact h
    next sts hget =>
      split
      · exact h
      · rw [h sts hget]
        refine Ordered.writeStatus (fun sts' hget' => h sts' ?_) sts
        rwa [reconcileOrdered_statefulsets] at hget'
  | setReplicas replicas =>
    rw [StatefulSet.step]
    split
    · exact h
    next sts hget =>
      intro sts' hget'
      rw [Api.get_update] at hget'
      split at hget'
      · rw [← Option.some.inj hget']
        exact h sts hget
      · exact h sts' hget'
  | setReady podKey ready =>
    rw [StatefulSet.step]
    split
    · exact h
    · exact h
  | deletePod podKey => exact h

theorem Ordered.run {k : String} (h : Ordered k c) (steps : List Step) :
    Ordered k (run k c steps) := by
  induction steps generalizing c with
  | nil => exact h
  | cons s steps ih => exact ih (h.step s)

theorem step_pvcsKept {k : String} (h : Ordered k c) (s : Step) :
    PvcsKept c.pvcs (step k c s).pvcs := by
  cases s with
  | reconcile => exact (reconcile_orderly h).1
  | setReplicas replicas =>
    rw [step]
    split <;> exact fun _ _ h => h
  | setReady podKey ready =>
    rw [step]
    split <;> exact fun _ _ h => h
  | deletePod podKey => exact fun _ _ h => h

theorem run_pvcsKept {k : String} (h : Ordered k c) (steps : List Step) :
    PvcsKept c.pvcs (run k c steps).pvcs := by
  induction steps generalizing c with
  | nil => exact fun _ _ h => h
  | cons s steps ih => exact (step_pvcsKept h s).trans (ih (h.step s))

/-- In every run, from any cluster, every reconcile of an ordered stateful set makes or deletes one
pod at most: it deletes the highest ordinal and only if that is too high, or makes the lowest one
that is missing when those before it are ready and none is too high.  No claim is ever removed, and
all claims of a pod that was made are there from then on. -/
theorem run_orderly (k : String) (c₀ : Cluster) (h : Ordered k c₀) (before : List Step) :
    let c := run k c₀ before
    let c' := reconcile k c
    Orderly k c c' ∧
      (∀ s, PvcsKept c.pvcs (step k c s).pvcs) ∧
      ∀ (sts : StatefulSet) ordinal, sts.Creates ordinal c c' → ∀ after,
        sts.HasPvcs ordinal (run k c₀ (before ++ .reconcile :: after)).pvcs := by
  intro c c'
  have hc : Ordered k c := h.run before
  refine ⟨reconcile_orderly hc, step_pvcsKept hc, fun sts ordinal hcreate after => ?_⟩
  rw [run, List.foldl_append, List.foldl_cons]
  have hc' : Ordered k c' := hc.step .reconcile
  exact hcreate.2.2.2.2.2.kept (run_pvcsKept hc' after)

/-- An ordered stateful set with one claim template. -/
def demo : Cluster :=
  { statefulsets := ((Api.new "sts" : Api StatefulSet).create
      { stsMeta := { name := "web", namespaceName := "prod", uid := "" }
        spec := { replicas := 2, volumeClaimTemplates := ["data"] } }) }

theorem demo_orderly : Ordered "prod/web" demo ∧ Orderly "prod/web" demo (reconcile "prod/web" demo) := by
  have h : Ordered "prod/web" demo := by
    intro sts hget
    rw [demo, Api.get_create] at hget
    split at hget
    · rw [← Option.some.inj hget]
      rfl
    · cases hget
  exact ⟨h, (run_orderly "prod/web" demo h []).1⟩

end StatefulSet

end CaveHome.ControllerManager
