import CaveHome.ControllerManager.Apis
import Mathlib.Data.List.Destutter

/-!
# The namespace controller

A terminating namespace is emptied, and then its finalizer is taken away.  The kinds to empty are
listed twice, once to find what is left and once to delete it, and neither list has the volume
claims.
-/

namespace CaveHome.ControllerManager

/-- The finalizer that holds a namespace until it is empty. -/
def namespaceFinalizer : String := "kubernetes"

inductive NamespaceSweep
  | notTerminating
  | awaitingContent (remaining : List String)
  | removeFinalizer
  | alreadyFinalized
  deriving DecidableEq

/-- What to do with a namespace in which the objects with the keys are left. -/
def namespaceSweep (namespaceMeta : ObjectMeta) (contents : List String) : NamespaceSweep :=
  if !namespaceMeta.isTerminating then .notTerminating
  else if !contents.isEmpty then
    .awaitingContent ((contents.mergeSort fun a b => decide (a ≤ b)).destutter (· ≠ ·))
  else if namespaceMeta.finalizers.any (· == namespaceFinalizer) then .removeFinalizer
  else .alreadyFinalized

namespace Api

variable {α : Type} [Object α]

/-- The keys of the objects in a namespace. -/
def keysIn (a : Api α) (namespaceName : String) : List String :=
  (a.listNamespaced namespaceName).map key

/-- Delete the objects in a namespace. -/
def deleteIn (a : Api α) (namespaceName : String) : Api α := (a.keysIn namespaceName).foldl delete a

theorem mem_keysIn {a : Api α} {n k : String} :
    k ∈ a.keysIn n ↔ ∃ o, a.get k = some o ∧ (objectMeta o).namespaceName = n := by
  rw [keysIn, List.mem_map, listNamespaced, Store.listByNamespace_eq]
  constructor
  · rintro ⟨o, ho, rfl⟩
    obtain ⟨hmem, hn⟩ := List.mem_filter.mp ho
    exact ⟨o, Store.mem_list.mp hmem, of_decide_eq_true hn⟩
  · rintro ⟨o, hget, hn⟩
    have hkey := key_of_get hget
    subst hkey
    exact ⟨o, List.mem_filter.mpr ⟨mem_list.mpr hget, decide_eq_true hn⟩, rfl⟩

theorem get_deleteIn (a : Api α) (n k : String) :
    (a.deleteIn n).get k = (a.get k).filter fun o => (objectMeta o).namespaceName ≠ n := by
  rw [deleteIn, get_foldl_delete]
  cases hget : a.get k with
  | none => exact ite_self none
  | some o =>
    rw [Option.filter_some]
    by_cases hn : (objectMeta o).namespaceName = n
    · rw [if_pos (mem_keysIn.mpr ⟨o, hget, hn⟩)]
      simp [hn]
    · have hmem : k ∉ a.keysIn n := by
        intro hk
        obtain ⟨o', hget', hn'⟩ := mem_keysIn.mp hk
        obtain rfl := Option.some.inj (hget.symm.trans hget')
        exact hn hn'
      rw [if_neg hmem]
      simp [hn]

end Api

/-- The keys of all that is left in the namespace. -/
def namespacedKeys (c : Cluster) (namespaceName : String) : List String :=
  c.pods.keysIn namespaceName ++ c.replicasets.keysIn namespaceName ++
    c.deployments.keysIn namespaceName ++ c.statefulsets.keysIn namespaceName ++
    c.daemonsets.keysIn namespaceName ++ c.jobs.keysIn namespaceName ++
    c.cronjobs.keysIn namespaceName ++ c.endpoints.keysIn namespaceName ++
    c.services.keysIn namespaceName ++ c.serviceAccounts.keysIn namespaceName

def deleteNamespaced (c : Cluster) (namespaceName : String) : Cluster := { c with
  pods := c.pods.deleteIn namespaceName
  replicasets := c.replicasets.deleteIn namespaceName
  deployments := c.deployments.deleteIn namespaceName
  statefulsets := c.statefulsets.deleteIn namespaceName
  daemonsets := c.daemonsets.deleteIn namespaceName
  jobs := c.jobs.deleteIn namespaceName
  cronjobs := c.cronjobs.deleteIn namespaceName
  endpoints := c.endpoints.deleteIn namespaceName
  services := c.services.deleteIn namespaceName
  serviceAccounts := c.serviceAccounts.deleteIn namespaceName }

def Namespace.withoutFinalizer (ns : Namespace) : Namespace :=
  ⟨{ ns.nsMeta with finalizers := ns.nsMeta.finalizers.filter (· ≠ namespaceFinalizer) }⟩

/-- One call for the namespace of the name. -/
def Namespace.reconcile (namespaceName : String) (c : Cluster) : Cluster :=
  match c.namespaces.get namespaceName with
  | none => c
  | some ns =>
    match namespaceSweep ns.nsMeta (namespacedKeys c namespaceName) with
    | .notTerminating | .alreadyFinalized => c
    | .awaitingContent _ => deleteNamespaced c namespaceName
    | .removeFinalizer => { c with namespaces := c.namespaces.update ns.withoutFinalizer }

/-! ## The kinds of objects in namespaces -/

inductive NamespacedKind
  | pods | replicasets | deployments | statefulsets | daemonsets | jobs | cronjobs | endpoints
  | services | serviceAccounts | pvcs
  deriving DecidableEq

/-- The objects of a kind. -/
def NamespacedKind.Carrier : NamespacedKind → Type
  | pods => Pod
  | replicasets => ReplicaSet
  | deployments => Deployment
  | statefulsets => StatefulSet
  | daemonsets => DaemonSet
  | jobs => Job
  | cronjobs => CronJob
  | endpoints => Endpoints
  | services => Service
  | serviceAccounts => ServiceAccount
  | pvcs => PersistentVolumeClaim

instance NamespacedKind.object : (kind : NamespacedKind) → Object kind.Carrier
  | pods => inferInstanceAs (Object Pod)
  | replicasets => inferInstanceAs (Object ReplicaSet)
  | deployments => inferInstanceAs (Object Deployment)
  | statefulsets => inferInstanceAs (Object StatefulSet)
  | daemonsets => inferInstanceAs (Object DaemonSet)
  | jobs => inferInstanceAs (Object Job)
  | cronjobs => inferInstanceAs (Object CronJob)
  | endpoints => inferInstanceAs (Object Endpoints)
  | services => inferInstanceAs (Object Service)
  | serviceAccounts => inferInstanceAs (Object ServiceAccount)
  | pvcs => inferInstanceAs (Object PersistentVolumeClaim)

def Cluster.api (c : Cluster) : (kind : NamespacedKind) → Api kind.Carrier
  | .pods => c.pods
  | .replicasets => c.replicasets
  | .deployments => c.deployments
  | .statefulsets => c.statefulsets
  | .daemonsets => c.daemonsets
  | .jobs => c.jobs
  | .cronjobs => c.cronjobs
  | .endpoints => c.endpoints
  | .services => c.services
  | .serviceAccounts => c.serviceAccounts
  | .pvcs => c.pvcs

variable {c c' : Cluster} {n : String} {ns : Namespace}

theorem namespacedKeys_eq_nil_iff :
    namespacedKeys c n = [] ↔
      ∀ kind : NamespacedKind, kind ≠ .pvcs → (c.api kind).keysIn n = [] := by
  simp only [namespacedKeys, List.append_eq_nil_iff]
  constructor
  · rintro ⟨⟨⟨⟨⟨⟨⟨⟨⟨hp, hr⟩, hd⟩, hst⟩, hds⟩, hj⟩, hcj⟩, he⟩, hs⟩, hsa⟩ kind hkind
    cases kind
    all_goals first | assumption | exact absurd rfl hkind
  · intro h
    exact ⟨⟨⟨⟨⟨⟨⟨⟨⟨h .pods nofun, h .replicasets nofun⟩, h .deployments nofun⟩,
      h .statefulsets nofun⟩, h .daemonsets nofun⟩, h .jobs nofun⟩, h .cronjobs nofun⟩,
      h .endpoints nofun⟩, h .services nofun⟩, h .serviceAccounts nofun⟩

theorem api_deleteNamespaced (c : Cluster) (n : String) (kind : NamespacedKind) :
    (deleteNamespaced c n).api kind =
      if kind = .pvcs then c.api kind else (c.api kind).deleteIn n := by
  cases kind <;> rfl

theorem api_withNamespaces (c : Cluster) (namespaces : Api Namespace) (kind : NamespacedKind) :
    { c with namespaces }.api kind = c.api kind := by
  cases kind <;> rfl

/-- No object of any kind is in the namespace. -/
def Cluster.EmptyIn (c : Cluster) (n : String) : Prop :=
  ∀ kind : NamespacedKind, ∀ o ∈ (c.api kind).list, (objectMeta o).namespaceName ≠ n

theorem emptyIn_iff : c.EmptyIn n ↔ ∀ kind : NamespacedKind, (c.api kind).keysIn n = [] := by
  refine forall_congr' fun kind => ?_
  rw [List.eq_nil_iff_forall_not_mem]
  constructor
  · intro h k hk
    obtain ⟨o, hget, hn⟩ := Api.mem_keysIn.mp hk
    have hkey := Api.key_of_get hget
    exact h o (Api.mem_list.mpr (hkey ▸ hget)) hn
  · intro h o ho hn
    exact h (key o) (Api.mem_keysIn.mpr ⟨o, Api.mem_list.mp ho, hn⟩)

/-! ## What a call does -/

/-- The finalizer is taken away only if the namespace is empty, and all that is in a namespace that
is not empty is deleted, and nothing else. -/
structure Finalizes (n : String) (c c' : Cluster) : Prop where
  empty : ∀ ns ns', c.namespaces.get n = some ns → c'.namespaces.get n = some ns' →
    namespaceFinalizer ∈ ns.nsMeta.finalizers → namespaceFinalizer ∉ ns'.nsMeta.finalizers →
      c.EmptyIn n
  swept : ¬ c.EmptyIn n → c'.namespaces = c.namespaces ∧ ∀ (kind : NamespacedKind) (k : String),
    (c'.api kind).get k = ((c.api kind).get k).filter fun o => (objectMeta o).namespaceName ≠ n

theorem namespaceSweep_of_nil {m : ObjectMeta} (h : m.isTerminating) :
    namespaceSweep m [] =
      if m.finalizers.any (· == namespaceFinalizer) then .removeFinalizer
      else .alreadyFinalized := by
  simp [namespaceSweep, h]

theorem exists_namespaceSweep {m : ObjectMeta} (h : m.isTerminating) {contents : List String}
    (hcontents : contents ≠ []) :
    ∃ remaining, namespaceSweep m contents = .awaitingContent remaining := by
  refine ⟨(contents.mergeSort fun a b => decide (a ≤ b)).destutter (· ≠ ·), ?_⟩
  simp [namespaceSweep, h, hcontents]

theorem Namespace.reconcile_of_keys (hget : c.namespaces.get n = some ns)
    (hterm : ns.nsMeta.isTerminating) (hkeys : namespacedKeys c n ≠ []) :
    reconcile n c = deleteNamespaced c n := by
  obtain ⟨remaining, hsweep⟩ := exists_namespaceSweep hterm hkeys
  rw [reconcile, hget]
  dsimp only
  rw [hsweep]

theorem Namespace.reconcile_of_nil (hget : c.namespaces.get n = some ns)
    (hterm : ns.nsMeta.isTerminating) (hkeys : namespacedKeys c n = []) :
    reconcile n c = if ns.nsMeta.finalizers.any (· == namespaceFinalizer) then
      { c with namespaces := c.namespaces.update ns.withoutFinalizer } else c := by
  rw [reconcile, hget]
  dsimp only
  rw [hkeys, namespaceSweep_of_nil hterm]
  cases ns.nsMeta.finalizers.any (· == namespaceFinalizer) <;> rfl

theorem Namespace.api_reconcile_of_nil (hget : c.namespaces.get n = some ns)
    (hterm : ns.nsMeta.isTerminating) (hkeys : namespacedKeys c n = []) (kind : NamespacedKind) :
    (reconcile n c).api kind = c.api kind := by
  rw [reconcile_of_nil hget hterm hkeys]
  cases ns.nsMeta.finalizers.any (· == namespaceFinalizer)
  · rfl
  · exact api_withNamespaces c _ kind

theorem Namespace.finalizes_of_no_claims (hget : c.namespaces.get n = some ns)
    (hterm : ns.nsMeta.isTerminating) (hclaims : c.pvcs.keysIn n = []) :
    Finalizes n c (reconcile n c) := by
  have hempty : namespacedKeys c n = [] ↔ c.EmptyIn n := by
    rw [namespacedKeys_eq_nil_iff, emptyIn_iff]
    refine ⟨fun h kind => ?_, fun h kind _ => h kind⟩
    by_cases hkind : kind = .pvcs
    · subst hkind
      exact hclaims
    · exact h kind hkind
  by_cases hkeys : namespacedKeys c n = []
  · exact ⟨fun _ _ _ _ _ _ => hempty.mp hkeys, fun h => absurd (hempty.mp hkeys) h⟩
  · rw [reconcile_of_keys hget hterm hkeys]
    refine ⟨fun ns₁ ns₂ h₁ h₂ hmem hnot => ?_, fun _ => ⟨rfl, fun kind k => ?_⟩⟩
    · obtain rfl := Option.some.inj (h₁.symm.trans h₂)
      exact absurd hmem hnot
    · rw [api_deleteNamespaced, ← Api.get_deleteIn]
      split
      next hkind =>
        subst hkind
        change Api.get c.pvcs k = Api.get (c.pvcs.deleteIn n) k
        rw [Api.deleteIn, hclaims]
        rfl
      next => rfl

theorem Namespace.not_finalizes_of_claim (hget : c.namespaces.get n = some ns)
    (hterm : ns.nsMeta.isTerminating) (hclaims : c.pvcs.keysIn n ≠ []) :
    ¬ Finalizes n c (reconcile n c) := by
  intro h
  obtain ⟨k, hk⟩ := List.exists_mem_of_ne_nil _ hclaims
  obtain ⟨o, ho, hn⟩ := Api.mem_keysIn.mp hk
  have hnot : ¬ c.EmptyIn n := fun hempty => hclaims (emptyIn_iff.mp hempty .pvcs)
  -- Whatever the call does, the claims are as they were.
  have hsame : ((reconcile n c).api .pvcs).get k = some o := by
    by_cases hkeys : namespacedKeys c n = []
    · rw [api_reconcile_of_nil hget hterm hkeys]
      exact ho
    · rw [reconcile_of_keys hget hterm hkeys, api_deleteNamespaced]
      exact ho
  have hgone := (h.swept hnot).2 .pvcs k
  rw [hsame] at hgone
  change some o = (c.pvcs.get k).filter (fun claim => (objectMeta claim).namespaceName ≠ n) at hgone
  rw [ho, Option.filter_some, if_neg (by simpa using hn)] at hgone
  cases hgone

/-- For a terminating namespace a call does what it should exactly if no volume claim is in it. -/
theorem Namespace.finalizes_iff (c : Cluster) (n : String) (ns : Namespace)
    (hget : c.namespaces.get n = some ns) (hterm : ns.nsMeta.isTerminating) :
    Finalizes n c (reconcile n c) ↔
      ∀ claim ∈ c.pvcs.list, (objectMeta claim).namespaceName ≠ n := by
  have hnil : c.pvcs.keysIn n = [] ↔
      ∀ claim ∈ c.pvcs.list, (objectMeta claim).namespaceName ≠ n := by
    rw [Api.keysIn, List.map_eq_nil_iff, Api.listNamespaced, Store.listByNamespace_eq,
      List.filter_eq_nil_iff]
    simp [Api.list]
  rw [← hnil]
  constructor
  · intro h
    by_contra hclaims
    exact not_finalizes_of_claim hget hterm hclaims h
  · exact finalizes_of_no_claims hget hterm

/-- A namespace on its way out. -/
def devNamespace : Namespace :=
  ⟨{ name := "dev", namespaceName := "", uid := "ns-1", finalizers := [namespaceFinalizer],
     deletionTimestamp := some 0 }⟩

def devPod : Pod := ⟨{ name := "web", namespaceName := "dev", uid := "pod-1" }, {}⟩

def devClaim : PersistentVolumeClaim :=
  ⟨{ name := "data-db-0", namespaceName := "dev", uid := "pvc-1" }⟩

def withPod : Cluster :=
  { namespaces := (Api.new "ns").create devNamespace, pods := (Api.new "pod").create devPod }

def withClaim : Cluster :=
  { namespaces := (Api.new "ns").create devNamespace, pvcs := (Api.new "pvc").create devClaim }

theorem Namespace.finalizes_withPod :
    withPod.namespaces.get "dev" = some devNamespace ∧ devNamespace.nsMeta.isTerminating ∧
      Finalizes "dev" withPod (reconcile "dev" withPod) := by
  have hget : withPod.namespaces.get "dev" = some devNamespace := by decide
  have hterm : devNamespace.nsMeta.isTerminating := rfl
  refine ⟨hget, hterm, (finalizes_iff withPod "dev" devNamespace hget hterm).mpr ?_⟩
  intro claim hmem
  cases hmem

/-- The namespace with the volume claim loses its finalizer and keeps the claim. -/
theorem Namespace.reconcile_withClaim :
    (reconcile "dev" withClaim).namespaces.get "dev" = some devNamespace.withoutFinalizer ∧
      devNamespace.withoutFinalizer.nsMeta.finalizers = [] ∧
      (reconcile "dev" withClaim).pvcs.get "dev/data-db-0" = some devClaim ∧
      ¬ Finalizes "dev" withClaim (reconcile "dev" withClaim) := by
  have hget : withClaim.namespaces.get "dev" = some devNamespace := by decide
  have hkept : (reconcile "dev" withClaim).pvcs.get "dev/data-db-0" = some devClaim := by
    decide
  refine ⟨by decide, by decide, hkept, ?_⟩
  refine not_finalizes_of_claim hget rfl ?_
  decide

end CaveHome.ControllerManager
