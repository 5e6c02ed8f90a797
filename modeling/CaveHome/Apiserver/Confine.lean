import CaveHome.Apiserver.HandlerWrites

/-!
# Confined writes

The caller is authorized for the object that the path of the request names, while the registry stores
a submission under the key that the submission names.  A request is confined to what its caller was
authorized for unless it is redirected: it submits an object that names another key, and the registry
takes it there.
-/

namespace CaveHome.Apiserver

/-- The objects that the path names: one, or all of its namespace if it names none. -/
def ResourcePath.Covers (rp : ResourcePath) (gvr : GroupVersionResource) (key : String) : Prop :=
  gvr = rp.gvr ∧ ∃ name, (rp.isNamed → name = rp.name) ∧ key = storeKey rp.namespaceName name

variable {ν : Type}

/-- No plugin changes the metadata of an object. -/
def AdmissionChain.KeepsMetadata (chain : AdmissionChain ν) : Prop :=
  ∀ plugin ∈ chain.mutating, ∀ request request', plugin request = .ok request' →
    ∀ object', request'.object = some object' →
      ∃ object, request.object = some object ∧ object'.get "metadata" = object.get "metadata"

theorem AdmissionChain.KeepsMetadata.foldlM :
    ∀ {mutating : List (AdmissionRequest ν → Except Status (AdmissionRequest ν))}
      {request request' : AdmissionRequest ν} {object' : Value ν},
      KeepsMetadata { mutating } →
      mutating.foldlM (fun request plugin => plugin request) request = .ok request' →
      request'.object = some object' →
      ∃ object, request.object = some object ∧ object'.get "metadata" = object.get "metadata" := by
  intro mutating
  induction mutating with
  | nil =>
    intro request request' object' _ hrun hobject
    obtain rfl := Except.pure_eq_ok_iff.mp hrun
    exact ⟨object', hobject, rfl⟩
  | cons plugin mutating ih =>
    intro request request' object' hkeeps hrun hobject
    rw [List.foldlM_cons] at hrun
    obtain ⟨request₁, hadmitted, hrun⟩ := Except.bind_eq_ok_iff.mp hrun
    obtain ⟨object₁, hobject₁, hmeta⟩ :=
      ih (fun p hp => hkeeps p (List.mem_cons_of_mem plugin hp)) hrun hobject
    obtain ⟨object, hobject, hmeta₁⟩ :=
      hkeeps plugin List.mem_cons_self request request₁ hadmitted object₁ hobject₁
    exact ⟨object, hobject, hmeta.trans hmeta₁⟩

variable [Float64 ν]

namespace ApiServer

variable {s : ApiServer ν} {req : Request} {verb : Verb} {rp : ResourcePath}

theorem readMeta_admitObject {operation : Operation} {body object : Value ν}
    {old : Option (Value ν)} (hkeeps : s.admission.KeepsMetadata)
    (h : s.admitObject operation rp body old = .ok object) : readMeta object = readMeta body := by
  obtain ⟨admitted, hrun, hobject⟩ := Except.bind_eq_ok_iff.mp h
  rw [okOr_eq_ok_iff] at hobject
  obtain ⟨request, hmutating, hrun⟩ := Except.bind_eq_ok_iff.mp hrun
  obtain ⟨_, -, hrun⟩ := Except.bind_eq_ok_iff.mp hrun
  obtain rfl := Except.pure_eq_ok_iff.mp hrun
  obtain ⟨submitted, hsubmitted, hmeta⟩ :=
    AdmissionChain.KeepsMetadata.foldlM hkeeps hmutating hobject
  obtain rfl := Option.some.inj hsubmitted
  exact readMeta_congr hmeta

theorem Submits.readMeta_eq {body object : Value ν} (hkeeps : s.admission.KeepsMetadata)
    (h : s.Submits req rp verb body object) : readMeta object = readMeta body := by
  cases h with
  | create _ hadmitted => exact readMeta_admitObject hkeeps hadmitted
  | status => rfl
  | update _ _ hadmitted => exact readMeta_admitObject hkeeps hadmitted
  | patch _ hadmitted => exact readMeta_admitObject hkeeps hadmitted

/-- No stored object changes but those for which the caller was authorized. -/
def Confined (s : ApiServer ν) (req : Request) : Prop :=
  ∀ gvr key, (∀ verb rp, addressed req = .ok (verb, rp) → ¬rp.Covers gvr key) →
    (s.handle req).1.registry.stored gvr key = s.registry.stored gvr key

/-- The request is let through with an object that names a key outside its path, and the registry
takes the object there. -/
def Redirected (s : ApiServer ν) (req : Request) : Prop :=
  ∃ verb rp body object, s.Authorized req verb rp ∧ s.Submits req rp verb body object ∧
    Takes s.registry rp.gvr body verb ∧ ¬rp.Covers rp.gvr (Registry.keyOf body)

theorem confined_of_not_redirected (hkeeps : s.admission.KeepsMetadata)
    (h : ¬s.Redirected req) : s.Confined req := by
  intro gvr key huncovered
  obtain heq | ⟨verb, rp, response, hauth, hd⟩ := handle_cases s req
  · rw [heq]
  · have hcovers := huncovered verb rp hauth.addressed
    obtain heq | hwrites | ⟨body, object, hsubmits, htakes, hwrites⟩ := dispatch_cases hd
    · rw [heq]
    · apply hwrites.stored_ne
      rintro ⟨rfl, rfl⟩
      exact hcovers ⟨rfl, rp.name, fun _ => rfl, rfl⟩
    · have hmeta := hsubmits.readMeta_eq hkeeps
      apply hwrites.stored_ne
      rintro ⟨rfl, rfl⟩
      rw [Registry.keyOf_congr hmeta] at hcovers
      exact h ⟨verb, rp, body, object, hauth, hsubmits, htakes.congr hmeta.symm, hcovers⟩

theorem not_confined_of_redirected (hwf : s.registry.Wf) (hkeeps : s.admission.KeepsMetadata)
    (h : s.Redirected req) : ¬s.Confined req := by
  obtain ⟨verb, rp, body, object, hauth, hsubmits, htakes, hcovers⟩ := h
  have hmeta := hsubmits.readMeta_eq hkeeps
  have hknown := ResourcePath.isNamespaced_of_parse (addressed_eq_ok hauth.addressed).1
  obtain ⟨r', response, stored, hd, hset, hstamp⟩ := hsubmits.dispatch hknown (htakes.congr hmeta)
  intro hconfined
  refine hwf.stored_ne_of_put hset hstamp ?_
  rw [← handle_of_dispatch hauth hd]
  apply hconfined
  intro verb' rp' haddressed
  obtain ⟨-, rfl⟩ := Prod.mk.inj (Except.ok.inj (hauth.addressed.symm.trans haddressed))
  rwa [Registry.keyOf_congr hmeta]

/-- In every server that is reached, a request is confined exactly if it is not redirected. -/
theorem confined_iff (hs : s.Reachable) (hkeeps : s.admission.KeepsMetadata) (req : Request) :
    s.Confined req ↔ ¬s.Redirected req :=
  ⟨fun hconfined h => not_confined_of_redirected hs.wf hkeeps h hconfined,
    confined_of_not_redirected hkeeps⟩

/-! ## Two patches -/

theorem twoPods_keepsMetadata : twoPods.admission.KeepsMetadata := by
  rw [twoPods_admission]
  intro plugin hadmitted
  cases hadmitted

/-- Label a pod. -/
def relabel : Request :=
  patchPod "a" "\x7b\"metadata\":\x7b\"labels\":\x7b\"room\":\"hall\"\x7d\x7d\x7d"

theorem confined_relabel : twoPods.Confined relabel := by
  have haddressed : addressed relabel =
      .ok (.patch, ⟨"", "v1", "default", "pods", "a", ""⟩) := by decide
  rw [confined_iff twoPods_reachable twoPods_keepsMetadata]
  rintro ⟨verb, rp, body, object, hauth, hsubmits, -, hcovers⟩
  obtain ⟨rfl, rfl⟩ := Prod.mk.inj (Except.ok.inj (hauth.addressed.symm.trans haddressed))
  have hkey : (twoPods.objectToPatch ⟨"", "v1", "default", "pods", "a", ""⟩ relabel).map
      (fun p => Registry.keyOf p.1) = .ok "default/a" := by decide +kernel
  cases hsubmits with
  | patch hpatch _ =>
    rw [hpatch] at hkey
    exact hcovers ⟨rfl, "a", fun _ => rfl, Except.ok.inj hkey⟩

/-- Rename the patch of one pod to another pod, at the version of that pod. -/
def rename : Request :=
  patchPod "a" "\x7b\"metadata\":\x7b\"name\":\"b\",\"resourceVersion\":\"2\"\x7d\x7d"

/-- The caller may patch the pod `a` only, and the pod `b` is overwritten. -/
theorem rename_not_confined : twoPods.Reachable ∧ twoPods.authz = .rbac editors ∧
    twoPods.admission.KeepsMetadata ∧ ¬twoPods.Confined rename := by
  refine ⟨twoPods_reachable, twoPods_authz, twoPods_keepsMetadata, fun hconfined => ?_⟩
  have haddressed : addressed rename =
      .ok (.patch, ⟨"", "v1", "default", "pods", "a", ""⟩) := by decide
  have hstored := hconfined pods "default/b" <| by
    intro verb rp h
    obtain ⟨rfl, rfl⟩ := Prod.mk.inj (Except.ok.inj (haddressed.symm.trans h))
    rintro ⟨-, name, hname, hkey⟩
    rw [hname rfl] at hkey
    exact absurd hkey (by decide)
  have hversion := congrArg (Option.map (·.metaStr "resourceVersion")) hstored
  exact absurd hversion (by decide +kernel)

end ApiServer

end CaveHome.Apiserver
