import CaveHome.Apiserver.HandlerWrites

/-!
# The status subresource

A write to the status of an object should leave the rest of the object alone.  An update does; a
patch is carried out as if it were for the whole object, and leaves the rest alone exactly if the
patched object does.
-/

namespace CaveHome.Apiserver

variable {ν : Type} [Float64 ν]

/-- The objects differ in their status and their version at most. -/
structure Value.SameButStatus (before after : Value ν) : Prop where
  members : ∀ key, key ≠ "status" → key ≠ "metadata" → after.get key = before.get key
  metadata : ∀ key, key ≠ "resourceVersion" → after.metaGet key = before.metaGet key

/-- The submission has what the stored object has, outside its status and outside the metadata that
the server sets. -/
structure Value.KeepsButStatus (existing object : Value ν) : Prop where
  members : ∀ key, key ≠ "status" → key ≠ "metadata" → object.get key = existing.get key
  metadata : ∀ key, (readMeta existing).member (ν := ν) key = none →
    object.metaGet key = existing.metaGet key
  finalizers : (readMeta object).finalizers = (readMeta existing).finalizers

omit [Float64 ν] in
theorem Value.SameButStatus.refl (object : Value ν) : object.SameButStatus object :=
  ⟨fun _ _ _ => rfl, fun _ _ => rfl⟩

section Metadata

variable {r : Registry ν} {base existing object : Value ν} {m : ObjectMeta} {key : String}

theorem member_resourceVersion_ne (version : String) (h : key ≠ "resourceVersion") :
    ({ m with resourceVersion := version } : ObjectMeta).member (ν := ν) key = m.member key := by
  simp only [ObjectMeta.member, if_neg h]

theorem member_eq_none {m' : ObjectMeta} (hns : m'.namespaceName = m.namespaceName)
    (huid : m'.uid = m.uid) (h : m.member (ν := ν) key = none) :
    m'.member (ν := ν) key = none := by
  revert h
  refine ObjectMeta.member_cases (ν := ν) key ?_ ?_ ?_ ?_ ?_ ?_ ?_ ?_
  · simp [ObjectMeta.member]
  · simp [ObjectMeta.member, hns]
  · simp [ObjectMeta.member, huid]
  · simp [ObjectMeta.member]
  · simp [ObjectMeta.member]
  · simp [ObjectMeta.member]
  · simp [ObjectMeta.member]
  · exact fun hnone _ => hnone m'

theorem Value.Written.metaGet_writeMeta_version (hw : existing.Written)
    (hbase : (readMeta existing).member (ν := ν) key = none →
      base.metaGet key = existing.metaGet key)
    (version : String) (hkey : key ≠ "resourceVersion") :
    (writeMeta base { readMeta existing with resourceVersion := version }).metaGet key =
      existing.metaGet key := by
  rw [metaGet_writeMeta, member_resourceVersion_ne version hkey]
  have hread := hw.member_readMeta key
  cases hmember : (readMeta existing).member (ν := ν) key with
  | none => exact hbase hmember
  | some value =>
    rw [hmember] at hread
    exact hread

omit [Float64 ν] in
theorem get_graftStatus_ne (h : key ≠ "status") :
    (Registry.graftStatus existing object).get key = existing.get key := by
  unfold Registry.graftStatus
  cases object.get "status" with
  | none => exact Value.get_remove_ne h
  | some status => exact Value.get_insert_ne h

theorem sameButStatus_withStatus (hw : existing.Written) :
    existing.SameButStatus (r.withStatus existing object) := by
  constructor
  · intro key hstatus hmetadata
    exact (get_writeMeta_ne hmetadata).trans (get_graftStatus_ne hstatus)
  · intro key hkey
    refine hw.metaGet_writeMeta_version (fun _ => ?_) _ hkey
    rw [Value.metaGet, get_graftStatus_ne (by decide), Value.metaGet]

theorem specChanged_of_eq (h : object.get "spec" = existing.get "spec") :
    specChanged existing object = false := by
  unfold specChanged specOf
  rw [h]
  cases existing.get "spec" with
  | none => rfl
  | some spec =>
    rw [bne, Option.some_beq_some, show (spec == spec) = true from Value.beq_self spec]
    rfl

theorem sameButStatus_replaced (hw : existing.Written) (h : existing.KeepsButStatus object) :
    existing.SameButStatus (r.replaced existing object) := by
  have hspec := specChanged_of_eq (h.members "spec" (by decide) (by decide))
  have hreplaced : r.replaced existing object =
      writeMeta object { readMeta existing with resourceVersion := toString (r.rv + 1) } := by
    simp only [Registry.replaced, hspec, h.finalizers, Bool.false_eq_true, if_false]
  rw [hreplaced]
  constructor
  · intro key hstatus hmetadata
    exact (get_writeMeta_ne hmetadata).trans (h.members key hstatus hmetadata)
  · intro key hkey
    exact hw.metaGet_writeMeta_version (h.metadata key) _ hkey

theorem keepsButStatus_of_replaced
    (h : existing.SameButStatus (r.replaced existing object)) :
    existing.KeepsButStatus object := by
  constructor
  · intro key hstatus hmetadata
    exact (get_writeMeta_ne hmetadata).symm.trans (h.members key hstatus hmetadata)
  · intro key hmember
    have hkey : key ≠ "resourceVersion" := by
      rintro rfl
      exact absurd hmember (by simp [ObjectMeta.member])
    have hget := h.metadata key hkey
    rw [Registry.replaced, metaGet_writeMeta, member_eq_none ?_ ?_ hmember] at hget
    · exact hget
    · rfl
    · rfl
  · have hget := h.metadata "finalizers" (by decide)
    calc (readMeta object).finalizers
        = (readMeta (r.replaced existing object)).finalizers := by
          rw [Registry.replaced, readMeta_writeMeta_finalizers]
      _ = (readMeta existing).finalizers := by simp only [readMeta, hget]

end Metadata

/-! ## Requests -/

theorem resolveVerb_put {rp : ResourcePath} {watch : Bool} {verb : Verb}
    (h : resolveVerb .put rp watch = .ok verb) : verb = .update := by
  unfold resolveVerb at h
  cases hnamed : rp.isNamed <;> simp_all

theorem resolveVerb_patch {rp : ResourcePath} {watch : Bool} {verb : Verb}
    (h : resolveVerb .patch rp watch = .ok verb) : verb = .patch := by
  unfold resolveVerb at h
  cases hnamed : rp.isNamed <;> simp_all

namespace ApiServer

variable {s : ApiServer ν} {req : Request} {rp : ResourcePath}

/-- Every stored object stays but for its status and its version. -/
def StatusOnly (s : ApiServer ν) (req : Request) : Prop :=
  ∀ gvr key, Option.Rel Value.SameButStatus (s.registry.stored gvr key)
    ((s.handle req).1.registry.stored gvr key)

/-- If the request is a patch that is let through, the patched object keeps what it replaces. -/
def PatchKeeps (s : ApiServer ν) (req : Request) (rp : ResourcePath) : Prop :=
  ∀ patched object existing, s.Authorized req .patch rp → s.Submits req rp .patch patched object →
    s.registry.Replaces rp.gvr object existing → existing.KeepsButStatus object

theorem statusOnly_of_eq (h : (s.handle req).1.registry = s.registry) : s.StatusOnly req := by
  intro gvr key
  rw [h]
  cases s.registry.stored gvr key with
  | none => exact .none
  | some object => exact .some (.refl object)

theorem statusOnly_of_sets {gvr : GroupVersionResource} {key : String} {existing object : Value ν}
    (hset : s.registry.Sets (s.handle req).1.registry gvr key (some object))
    (hstored : s.registry.stored gvr key = some existing) (h : existing.SameButStatus object) :
    s.StatusOnly req := by
  intro g k
  rw [hset.stored_eq]
  split_ifs with heq
  · rw [heq.1, heq.2, hstored]
    exact .some h
  · cases s.registry.stored g k with
    | none => exact .none
    | some object => exact .some (.refl object)

theorem statusOnly_of_patchKeeps (hs : s.Reachable)
    (hmethod : req.method = .put ∨ req.method = .patch)
    (hpath : ResourcePath.parse req.path = .ok rp) (hsub : rp.subresource = "status")
    (h : s.PatchKeeps req rp) : s.StatusOnly req := by
  obtain heq | ⟨verb, rp', response, hauth, hd⟩ := handle_cases s req
  · exact statusOnly_of_eq heq
  obtain ⟨hparse, watch, hverb⟩ := addressed_eq_ok hauth.addressed
  obtain rfl := Except.ok.inj (hparse.symm.trans hpath)
  obtain hput | hpatch := hmethod
  · rw [hput] at hverb
    obtain rfl := resolveVerb_put hverb
    obtain ⟨body, stored, -, hupdate⟩ := (dispatch_status_iff hsub).mp ⟨response, hd⟩
    obtain ⟨-, existing, hreplaces, hout⟩ := Registry.updateStatus_eq_ok_iff.mp hupdate
    have hset := Registry.sets_store s.registry rp'.gvr (Registry.keyOf body)
      (s.registry.withStatus existing body) .modified
    rw [(Prod.mk.inj hout).1] at hset
    exact statusOnly_of_sets hset hreplaces.stored
      (sameButStatus_withStatus (hs.wf.written _ _ _ hreplaces.stored))
  · rw [hpatch] at hverb
    obtain rfl := resolveVerb_patch hverb
    obtain ⟨patched, old, object, stored, hpatched, hadmitted, hupdate⟩ :=
      dispatch_patch_iff.mp ⟨response, hd⟩
    obtain ⟨-, existing, hreplaces, hout⟩ := Registry.update_eq_ok_iff.mp hupdate
    have hkeeps := h patched object existing hauth (.patch hpatched hadmitted) hreplaces
    have hset := Registry.sets_store s.registry rp'.gvr (Registry.keyOf object)
      (s.registry.replaced existing object) .modified
    rw [(Prod.mk.inj hout).1] at hset
    exact statusOnly_of_sets hset hreplaces.stored
      (sameButStatus_replaced (hs.wf.written _ _ _ hreplaces.stored) hkeeps)

theorem patchKeeps_of_statusOnly (h : s.StatusOnly req) : s.PatchKeeps req rp := by
  intro patched object existing hauth hsubmits hreplaces
  have hknown := ResourcePath.isNamespaced_of_parse (addressed_eq_ok hauth.addressed).1
  cases hsubmits with
  | patch hpatched hadmitted =>
    have hupdate := Registry.update_eq_ok_iff.mpr ⟨hknown, existing, hreplaces, rfl⟩
    obtain ⟨response, hd⟩ := dispatch_patch_iff.mpr ⟨_, _, _, _, hpatched, hadmitted, hupdate⟩
    have hrel := h rp.gvr (Registry.keyOf object)
    rw [handle_of_dispatch hauth hd, (Registry.sets_store _ _ _ _ _).stored_self,
      hreplaces.stored] at hrel
    cases hrel with
    | some hsame => exact keepsButStatus_of_replaced hsame

/-- Set the status of a pod, and try to set more. -/
def putStatus : Request where
  method := .put
  target := "/api/v1/namespaces/default/pods/b/status"
  body := Bytes.ofString
    "\x7b\"metadata\":\x7b\"resourceVersion\":\"2\"\x7d,\"spec\":\"x\",\"status\":\"Running\"\x7d"

/-- Patch a pod through its status. -/
def patchSpec : Request := patchPod "b/status" "\x7b\"spec\":\"x\"\x7d"

end ApiServer

end CaveHome.Apiserver
