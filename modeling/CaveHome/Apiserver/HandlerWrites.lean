import CaveHome.Apiserver.Handler
import CaveHome.Apiserver.Registry

/-!
# What a request writes

A request that gets past authorization is carried out on the registry; any other leaves the registry
alone.  Every server that is reached keeps the invariant of the registry.
-/

namespace CaveHome.Apiserver

theorem addressed_eq_ok {req : Request} {verb : Verb} {rp : ResourcePath}
    (h : addressed req = .ok (verb, rp)) :
    ResourcePath.parse req.path = .ok rp ∧ ∃ watch, resolveVerb req.method rp watch = .ok verb := by
  obtain ⟨rp', hparse, h⟩ := Except.bind_eq_ok_iff.mp h
  obtain ⟨verb', hverb, h⟩ := Except.bind_eq_ok_iff.mp h
  obtain ⟨rfl, rfl⟩ := Prod.mk.inj (Except.pure_eq_ok_iff.mp h)
  exact ⟨hparse, _, hverb⟩

theorem ResourcePath.isNamespaced_of_parse {path : String} {rp : ResourcePath}
    (h : ResourcePath.parse path = .ok rp) : (isNamespaced rp.gvr).isSome := by
  obtain ⟨⟨group, version, rest⟩, -, h⟩ := Except.bind_eq_ok_iff.mp h
  dsimp only at h
  split at h
  · cases h
  · split_ifs at h
    unfold finish at h
    split at h
    · cases h
    next hknown =>
      split_ifs at h
      obtain rfl := Except.ok.inj h
      rw [hknown]
      rfl

namespace ApiServer

variable {ν : Type} [Float64 ν] {s : ApiServer ν} {req : Request} {verb : Verb} {rp : ResourcePath}
  {r' : Registry ν} {response : Response ν}

/-- The request is about a resource, and its caller may make it. -/
structure Authorized (s : ApiServer ν) (req : Request) (verb : Verb) (rp : ResourcePath) : Prop where
  notPublic : publicEndpoint req.path = false
  notDiscovery : discoveryEndpoint req.path = false
  addressed : addressed req = .ok (verb, rp)
  allowed : ∃ user, s.authn req = .ok user ∧ s.authorize user rp verb = .ok ()

theorem handle_of_dispatch (h : s.Authorized req verb rp)
    (hd : s.dispatch verb rp req = .ok (r', response)) : (s.handle req).1.registry = r' := by
  obtain ⟨user, hauthn, hauthz⟩ := h.allowed
  have hroute : s.route req = .ok (r', response) := by
    rw [route, h.notPublic, hauthn]
    simp only [Bool.false_eq_true, if_false, bind, Except.bind, h.notDiscovery, h.addressed, hauthz]
    exact hd
  rw [handle, hroute]

theorem handle_cases (s : ApiServer ν) (req : Request) :
    (s.handle req).1.registry = s.registry ∨ ∃ verb rp response,
      s.Authorized req verb rp ∧ s.dispatch verb rp req = .ok ((s.handle req).1.registry, response) := by
  unfold handle
  cases hroute : s.route req with
  | error status => exact .inl rfl
  | ok out =>
    obtain ⟨registry, response⟩ := out
    rw [route] at hroute
    split_ifs at hroute with hpublic hdiscovery
    · exact .inl (congrArg Prod.fst (Except.ok.inj hroute)).symm
    · obtain ⟨user, -, hroute⟩ := Except.bind_eq_ok_iff.mp hroute
      exact .inl (congrArg Prod.fst (Except.pure_eq_ok_iff.mp hroute)).symm
    · obtain ⟨user, hauthn, hroute⟩ := Except.bind_eq_ok_iff.mp hroute
      obtain ⟨⟨verb, rp⟩, haddressed, hroute⟩ := Except.bind_eq_ok_iff.mp hroute
      obtain ⟨⟨⟩, hauthz, hroute⟩ := Except.bind_eq_ok_iff.mp hroute
      exact .inr ⟨verb, rp, response, ⟨by simpa using hpublic, by simpa using hdiscovery,
        haddressed, user, hauthn, hauthz⟩, hroute⟩

@[simp]
theorem handle_authz (s : ApiServer ν) (req : Request) : (s.handle req).1.authz = s.authz := by
  unfold handle
  split <;> rfl

@[simp]
theorem handle_admission (s : ApiServer ν) (req : Request) :
    (s.handle req).1.admission = s.admission := by
  unfold handle
  split <;> rfl

/-! ## The verbs -/

theorem dispatch_create_iff : (∃ response, s.dispatch .create rp req = .ok (r', response)) ↔
    ∃ body object stored, decodeBody req rp = .ok body ∧
      s.admitObject .create rp body none = .ok object ∧
      s.registry.create rp.gvr object = .ok (r', stored) := by
  simp only [dispatch, Except.bind_eq_ok_iff, Except.pure_eq_ok_iff, Prod.exists, Prod.mk.injEq]
  constructor
  · rintro ⟨response, body, hbody, object, hadmitted, registry, stored, hcreate, rfl, -⟩
    exact ⟨body, object, stored, hbody, hadmitted, hcreate⟩
  · rintro ⟨body, object, stored, hbody, hadmitted, hcreate⟩
    exact ⟨_, body, hbody, object, hadmitted, r', stored, hcreate, rfl, rfl⟩

theorem dispatch_status_iff (hsub : rp.subresource = "status") :
    (∃ response, s.dispatch .update rp req = .ok (r', response)) ↔
      ∃ body stored, decodeBody req rp = .ok body ∧
        s.registry.updateStatus rp.gvr body = .ok (r', stored) := by
  simp only [dispatch, hsub, if_true, Except.bind_eq_ok_iff, Except.pure_eq_ok_iff, Prod.exists,
    Prod.mk.injEq]
  constructor
  · rintro ⟨response, body, hbody, registry, stored, hupdate, rfl, -⟩
    exact ⟨body, stored, hbody, hupdate⟩
  · rintro ⟨body, stored, hbody, hupdate⟩
    exact ⟨_, body, hbody, r', stored, hupdate, rfl, rfl⟩

theorem dispatch_update_iff (hsub : rp.subresource ≠ "status") :
    (∃ response, s.dispatch .update rp req = .ok (r', response)) ↔
      ∃ body object stored, decodeBody req rp = .ok body ∧
        s.admitObject .update rp body
          (s.registry.get rp.gvr rp.namespaceName rp.name).toOption = .ok object ∧
        s.registry.update rp.gvr object = .ok (r', stored) := by
  simp only [dispatch, hsub, if_false, Except.bind_eq_ok_iff, Except.pure_eq_ok_iff, Prod.exists,
    Prod.mk.injEq]
  constructor
  · rintro ⟨response, body, hbody, object, hadmitted, registry, stored, hupdate, rfl, -⟩
    exact ⟨body, object, stored, hbody, hadmitted, hupdate⟩
  · rintro ⟨body, object, stored, hbody, hadmitted, hupdate⟩
    exact ⟨_, body, hbody, object, hadmitted, r', stored, hupdate, rfl, rfl⟩

theorem dispatch_patch_iff : (∃ response, s.dispatch .patch rp req = .ok (r', response)) ↔
    ∃ patched existing object stored, s.objectToPatch rp req = .ok (patched, existing) ∧
      s.admitObject .update rp patched (some existing) = .ok object ∧
      s.registry.update rp.gvr object = .ok (r', stored) := by
  simp only [dispatch, Except.bind_eq_ok_iff, Except.pure_eq_ok_iff, Prod.exists, Prod.mk.injEq]
  constructor
  · rintro ⟨response, patched, existing, hpatch, object, hadmitted, registry, stored, hupdate, rfl, -⟩
    exact ⟨patched, existing, object, stored, hpatch, hadmitted, hupdate⟩
  · rintro ⟨patched, existing, object, stored, hpatch, hadmitted, hupdate⟩
    exact ⟨_, patched, existing, hpatch, object, hadmitted, r', stored, hupdate, rfl, rfl⟩

/-- The object that a write submits, and the object that admission makes of it. -/
inductive Submits (s : ApiServer ν) (req : Request) (rp : ResourcePath) :
    Verb → Value ν → Value ν → Prop
  | create {body object : Value ν} (hbody : decodeBody req rp = .ok body)
      (hadmitted : s.admitObject .create rp body none = .ok object) :
      Submits s req rp .create body object
  -- an update of the status is not shown to admission
  | status {body : Value ν} (hsub : rp.subresource = "status")
      (hbody : decodeBody req rp = .ok body) : Submits s req rp .update body body
  | update {body object : Value ν} (hsub : rp.subresource ≠ "status")
      (hbody : decodeBody req rp = .ok body)
      (hadmitted : s.admitObject .update rp body
        (s.registry.get rp.gvr rp.namespaceName rp.name).toOption = .ok object) :
      Submits s req rp .update body object
  | patch {patched existing object : Value ν}
      (hpatch : s.objectToPatch rp req = .ok (patched, existing))
      (hadmitted : s.admitObject .update rp patched (some existing) = .ok object) :
      Submits s req rp .patch patched object

/-- The registry takes the object for the verb. -/
def Takes (r : Registry ν) (gvr : GroupVersionResource) (object : Value ν) : Verb → Prop
  | .create => r.Creatable gvr object
  | _ => ∃ existing, r.Replaces gvr object existing

theorem Takes.congr {r : Registry ν} {gvr : GroupVersionResource} {object object' : Value ν}
    (h : readMeta object' = readMeta object) (ht : Takes r gvr object verb) :
    Takes r gvr object' verb := by
  cases verb with
  | create => exact ht.congr h
  | _ =>
    obtain ⟨existing, hr⟩ := ht
    exact ⟨existing, hr.congr h⟩

theorem dispatch_cases (h : s.dispatch verb rp req = .ok (r', response)) :
    r' = s.registry ∨
      s.registry.Writes rp.gvr (storeKey rp.namespaceName rp.name) r' ∨
      ∃ body object, s.Submits req rp verb body object ∧ Takes s.registry rp.gvr object verb ∧
        s.registry.Writes rp.gvr (Registry.keyOf object) r' := by
  cases verb with
  | get =>
    obtain ⟨object, -, h⟩ := Except.bind_eq_ok_iff.mp h
    exact .inl (congrArg Prod.fst (Except.pure_eq_ok_iff.mp h)).symm
  | list =>
    obtain ⟨opts, -, h⟩ := Except.bind_eq_ok_iff.mp h
    obtain ⟨result, -, h⟩ := Except.bind_eq_ok_iff.mp h
    exact .inl (congrArg Prod.fst (Except.pure_eq_ok_iff.mp h)).symm
  | watch =>
    obtain ⟨lines, -, h⟩ := Except.bind_eq_ok_iff.mp h
    exact .inl (congrArg Prod.fst (Except.pure_eq_ok_iff.mp h)).symm
  | create =>
    obtain ⟨body, object, stored, hbody, hadmitted, hcreate⟩ := dispatch_create_iff.mp ⟨_, h⟩
    exact .inr (.inr ⟨body, object, .create hbody hadmitted,
      (Registry.create_eq_ok_iff.mp hcreate).2.1, Registry.writes_create hcreate⟩)
  | update =>
    by_cases hsub : rp.subresource = "status"
    · obtain ⟨body, stored, hbody, hupdate⟩ := (dispatch_status_iff hsub).mp ⟨_, h⟩
      obtain ⟨-, existing, hreplaces, -⟩ := Registry.updateStatus_eq_ok_iff.mp hupdate
      exact .inr (.inr ⟨body, body, .status hsub hbody, ⟨existing, hreplaces⟩,
        Registry.writes_updateStatus hupdate⟩)
    · obtain ⟨body, object, stored, hbody, hadmitted, hupdate⟩ :=
        (dispatch_update_iff hsub).mp ⟨_, h⟩
      obtain ⟨-, existing, hreplaces, -⟩ := Registry.update_eq_ok_iff.mp hupdate
      exact .inr (.inr ⟨body, object, .update hsub hbody hadmitted, ⟨existing, hreplaces⟩,
        Registry.writes_update hupdate⟩)
  | patch =>
    obtain ⟨patched, existing, object, stored, hpatch, hadmitted, hupdate⟩ :=
      dispatch_patch_iff.mp ⟨_, h⟩
    obtain ⟨-, replaced, hreplaces, -⟩ := Registry.update_eq_ok_iff.mp hupdate
    exact .inr (.inr ⟨patched, object, .patch hpatch hadmitted, ⟨replaced, hreplaces⟩,
      Registry.writes_update hupdate⟩)
  | delete =>
    obtain ⟨existing, -, h⟩ := Except.bind_eq_ok_iff.mp h
    obtain ⟨admitted, -, h⟩ := Except.bind_eq_ok_iff.mp h
    obtain ⟨⟨registry, object, removed⟩, hdelete, h⟩ := Except.bind_eq_ok_iff.mp h
    obtain rfl := congrArg Prod.fst (Except.pure_eq_ok_iff.mp h)
    exact .inr (.inl (Registry.writes_delete hdelete))

theorem Submits.dispatch {body object : Value ν} (h : s.Submits req rp verb body object)
    (hknown : (isNamespaced rp.gvr).isSome) (ht : Takes s.registry rp.gvr object verb) :
    ∃ r' response stored, s.dispatch verb rp req = .ok (r', response) ∧
      s.registry.Sets r' rp.gvr (Registry.keyOf object) (some stored) ∧
      s.registry.Stamped stored := by
  cases h with
  | create hbody hadmitted =>
    have hcreate := Registry.create_eq_ok_iff.mpr ⟨hknown, ht, rfl⟩
    obtain ⟨response, hd⟩ := dispatch_create_iff.mpr ⟨_, _, _, hbody, hadmitted, hcreate⟩
    have hset := Registry.sets_store { s.registry with uidSeq := s.registry.uidSeq + 1 } rp.gvr
      (Registry.keyOf object) (s.registry.created object) .added
    exact ⟨_, response, _, hd, ⟨hset.rv_eq, hset.stored_eq⟩, Registry.stamped_created⟩
  | status hsub hbody =>
    obtain ⟨existing, ht⟩ := ht
    have hupdate := Registry.updateStatus_eq_ok_iff.mpr ⟨hknown, existing, ht, rfl⟩
    obtain ⟨response, hd⟩ := (dispatch_status_iff hsub).mpr ⟨_, _, hbody, hupdate⟩
    exact ⟨_, response, _, hd, Registry.sets_store _ _ _ _ _, Registry.stamped_withStatus⟩
  | update hsub hbody hadmitted =>
    obtain ⟨existing, ht⟩ := ht
    have hupdate := Registry.update_eq_ok_iff.mpr ⟨hknown, existing, ht, rfl⟩
    obtain ⟨response, hd⟩ := (dispatch_update_iff hsub).mpr ⟨_, _, _, hbody, hadmitted, hupdate⟩
    exact ⟨_, response, _, hd, Registry.sets_store _ _ _ _ _, Registry.stamped_replaced⟩
  | patch hpatch hadmitted =>
    obtain ⟨existing, ht⟩ := ht
    have hupdate := Registry.update_eq_ok_iff.mpr ⟨hknown, existing, ht, rfl⟩
    obtain ⟨response, hd⟩ := dispatch_patch_iff.mpr ⟨_, _, _, _, hpatch, hadmitted, hupdate⟩
    exact ⟨_, response, _, hd, Registry.sets_store _ _ _ _ _, Registry.stamped_replaced⟩

theorem Reachable.wf (h : s.Reachable) : s.registry.Wf := by
  induction h with
  | new s hnew =>
    rw [hnew]
    exact Registry.wf_empty
  | handle s req _ ih =>
    obtain heq | ⟨verb, rp, response, -, hd⟩ := handle_cases s req
    · rw [heq]
      exact ih
    · obtain heq | hwrites | ⟨body, object, -, -, hwrites⟩ := dispatch_cases hd
      · rw [heq]
        exact ih
      · exact ih.writes hwrites
      · exact ih.writes hwrites
  | configure s s' _ hr ih =>
    rw [hr]
    exact ih

/-! ## A server with two pods -/

/-- The caller may create pods, and may patch one of them and the status of any. -/
def editors : RbacAuthorizer where
  roles := [⟨"default", "editor", [
    { verbs := ["create"], apiGroups := [""], resources := ["pods"] },
    { verbs := ["patch"], apiGroups := [""], resources := ["pods"], resourceNames := ["a"] },
    { verbs := ["patch", "update"], apiGroups := [""], resources := ["pods/status"] }]⟩]
  roleBindings := [⟨"default", "editors", [⟨.user, "alice", ""⟩], ⟨.role, "editor"⟩⟩]

def createPod (name : String) : Request where
  method := .post
  target := "/api/v1/namespaces/default/pods"
  body := Bytes.ofString ("\x7b\"metadata\":\x7b\"name\":\"" ++ name ++ "\"\x7d\x7d")

def patchPod (path body : String) : Request where
  method := .patch
  target := "/api/v1/namespaces/default/pods/" ++ path
  body := Bytes.ofString body

def pods : GroupVersionResource := ⟨"", "v1", "pods"⟩

def noPods : ApiServer Int where
  authn := fun _ => .ok { name := "alice" }
  authz := .rbac editors

def twoPods : ApiServer Int := ((noPods.handle (createPod "a")).1.handle (createPod "b")).1

theorem twoPods_reachable : twoPods.Reachable := by
  rw [twoPods]
  exact .handle _ _ (.handle _ _ (.new _ rfl))

theorem twoPods_authz : twoPods.authz = .rbac editors := by
  rw [twoPods, handle_authz, handle_authz, noPods]

theorem twoPods_admission : twoPods.admission = {} := by
  rw [twoPods, handle_admission, handle_admission, noPods]

end ApiServer

end CaveHome.Apiserver
