import CaveHome.Apiserver.MergePatch
import CaveHome.Apiserver.Selector
import CaveHome.Lib.Decoder
import CaveHome.Lib.Dict
import Mathlib.Data.List.Sort

/-!
# The registry

The objects of every resource under their keys, the counters of versions and of uids, and the events
that watchers replay.  Every call answers with a status where it is refused, and the registry is then
as it was.
-/

namespace CaveHome.Apiserver

inductive WatchEventKind
  | added | modified | deleted
  deriving DecidableEq

structure WatchEvent (ν : Type) where
  kind : WatchEventKind
  object : Value ν
  resourceVersion : Nat

structure ListOptions where
  /-- The objects of one namespace, or of all. -/
  namespaceName : Option String := none
  labelSelector : LabelSelector := {}
  fieldSelector : FieldSelector := {}
  /-- The size of a page; zero for all in one. -/
  limit : Nat := 0
  continueToken : Option String := none

structure ListResult (ν : Type) where
  items : List (Value ν)
  continueToken : Option String
  resourceVersion : Nat

def storeKey (namespaceName name : String) : String := namespaceName ++ "/" ++ name

structure Registry (ν : Type) where
  stores : Dict GroupVersionResource (BTreeMap String (Value ν)) := ∅
  rv : Nat := 0
  history : Dict GroupVersionResource (List (WatchEvent ν)) := ∅
  uidSeq : Nat := 0

namespace Registry

variable {ν : Type} (r : Registry ν) (gvr : GroupVersionResource)

/-- The object under a key. -/
def stored (key : String) : Option (Value ν) := (r.stores.lookup gvr).bind (BTreeMap.get key)

def checkKnown (gvr : GroupVersionResource) : Except Status Bool :=
  okOr (isNamespaced gvr)
    (.notFound ("the server could not find the requested resource (" ++ gvr.resource ++ ")"))

/-- A counter with at least eight digits. -/
def uidText (n : Nat) : String :=
  "uid-" ++ String.ofList (List.replicate (8 - (toString n).length) '0') ++ toString n

def record (kind : WatchEventKind) (object : Value ν) (rv : Nat) : Registry ν :=
  { r with history :=
      r.history.insert gvr ((r.history.lookup gvr).getD [] ++ [⟨kind, object, rv⟩]) }

/-- Store an object under its next version, and tell the watchers. -/
def store (key : String) (object : Value ν) (kind : WatchEventKind) : Registry ν :=
  let stores := r.stores.insert gvr (BTreeMap.insert key object ((r.stores.lookup gvr).getD []))
  { r with stores, rv := r.rv + 1 }.record gvr kind object (r.rv + 1)

def notFound (name : String) : Status :=
  .notFound (gvr.resource ++ " \"" ++ name ++ "\" not found")

def stale (name : String) : Status :=
  .conflict ("Operation cannot be fulfilled on " ++ gvr.resource ++ " \"" ++ name ++
    "\": the object has been modified; please apply your changes to the latest version " ++
    "and try again")

variable [Float64 ν]

/-- The key that an object names. -/
def keyOf (object : Value ν) : String :=
  storeKey (readMeta object).namespaceName (readMeta object).name

/-- A submitted object with the metadata of a new one. -/
def created (object : Value ν) : Value ν :=
  writeMeta object
    { readMeta object with
      uid := uidText (r.uidSeq + 1)
      resourceVersion := toString (r.rv + 1)
      generation := 1
      deletionTimestamp := none }

def create (object : Value ν) : Except Status (Registry ν × Value ν) := do
  let namespaced ← checkKnown gvr
  let m := readMeta object
  require (m.name ≠ "") (.invalid "metadata.name is required")
  require (namespaced → m.namespaceName ≠ "")
    (.invalid ("namespace is required for " ++ gvr.resource))
  require (r.stored gvr (keyOf object)).isNone
    (.alreadyExists (gvr.resource ++ " \"" ++ m.name ++ "\" already exists"))
  let object' := r.created object
  return ({ r with uidSeq := r.uidSeq + 1 }.store gvr (keyOf object) object' .added, object')

omit [Float64 ν] in
def get (namespaceName name : String) : Except Status (Value ν) := do
  let _ ← checkKnown gvr
  okOr (r.stored gvr (storeKey namespaceName name)) (notFound gvr name)

/-- The stored object that a submission is for, which must name its current version. -/
def current (object : Value ν) : Except Status (Value ν) := do
  let _ ← checkKnown gvr
  let incoming := readMeta object
  require (incoming.name ≠ "") (.invalid "metadata.name is required")
  let existing ← okOr (r.stored gvr (keyOf object)) (notFound gvr incoming.name)
  require (incoming.resourceVersion = (readMeta existing).resourceVersion)
    (stale gvr incoming.name)
  return existing

/-- The submitted object with the metadata of the stored one; the client sets the finalizers. -/
def replaced (existing object : Value ν) : Value ν :=
  let current := readMeta existing
  writeMeta object
    { current with
      resourceVersion := toString (r.rv + 1)
      finalizers := (readMeta object).finalizers
      generation :=
        if specChanged existing object then current.generation + 1 else current.generation }

def update (object : Value ν) : Except Status (Registry ν × Value ν) := do
  let existing ← r.current gvr object
  let object' := r.replaced existing object
  return (r.store gvr (keyOf object) object' .modified, object')

omit [Float64 ν] in
/-- The stored object with the submitted status, or with none. -/
def graftStatus (existing object : Value ν) : Value ν :=
  match object.get "status" with
  | some status => existing.insert "status" status
  | none => existing.remove "status"

def withStatus (existing object : Value ν) : Value ν :=
  writeMeta (graftStatus existing object)
    { readMeta existing with resourceVersion := toString (r.rv + 1) }

def updateStatus (object : Value ν) : Except Status (Registry ν × Value ν) := do
  let existing ← r.current gvr object
  let object' := r.withStatus existing object
  return (r.store gvr (keyOf object) object' .modified, object')

/-- The patched object with its server-controlled metadata. -/
def patched (existing object : Value ν) : Value ν :=
  let current := readMeta existing
  writeMeta object
    { readMeta object with
      uid := current.uid
      resourceVersion := toString (r.rv + 1)
      generation :=
        if specChanged existing object then current.generation + 1 else current.generation }

def applyPatched (namespaceName name : String) (existing object : Value ν) : Registry ν × Value ν :=
  let object := r.patched existing object
  (r.store gvr (storeKey namespaceName name) object .modified, object)

def patchMerge (namespaceName name : String) (patchDoc : Value ν) :
    Except Status (Registry ν × Value ν) := do
  let existing ← r.get gvr namespaceName name
  return r.applyPatched gvr namespaceName name existing (applyMergePatch existing patchDoc)

def patchJson (namespaceName name : String) (ops : List (PatchOp ν)) :
    Except Status (Registry ν × Value ν) := do
  let existing ← r.get gvr namespaceName name
  let object ← applyJsonPatch existing ops
  return r.applyPatched gvr namespaceName name existing object

/-- An object with finalizers is only marked, and is deleted once they are gone. -/
def delete (namespaceName name : String) : Except Status (Registry ν × Value ν × Bool) := do
  let existing ← r.get gvr namespaceName name
  let m := readMeta existing
  let key := storeKey namespaceName name
  if m.hasFinalizers then
    if m.deletionTimestamp.isNone then
      let object := writeMeta existing
        { m with
          deletionTimestamp := some ("delete-requested@rv-" ++ toString (r.rv + 1))
          resourceVersion := toString (r.rv + 1) }
      return (r.store gvr key object .modified, object, false)
    else return (r, existing, false)
  else
    let stores :=
      match r.stores.lookup gvr with
      | some s => r.stores.insert gvr (BTreeMap.remove key s)
      | none => r.stores
    return ({ r with stores, rv := r.rv + 1 }.record gvr .deleted existing (r.rv + 1), existing, true)

/-! ## Reading -/

/-- The order of a list: by namespace, then by name. -/
def listedBefore (a b : Value ν) : Prop :=
  (readMeta a).namespaceName < (readMeta b).namespaceName ∨
    (readMeta a).namespaceName = (readMeta b).namespaceName ∧ (readMeta a).name ≤ (readMeta b).name

instance : DecidableRel (listedBefore (ν := ν)) := fun a b =>
  inferInstanceAs (Decidable ((readMeta a).namespaceName < (readMeta b).namespaceName ∨
    (readMeta a).namespaceName = (readMeta b).namespaceName ∧
      (readMeta a).name ≤ (readMeta b).name))

def selected (opts : ListOptions) (object : Value ν) : Bool :=
  let m := readMeta object
  (opts.namespaceName.map (m.namespaceName == ·)).getD true && opts.labelSelector.matches m.labels &&
    opts.fieldSelector.matches object

/-- The token of a page is the index at which the next one starts. -/
def list (opts : ListOptions) : Except Status (ListResult ν) := do
  let _ ← checkKnown gvr
  let matched := (((((r.stores.lookup gvr).getD []).map (·.2)).filter (selected opts)).insertionSort
    listedBefore)
  let start ←
    match opts.continueToken with
    | none => .ok 0
    | some t => okOr (Text.parseU64 t) (.badRequest "invalid continue token")
  require (start ≤ matched.length) (.badRequest "continue token out of range")
  let slice := matched.drop start
  let (items, continueToken) :=
    if 0 < opts.limit ∧ opts.limit < slice.length then
      (slice.take opts.limit, some (toString (start + opts.limit)))
    else (slice, none)
  return { items, continueToken, resourceVersion := r.rv }

omit [Float64 ν] in
def watchSince (afterResourceVersion : Nat) : Except Status (List (WatchEvent ν)) := do
  let _ ← checkKnown gvr
  return ((r.history.lookup gvr).getD []).filter (afterResourceVersion < ·.resourceVersion)

end Registry

end CaveHome.Apiserver

/-!
## What the registry writes

A call that succeeds changes what is stored under one key, at the next version, and nothing else.
The stored objects carry metadata that the server has written, at versions up to the current one.
-/

namespace CaveHome.Apiserver

namespace Registry

variable {ν : Type} {r r' : Registry ν} {gvr g : GroupVersionResource} {key k : String}

/-- The second registry holds `value` under the key, and what the first holds elsewhere. -/
structure Sets (r r' : Registry ν) (gvr : GroupVersionResource) (key : String)
    (value : Option (Value ν)) : Prop where
  rv_eq : r'.rv = r.rv + 1
  stored_eq : ∀ g k, r'.stored g k = if g = gvr ∧ k = key then value else r.stored g k

theorem Sets.stored_ne {value : Option (Value ν)} (h : Sets r r' gvr key value)
    (hne : ¬(g = gvr ∧ k = key)) : r'.stored g k = r.stored g k := by
  rw [h.stored_eq, if_neg hne]

theorem Sets.stored_self {value : Option (Value ν)} (h : Sets r r' gvr key value) :
    r'.stored gvr key = value := by
  rw [h.stored_eq, if_pos ⟨rfl, rfl⟩]

theorem stored_insert (stores : Dict GroupVersionResource (BTreeMap String (Value ν)))
    (m : BTreeMap String (Value ν)) (g : GroupVersionResource) (k : String) :
    (AList.lookup g (stores.insert gvr m)).bind (BTreeMap.get k) =
      if g = gvr then BTreeMap.get k m else (stores.lookup g).bind (BTreeMap.get k) := by
  split_ifs with hg
  · rw [hg, AList.lookup_insert]
    rfl
  · rw [AList.lookup_insert_ne hg]

theorem get_stores_getD : BTreeMap.get k ((r.stores.lookup gvr).getD []) = r.stored gvr k := by
  unfold stored
  cases r.stores.lookup gvr with
  | none => rfl
  | some s => rfl

theorem sets_store (r : Registry ν) (gvr : GroupVersionResource) (key : String) (object : Value ν)
    (kind : WatchEventKind) : Sets r (r.store gvr key object kind) gvr key (some object) where
  rv_eq := rfl
  stored_eq g k := by
    have hstored : (r.store gvr key object kind).stored g k =
        if g = gvr then BTreeMap.get k (BTreeMap.insert key object ((r.stores.lookup gvr).getD []))
        else r.stored g k := stored_insert _ _ g k
    rw [hstored, BTreeMap.get_insert, get_stores_getD]
    by_cases hg : g = gvr
    · simp [hg]
    · simp [hg]

/-! ## The calls -/

variable [Float64 ν] {object existing : Value ν}

/-- The object has a name of its own, and a namespace if it needs one. -/
structure Creatable (r : Registry ν) (gvr : GroupVersionResource) (object : Value ν) : Prop where
  named : (readMeta object).name ≠ ""
  namespaced : isNamespaced gvr = some true → (readMeta object).namespaceName ≠ ""
  free : r.stored gvr (keyOf object) = none

/-- The object names the current version of the one that is stored under its key. -/
structure Replaces (r : Registry ν) (gvr : GroupVersionResource) (object existing : Value ν) :
    Prop where
  named : (readMeta object).name ≠ ""
  stored : r.stored gvr (keyOf object) = some existing
  version : (readMeta object).resourceVersion = (readMeta existing).resourceVersion

section Congr

variable {object' : Value ν} (h : readMeta object' = readMeta object)
include h

theorem keyOf_congr : keyOf object' = keyOf object := by
  rw [keyOf, keyOf, h]

theorem Creatable.congr (hc : r.Creatable gvr object) : r.Creatable gvr object' where
  named := h ▸ hc.named
  namespaced := h ▸ hc.namespaced
  free := keyOf_congr h ▸ hc.free

theorem Replaces.congr (hr : r.Replaces gvr object existing) : r.Replaces gvr object' existing where
  named := h ▸ hr.named
  stored := keyOf_congr h ▸ hr.stored
  version := h ▸ hr.version

end Congr

theorem create_eq_ok_iff {out : Registry ν × Value ν} :
    r.create gvr object = .ok out ↔ (isNamespaced gvr).isSome ∧ r.Creatable gvr object ∧
      out = ({ r with uidSeq := r.uidSeq + 1 }.store gvr (keyOf object) (r.created object) .added,
        r.created object) := by
  simp only [create, checkKnown, Except.bind_eq_ok_iff, okOr_eq_ok_iff, require_eq_ok_iff,
    Except.pure_eq_ok_iff, Option.isNone_iff_eq_none, exists_const, Option.isSome_iff_exists]
  constructor
  · rintro ⟨namespaced, hknown, hname, hns, hfree, rfl⟩
    refine ⟨⟨namespaced, hknown⟩, ⟨hname, fun h => hns ?_, hfree⟩, rfl⟩
    rw [hknown] at h
    exact Option.some.inj h
  · rintro ⟨⟨namespaced, hknown⟩, h, rfl⟩
    exact ⟨namespaced, hknown, h.named, fun hb => h.namespaced (hb ▸ hknown), h.free, rfl⟩

theorem current_eq_ok_iff : r.current gvr object = .ok existing ↔
    (isNamespaced gvr).isSome ∧ r.Replaces gvr object existing := by
  simp only [current, checkKnown, Except.bind_eq_ok_iff, okOr_eq_ok_iff, require_eq_ok_iff,
    Except.pure_eq_ok_iff, exists_const, Option.isSome_iff_exists]
  constructor
  · rintro ⟨namespaced, hknown, hname, e, hstored, hversion, rfl⟩
    exact ⟨⟨namespaced, hknown⟩, hname, hstored, hversion⟩
  · rintro ⟨⟨namespaced, hknown⟩, h⟩
    exact ⟨namespaced, hknown, h.named, existing, h.stored, h.version, rfl⟩

theorem update_eq_ok_iff {out : Registry ν × Value ν} :
    r.update gvr object = .ok out ↔ (isNamespaced gvr).isSome ∧ ∃ existing,
      r.Replaces gvr object existing ∧
      (r.store gvr (keyOf object) (r.replaced existing object) .modified,
        r.replaced existing object) = out := by
  simp only [update, Except.bind_eq_ok_iff, Except.pure_eq_ok_iff, current_eq_ok_iff, and_assoc,
    exists_and_left]

theorem updateStatus_eq_ok_iff {out : Registry ν × Value ν} :
    r.updateStatus gvr object = .ok out ↔ (isNamespaced gvr).isSome ∧ ∃ existing,
      r.Replaces gvr object existing ∧
      (r.store gvr (keyOf object) (r.withStatus existing object) .modified,
        r.withStatus existing object) = out := by
  simp only [updateStatus, Except.bind_eq_ok_iff, Except.pure_eq_ok_iff, current_eq_ok_iff, and_assoc,
    exists_and_left]

/-- The metadata of the object was written for the next version. -/
def Stamped (r : Registry ν) (object : Value ν) : Prop :=
  ∃ o m, object = writeMeta o m ∧ m.resourceVersion = toString (r.rv + 1)

theorem stamped_created : r.Stamped (r.created object) := ⟨_, _, rfl, rfl⟩

theorem stamped_replaced : r.Stamped (r.replaced existing object) := ⟨_, _, rfl, rfl⟩

theorem stamped_withStatus : r.Stamped (r.withStatus existing object) := ⟨_, _, rfl, rfl⟩

/-- What a call writes is nothing, or something under one key for the next version. -/
inductive Writes (r : Registry ν) (gvr : GroupVersionResource) (key : String) : Registry ν → Prop
  | nothing : Writes r gvr key r
  | put {r' : Registry ν} {object : Value ν} (hset : Sets r r' gvr key (some object))
      (hstamp : r.Stamped object) : Writes r gvr key r'
  | removed {r' : Registry ν} (hset : Sets r r' gvr key none) : Writes r gvr key r'

theorem Writes.stored_ne (h : Writes r gvr key r') (hne : ¬(g = gvr ∧ k = key)) :
    r'.stored g k = r.stored g k := by
  cases h with
  | nothing => rfl
  | put hset => exact hset.stored_ne hne
  | removed hset => exact hset.stored_ne hne

theorem writes_create {out : Registry ν × Value ν} (h : r.create gvr object = .ok out) :
    Writes r gvr (keyOf object) out.1 := by
  obtain ⟨-, -, rfl⟩ := create_eq_ok_iff.mp h
  have hset := sets_store { r with uidSeq := r.uidSeq + 1 } gvr (keyOf object) (r.created object)
    .added
  exact .put ⟨hset.rv_eq, hset.stored_eq⟩ stamped_created

theorem writes_update {out : Registry ν × Value ν} (h : r.update gvr object = .ok out) :
    Writes r gvr (keyOf object) out.1 := by
  obtain ⟨-, existing, -, rfl⟩ := update_eq_ok_iff.mp h
  exact .put (sets_store _ _ _ _ _) stamped_replaced

theorem writes_updateStatus {out : Registry ν × Value ν} (h : r.updateStatus gvr object = .ok out) :
    Writes r gvr (keyOf object) out.1 := by
  obtain ⟨-, existing, -, rfl⟩ := updateStatus_eq_ok_iff.mp h
  exact .put (sets_store _ _ _ _ _) stamped_withStatus

theorem writes_delete {namespaceName name : String} {out : Registry ν × Value ν × Bool}
    (h : r.delete gvr namespaceName name = .ok out) :
    Writes r gvr (storeKey namespaceName name) out.1 := by
  obtain ⟨existing, hget, h⟩ := Except.bind_eq_ok_iff.mp h
  obtain ⟨_, -, hstored⟩ := Except.bind_eq_ok_iff.mp hget
  rw [okOr_eq_ok_iff] at hstored
  dsimp only at h
  split_ifs at h
  · obtain rfl := Except.pure_eq_ok_iff.mp h
    exact .put (sets_store _ _ _ _ _) ⟨_, _, rfl, rfl⟩
  · obtain rfl := Except.pure_eq_ok_iff.mp h
    exact .nothing
  · obtain rfl := Except.pure_eq_ok_iff.mp h
    refine .removed ⟨rfl, fun g k => ?_⟩
    -- the resource has a store, since an object was found in it
    obtain ⟨objects, hobjects, -⟩ := Option.bind_eq_some_iff.mp hstored
    have hcase : (AList.lookup g (r.stores.insert gvr
        (BTreeMap.remove (storeKey namespaceName name) objects))).bind (BTreeMap.get k) =
        if g = gvr then BTreeMap.get k (BTreeMap.remove (storeKey namespaceName name) objects)
        else r.stored g k := stored_insert _ _ g k
    have hget : BTreeMap.get k objects = r.stored gvr k := by rw [stored, hobjects]; rfl
    rw [BTreeMap.get_remove, hget] at hcase
    simp only [record, hobjects]
    rw [stored, hcase]
    by_cases hg : g = gvr
    · simp [hg]
    · simp [hg]

/-! ## The invariant -/

structure Wf (r : Registry ν) : Prop where
  written : ∀ gvr key object, r.stored gvr key = some object → object.Written
  version : ∀ gvr key object, r.stored gvr key = some object →
    ∃ n ≤ r.rv, (readMeta object).resourceVersion = toString n

theorem wf_empty : Wf ({} : Registry ν) where
  written _ _ _ h := nomatch h
  version _ _ _ h := nomatch h

theorem Wf.writes (hwf : Wf r) (h : Writes r gvr key r') : Wf r' := by
  cases h with
  | nothing => exact hwf
  | @put _ object hset hstamp =>
    obtain ⟨o, m, rfl, hm⟩ := hstamp
    constructor
    · intro g k object hobject
      rw [hset.stored_eq] at hobject
      split_ifs at hobject
      · exact ⟨o, m, (Option.some.inj hobject).symm⟩
      · exact hwf.written g k object hobject
    · intro g k object hobject
      rw [hset.stored_eq] at hobject
      rw [hset.rv_eq]
      split_ifs at hobject
      · refine ⟨r.rv + 1, le_rfl, ?_⟩
        rw [← Option.some.inj hobject, readMeta_writeMeta_resourceVersion, hm]
      · obtain ⟨n, hn, hversion⟩ := hwf.version g k object hobject
        exact ⟨n, Nat.le_succ_of_le hn, hversion⟩
  | removed hset =>
    have hold (g : GroupVersionResource) (k : String) (object : Value ν)
        (hobject : r'.stored g k = some object) : r.stored g k = some object := by
      rw [hset.stored_eq] at hobject
      split_ifs at hobject
      exact hobject
    constructor
    · exact fun g k object hobject => hwf.written g k object (hold g k object hobject)
    · intro g k object hobject
      obtain ⟨n, hn, hversion⟩ := hwf.version g k object (hold g k object hobject)
      rw [hset.rv_eq]
      exact ⟨n, Nat.le_succ_of_le hn, hversion⟩

theorem Wf.stored_ne_of_put (hwf : Wf r) (hset : Sets r r' gvr key (some object))
    (hstamp : r.Stamped object) : r'.stored gvr key ≠ r.stored gvr key := by
  rw [hset.stored_self]
  intro hsame
  obtain ⟨n, hn, hversion⟩ := hwf.version gvr key object hsame.symm
  obtain ⟨o, m, rfl, hm⟩ := hstamp
  rw [readMeta_writeMeta_resourceVersion, hm] at hversion
  have hnext := Text.toString_injective hversion
  omega

end Registry

end CaveHome.Apiserver
