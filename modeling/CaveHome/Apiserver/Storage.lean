import CaveHome.Apiserver.Types
import CaveHome.Kine.Store
import CaveHome.Lib.Text

/-!
# Objects in the key-value store

An object is filed under `/registry/<resource>/<namespace>/<name>`, and a collection is listed by
the beginning of the keys of its objects.  Different objects have different keys.  The beginning
does not end with a `/`, so the list of a namespace also holds what is filed under a longer name
that begins with the name of the namespace.
-/

namespace CaveHome.Apiserver

open Kine (Store)

/-- The key of an object, or with no name the beginning of the keys of a collection. -/
def registryKey (gvr : GroupVersionResource) (namespaceName name : String) : String :=
  let key := "/registry/" ++ gvr.resource
  let key := if namespaceName = "" then key else key ++ "/" ++ namespaceName
  if name = "" then key else key ++ "/" ++ name

/-! ## The backend -/

structure KineBackend where
  store : Store := .new

namespace KineBackend

def internal (e : Kine.KineError) : Status :=
  .new .internalError s!"kine backend error: {e.message}"

/-- A revision as an unsigned 64-bit number. -/
def asU64 (revision : Int) : Nat := (revision % 18446744073709551616).toNat

def create (b : KineBackend) (key : String) (value : Bytes) : Except Status Nat × KineBackend :=
  match b.store.create (Bytes.ofString key) value 0 with
  | (.error e, s) => (.error (internal e), ⟨s⟩)
  | (.ok (some rev), s) => (.ok (asU64 rev), ⟨s⟩)
  | (.ok none, s) => (.error (.alreadyExists s!"key {Text.debug key} already exists"), ⟨s⟩)

def get (b : KineBackend) (key : String) : Except Status (Option Bytes) :=
  .ok ((b.store.getLive (Bytes.ofString key)).map (·.value))

def update (b : KineBackend) (key : String) (value : Bytes) : Except Status Nat × KineBackend :=
  match b.store.update (Bytes.ofString key) value 0 with
  | (.error e, s) => (.error (internal e), ⟨s⟩)
  | (.ok (some rev), s) => (.ok (asU64 rev), ⟨s⟩)
  | (.ok none, s) => (.error (.notFound s!"key {Text.debug key} not found"), ⟨s⟩)

def delete (b : KineBackend) (key : String) : Except Status Bool × KineBackend :=
  match b.store.delete (Bytes.ofString key) with
  | (.error e, s) => (.error (internal e), ⟨s⟩)
  | (.ok deleted, s) => (.ok deleted.isSome, ⟨s⟩)

/-- The entry of a live key that begins with `start`. -/
def listed (b : KineBackend) (start : String) (key : Bytes) : Option (String × Bytes) :=
  if (Bytes.ofString start).isPrefixOf key then
    (b.store.getLive key).map fun row => (Bytes.toStringLossy key, row.value)
  else none

/-- The live rows whose keys begin with `start`, sorted by key. -/
def list (b : KineBackend) (start : String) : Except Status (List (String × Bytes)) :=
  .ok ((b.store.liveKeys.filterMap (b.listed start)).insertionSort fun e e' => e.1 ≤ e'.1)

def revision (b : KineBackend) : Nat := ((b.store.rows.map Kine.Row.modRevision).foldl max 0).toNat

end KineBackend

/-! ## Keys -/

/-- What names an object. -/
structure ObjectRef where
  gvr : GroupVersionResource
  namespaceName : String
  name : String

namespace ObjectRef

def key (o : ObjectRef) : String := registryKey o.gvr o.namespaceName o.name

/-- The resource is known, and the name is not empty and holds no `/`. -/
structure Valid (o : ObjectRef) : Prop where
  known : (kindEntry o.gvr).isSome
  name_ne : o.name ≠ ""
  name_level : '/' ∉ o.name.toList

/-- The key after the resource. -/
def tail (o : ObjectRef) : List Char :=
  if o.namespaceName = "" then o.name.toList
  else o.namespaceName.toList ++ '/' :: o.name.toList

variable {o o' : ObjectRef}

theorem key_toList (h : o.name ≠ "") :
    o.key.toList = "/registry/".toList ++ (o.gvr.resource.toList ++ '/' :: o.tail) := by
  unfold key registryKey tail
  rw [if_neg h]
  split <;> simp

end ObjectRef

theorem kinds_apart : (∀ e ∈ kinds, '/' ∉ e.resource.toList) ∧
    ∀ e ∈ kinds, ∀ e' ∈ kinds, e.resource.toList <+: e'.resource.toList →
      e.group = e'.group ∧ e.version = e'.version ∧ e.resource = e'.resource := by
  decide

theorem mem_kinds_of_known {gvr : GroupVersionResource} (h : (kindEntry gvr).isSome) :
    ∃ e ∈ kinds, e.group = gvr.group ∧ e.version = gvr.version ∧ e.resource = gvr.resource := by
  obtain ⟨e, he⟩ := Option.isSome_iff_exists.mp h
  have hgvr := List.find?_some he
  simp only [Bool.and_eq_true, beq_iff_eq, and_assoc] at hgvr
  exact ⟨e, List.mem_of_find?_eq_some he, hgvr⟩

theorem resource_level {gvr : GroupVersionResource} (h : (kindEntry gvr).isSome) :
    '/' ∉ gvr.resource.toList := by
  obtain ⟨e, he, -, -, hres⟩ := mem_kinds_of_known h
  exact hres ▸ kinds_apart.1 e he

theorem gvr_eq_of_isPrefix {gvr gvr' : GroupVersionResource} (h : (kindEntry gvr).isSome)
    (h' : (kindEntry gvr').isSome) (hpre : gvr.resource.toList <+: gvr'.resource.toList) :
    gvr = gvr' := by
  obtain ⟨e, he, hg, hv, hr⟩ := mem_kinds_of_known h
  obtain ⟨e', he', hg', hv', hr'⟩ := mem_kinds_of_known h'
  obtain ⟨h₁, h₂, h₃⟩ := kinds_apart.2 e he e' he' (by rwa [hr, hr'])
  obtain ⟨group, version, resource⟩ := gvr
  obtain ⟨group', version', resource'⟩ := gvr'
  dsimp only at hg hv hr hg' hv' hr'
  rw [GroupVersionResource.mk.injEq]
  exact ⟨by rw [← hg, h₁, hg'], by rw [← hv, h₂, hv'], by rw [← hr, h₃, hr']⟩

theorem isPrefix_level {a b y : List Char} (ha : '/' ∉ a) (h : a <+: b ++ '/' :: y) : a <+: b := by
  have hb : b ++ ['/'] <+: b ++ '/' :: y := ⟨y, by simp⟩
  obtain hab | hba := List.prefix_or_prefix_of_prefix h hb
  · obtain rfl | hab := List.prefix_concat_iff.mp hab
    · exact absurd (by simp) ha
    · exact hab
  · exact absurd (hba.subset (by simp)) ha

theorem isPrefix_levels_iff {a b x y : List Char} (ha : '/' ∉ a) (hb : '/' ∉ b) :
    a ++ '/' :: x <+: b ++ '/' :: y ↔ a = b ∧ x <+: y := by
  constructor
  · intro h
    have hab : a <+: b := isPrefix_level ha ((List.prefix_append a _).trans h)
    obtain ⟨c, rfl⟩ := hab
    rw [List.append_assoc, List.prefix_append_right_inj] at h
    cases c with
    | nil => exact ⟨(List.append_nil a).symm, (List.cons_prefix_cons.mp h).2⟩
    | cons d c =>
      obtain ⟨rfl, -⟩ := List.cons_prefix_cons.mp h
      exact absurd (by simp) hb
  · rintro ⟨rfl, h⟩
    exact (List.prefix_append_right_inj _).mpr (List.cons_prefix_cons.mpr ⟨rfl, h⟩)

theorem levels_inj {a b x y : List Char} (ha : '/' ∉ a) (hb : '/' ∉ b)
    (h : a ++ '/' :: x = b ++ '/' :: y) : a = b ∧ x = y := by
  have hpre : a ++ '/' :: x <+: b ++ '/' :: y := h ▸ List.prefix_refl _
  obtain ⟨rfl, -⟩ := (isPrefix_levels_iff ha hb).mp hpre
  exact ⟨rfl, (List.cons.inj (List.append_cancel_left h)).2⟩

namespace ObjectRef

variable {o o' : ObjectRef}

theorem eq_of_tail (h : '/' ∉ o.name.toList) (h' : '/' ∉ o'.name.toList) (he : o.tail = o'.tail) :
    o.namespaceName = o'.namespaceName ∧ o.name = o'.name := by
  unfold tail at he
  split at he <;> split at he
  next hn hn' => exact ⟨hn.trans hn'.symm, String.toList_inj.mp he⟩
  next => exact absurd (he ▸ by simp) h
  next => exact absurd (he ▸ by simp) h'
  next =>
    -- the name begins after the last `/`
    have hrev := congrArg List.reverse he
    simp only [List.reverse_append, List.reverse_cons, List.append_assoc, List.singleton_append]
      at hrev
    obtain ⟨hname, hns⟩ := levels_inj (by simpa using h) (by simpa using h') hrev
    exact ⟨String.toList_inj.mp (List.reverse_injective hns),
      String.toList_inj.mp (List.reverse_injective hname)⟩

theorem Valid.eq_of_key (h : o.Valid) (h' : o'.Valid) (he : o.key = o'.key) : o = o' := by
  have hlist := congrArg String.toList he
  rw [key_toList h.name_ne, key_toList h'.name_ne, List.append_cancel_left_eq] at hlist
  obtain ⟨hres, htail⟩ := levels_inj (resource_level h.known) (resource_level h'.known) hlist
  have hgvr := gvr_eq_of_isPrefix h.known h'.known (hres ▸ List.prefix_refl _)
  obtain ⟨hns, hname⟩ := eq_of_tail h.name_level h'.name_level htail
  obtain ⟨gvr, ns, name⟩ := o
  obtain ⟨gvr', ns', name'⟩ := o'
  rw [ObjectRef.mk.injEq]
  exact ⟨hgvr, hns, hname⟩

theorem Valid.listed_iff (h : o.Valid) {gvr : GroupVersionResource} (hgvr : (kindEntry gvr).isSome)
    (ns : String) :
    (registryKey gvr ns "").toList <+: o.key.toList ↔
      o.gvr = gvr ∧ (ns = "" ∨ ns.toList <+: o.tail) := by
  have hlevel := resource_level hgvr
  have hlevel' := resource_level h.known
  rw [key_toList h.name_ne]
  unfold registryKey
  dsimp only
  rw [if_pos rfl]
  split
  next hns =>
    rw [String.toList_append, List.prefix_append_right_inj]
    constructor
    · intro hpre
      exact ⟨(gvr_eq_of_isPrefix hgvr h.known (isPrefix_level hlevel hpre)).symm, .inl hns⟩
    · rintro ⟨rfl, -⟩
      exact List.prefix_append _ _
  next hns =>
    simp only [String.toList_append, List.append_assoc, List.prefix_append_right_inj]
    rw [show "/".toList ++ ns.toList = '/' :: ns.toList from rfl,
      isPrefix_levels_iff hlevel hlevel', or_iff_right hns]
    refine and_congr_left fun _ => ⟨fun hres => ?_, fun hres => by rw [hres]⟩
    exact (gvr_eq_of_isPrefix hgvr h.known (hres ▸ List.prefix_refl _)).symm

end ObjectRef

/-! ## Lists -/

namespace KineBackend

variable {b : KineBackend} {gvr : GroupVersionResource} {ns : String}

/-- Every row was written under the key of an object. -/
def Filed (b : KineBackend) : Prop :=
  ∀ row ∈ b.store.rows, ∃ o : ObjectRef, o.Valid ∧ row.key = Bytes.ofString o.key

/-- What is stored for an object. -/
def body (b : KineBackend) (o : ObjectRef) : Option Bytes :=
  (b.store.getLive (Bytes.ofString o.key)).map (·.value)

/-- A list holds the live objects of the resource in the namespace, or in all namespaces when none
is given, each once, and nothing else. -/
def ListsExactly (b : KineBackend) (gvr : GroupVersionResource) (ns : String) : Prop :=
  ∃ l, b.list (registryKey gvr ns "") = .ok l ∧ l.Nodup ∧
    ∀ key value, (key, value) ∈ l ↔ ∃ o : ObjectRef, o.Valid ∧ o.gvr = gvr ∧
      (ns = "" ∨ o.namespaceName = ns) ∧ key = o.key ∧ b.body o = some value

/-- Nothing live of the resource outside the namespace goes on with the name of the namespace. -/
def Apart (b : KineBackend) (gvr : GroupVersionResource) (ns : String) : Prop :=
  ns ≠ "" → ∀ o : ObjectRef, o.Valid → o.gvr = gvr → (b.body o).isSome → o.namespaceName ≠ ns →
    ¬ ns.toList <+: o.tail

theorem isPrefix_ofString_iff {s t : String} :
    (Bytes.ofString s).isPrefixOf (Bytes.ofString t) = true ↔ s.toList <+: t.toList := by
  rw [List.isPrefixOf_iff_prefix]
  refine ⟨Bytes.isPrefix_of_ofString, ?_⟩
  rintro ⟨rest, hrest⟩
  have ht : t = s ++ String.ofList rest := String.toList_inj.mp (by simp [hrest])
  subst ht
  exact ⟨Bytes.ofString (String.ofList rest), by simp [Bytes.ofString]⟩

theorem Filed.of_live (h : b.Filed) {k : Bytes} {row : Kine.Row} (hrow : b.store.getLive k = some row) :
    ∃ o : ObjectRef, o.Valid ∧ k = Bytes.ofString o.key := by
  have hlast := (Kine.Store.getLive_eq_some_iff.mp hrow).1
  obtain ⟨o, ho, hkey⟩ := h row (VersionedLog.last_mem hlast)
  exact ⟨o, ho, (VersionedLog.last_key hlast).symm.trans hkey⟩

theorem mem_listed_iff {start key : String} {value k : Bytes} :
    b.listed start k = some (key, value) ↔ (Bytes.ofString start).isPrefixOf k = true ∧
      key = Bytes.toStringLossy k ∧ (b.store.getLive k).map (·.value) = some value := by
  unfold listed
  split
  next hpre =>
    cases b.store.getLive k with
    | none => simp [hpre]
    | some row => simp [hpre, eq_comm]
  next hpre => simp [hpre]

theorem Filed.mem_list_iff (h : b.Filed) (hgvr : (kindEntry gvr).isSome) (ns key : String)
    (value : Bytes) :
    (key, value) ∈ b.store.liveKeys.filterMap (b.listed (registryKey gvr ns "")) ↔
      ∃ o : ObjectRef, o.Valid ∧ o.gvr = gvr ∧ (ns = "" ∨ ns.toList <+: o.tail) ∧ key = o.key ∧
        b.body o = some value := by
  rw [List.mem_filterMap]
  simp only [mem_listed_iff, Kine.Store.mem_liveKeys]
  constructor
  · rintro ⟨k, hlive, hpre, rfl, hvalue⟩
    obtain ⟨row, hrow⟩ := Option.isSome_iff_exists.mp hlive
    obtain ⟨o, ho, rfl⟩ := h.of_live hrow
    obtain ⟨hres, hns⟩ := (ho.listed_iff hgvr ns).mp (isPrefix_ofString_iff.mp hpre)
    refine ⟨o, ho, hres, hns, ?_, hvalue⟩
    exact Bytes.toStringLossy_ofString (Bytes.toString?_ofString _)
  · rintro ⟨o, ho, hres, hns, rfl, hvalue⟩
    refine ⟨Bytes.ofString o.key, ?_, ?_, ?_, hvalue⟩
    · rw [← Option.isSome_map]
      exact Option.isSome_of_eq_some hvalue
    · exact isPrefix_ofString_iff.mpr ((ho.listed_iff hgvr ns).mpr ⟨hres, hns⟩)
    · exact (Bytes.toStringLossy_ofString (Bytes.toString?_ofString _)).symm

theorem Filed.nodup_list (h : b.Filed) (start : String) :
    (b.store.liveKeys.filterMap (b.listed start)).Nodup := by
  refine b.store.liveKeys_nodup.filterMap fun k k' e hk hk' => ?_
  obtain ⟨key, value⟩ := e
  obtain ⟨-, hkey, hlive⟩ := mem_listed_iff.mp hk
  obtain ⟨-, hkey', hlive'⟩ := mem_listed_iff.mp hk'
  obtain ⟨row, hrow, -⟩ := Option.map_eq_some_iff.mp hlive
  obtain ⟨row', hrow', -⟩ := Option.map_eq_some_iff.mp hlive'
  obtain ⟨o, -, rfl⟩ := h.of_live hrow
  obtain ⟨o', -, rfl⟩ := h.of_live hrow'
  rw [Bytes.toStringLossy_ofString (Bytes.toString?_ofString _)] at hkey hkey'
  rw [← hkey, hkey']

theorem Filed.listsExactly_iff (h : b.Filed) (hgvr : (kindEntry gvr).isSome) (ns : String) :
    b.ListsExactly gvr ns ↔ b.Apart gvr ns := by
  have hmem (key : String) (value : Bytes) :
      (key, value) ∈ (b.store.liveKeys.filterMap (b.listed (registryKey gvr ns ""))).insertionSort
        (fun e e' => e.1 ≤ e'.1) ↔ _ :=
    (List.mem_insertionSort _).trans (h.mem_list_iff hgvr ns key value)
  constructor
  · rintro ⟨l, hl, -, hexact⟩ hns o ho hres hlive hne hpre
    obtain ⟨value, hvalue⟩ := Option.isSome_iff_exists.mp hlive
    obtain rfl := Except.ok.inj hl
    -- the object is listed, so it would have to be in the namespace
    obtain ⟨o', ho', -, hns', hkey, -⟩ := (hexact o.key value).mp
      ((hmem o.key value).mpr ⟨o, ho, hres, .inr hpre, rfl, hvalue⟩)
    obtain rfl := ho.eq_of_key ho' hkey
    exact hne (hns'.resolve_left hns)
  · intro hapart
    refine ⟨_, rfl, (List.perm_insertionSort _ _).nodup_iff.mpr (h.nodup_list _),
      fun key value => (hmem key value).trans ?_⟩
    refine exists_congr fun o => and_congr_right fun ho => and_congr_right fun hres => ?_
    constructor
    · rintro ⟨hns, hkey, hvalue⟩
      refine ⟨?_, hkey, hvalue⟩
      by_contra hout
      rw [not_or] at hout
      exact hapart hout.1 o ho hres (Option.isSome_of_eq_some hvalue) hout.2
        (hns.resolve_left hout.1)
    · rintro ⟨hns, hkey, hvalue⟩
      refine ⟨hns.imp_right fun hin => ?_, hkey, hvalue⟩
      subst hin
      unfold ObjectRef.tail
      split
      next he => simp [he]
      next => exact List.prefix_append _ _

/-! ## Writing -/

/-- A write under the key of an object. -/
inductive Write
  | create (value : Bytes)
  | update (value : Bytes)
  | delete

def write (b : KineBackend) (o : ObjectRef) : Write → KineBackend
  | .create value => (b.create o.key value).2
  | .update value => (b.update o.key value).2
  | .delete => (b.delete o.key).2

theorem filed_new : Filed {} := fun _ hrow => nomatch hrow

theorem Filed.write (h : b.Filed) {o : ObjectRef} (ho : o.Valid) (w : Write) :
    (b.write o w).Filed := by
  have hpush (row : Int → Kine.Row) (hrow : ∀ rev, (row rev).key = Bytes.ofString o.key) :
      Filed ⟨b.store.push row⟩ := by
    intro r hr
    rw [Kine.Store.push_rows] at hr
    obtain hr | hr := List.mem_append.mp hr
    · exact h r hr
    · rw [List.mem_singleton.mp hr]
      exact ⟨o, ho, hrow _⟩
  cases w with
  | create value =>
    unfold KineBackend.write KineBackend.create Kine.Store.create
    split_ifs
    · exact h
    · exact h
    · exact hpush _ fun _ => rfl
  | update value =>
    unfold KineBackend.write KineBackend.update Kine.Store.update
    split_ifs
    · exact h
    · cases (b.store.getLive (Bytes.ofString o.key)).map Kine.Row.createRevision with
      | none => exact h
      | some rev => exact hpush _ fun _ => rfl
  | delete =>
    unfold KineBackend.write KineBackend.delete Kine.Store.delete
    split_ifs
    · exact h
    · cases (b.store.getLive (Bytes.ofString o.key)).map Kine.Row.createRevision with
      | none => exact h
      | some rev => exact hpush _ fun _ => rfl

/-- Objects have keys of their own, and the list of a collection is exact unless something live of
the resource, outside the namespace, goes on with the name of the namespace. -/
theorem keys_separate {b : KineBackend} (h : b.Filed) {gvr : GroupVersionResource}
    (hgvr : (kindEntry gvr).isSome) (ns : String) :
    (∀ o o' : ObjectRef, o.Valid → o'.Valid → o.key = o'.key → o = o') ∧
      (b.ListsExactly gvr ns ↔ b.Apart gvr ns) :=
  ⟨fun _ _ ho ho' he => ho.eq_of_key ho' he, h.listsExactly_iff hgvr ns⟩

/-- A pod in a namespace. -/
def lampIn (ns : String) : ObjectRef := ⟨⟨"", "v1", "pods"⟩, ns, "lamp"⟩

theorem valid_lampIn (ns : String) : (lampIn ns).Valid :=
  ⟨rfl, show "lamp" ≠ "" by decide, show '/' ∉ "lamp".toList by decide⟩

/-- A store with one pod. -/
def oneLamp (ns : String) : KineBackend := ({} : KineBackend).write (lampIn ns) (.create [1])

theorem filed_oneLamp (ns : String) : (oneLamp ns).Filed := filed_new.write (valid_lampIn ns) _

theorem keys_separate_lamps :
    ((lampIn "a").key = (lampIn "b").key → lampIn "a" = lampIn "b") ∧
      ((oneLamp "a").ListsExactly (lampIn "a").gvr "b" ↔
        (oneLamp "a").Apart (lampIn "a").gvr "b") := by
  have hkind : (kindEntry (lampIn "a").gvr).isSome := rfl
  obtain ⟨hkeys, hlists⟩ := keys_separate (filed_oneLamp "a") hkind "b"
  exact ⟨hkeys _ _ (valid_lampIn "a") (valid_lampIn "b"), hlists⟩

/-- The list of the namespace `default` holds a pod of the namespace `default-2`. -/
theorem lists_other_namespace :
    ¬ ∀ (b : KineBackend) (gvr : GroupVersionResource) (ns : String), b.Filed →
      (kindEntry gvr).isSome → b.ListsExactly gvr ns := by
  intro h
  have hexact := h (oneLamp "default-2") (lampIn "default-2").gvr "default"
    (filed_oneLamp "default-2") rfl
  have hapart := ((filed_oneLamp "default-2").listsExactly_iff rfl "default").mp hexact
  exact hapart (by decide) (lampIn "default-2") (valid_lampIn _) rfl (by decide) (by decide)
    (by decide)

end KineBackend

end CaveHome.Apiserver
