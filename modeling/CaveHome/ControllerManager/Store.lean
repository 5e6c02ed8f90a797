import CaveHome.ControllerManager.Types
import Mathlib.Data.List.Nodup
import Mathlib.Data.List.Perm.Lattice
import Mathlib.Data.List.Sort

/-!
# The informer store

Objects by their key, with indices by namespace and by label.  Every iteration over the objects is
in the order of the keys, and so the map is kept in that order.
-/

namespace CaveHome.ControllerManager

/-! ## Indices -/

/-- For each name the keys of the objects that have it. -/
abbrev Index := BTreeMap String (BTreeSet String)

namespace Index

def members (m : Index) (name : String) : BTreeSet String := (m.get name).getD []

def enter (key : String) (m : Index) (name : String) : Index :=
  BTreeMap.insert name (BTreeSet.insert key (m.members name)) m

/-- A name without members is taken out. -/
def drop (key : String) (m : Index) (name : String) : Index :=
  match m.get name with
  | none => m
  | some s =>
    let s := BTreeSet.remove key s
    if s.isEmpty then BTreeMap.remove name m else BTreeMap.insert name s m

variable {m : Index} {key k name n : String} {names : List String}

theorem mem_enter : k ∈ (m.enter key name).members n ↔ (n = name ∧ k = key) ∨ k ∈ m.members n := by
  rw [members, enter, BTreeMap.get_insert]
  by_cases hn : n = name
  · simp [hn, members]
  · simp [hn, members]

theorem mem_drop : k ∈ (m.drop key name).members n ↔ k ∈ m.members n ∧ ¬ (n = name ∧ k = key) := by
  rw [members, drop]
  by_cases hn : n = name
  · subst hn
    cases hget : m.get n with
    | none => simp [members, hget]
    | some s =>
      dsimp only
      split
      next hempty =>
        have hall : ∀ k ∈ s, k = key := by
          simpa [BTreeSet.remove] using hempty
        simp only [BTreeMap.get_remove, if_pos, Option.getD_none, List.not_mem_nil, members, hget,
          Option.getD_some, true_and, false_iff, not_and, not_not]
        exact hall k
      · simp [members, hget]
  · cases hget : m.get name with
    | none => simp [members, hn]
    | some s =>
      dsimp only
      split
      · simp [members, hn, BTreeMap.get_remove_ne]
      · simp [members, hn, BTreeMap.get_insert_ne]

theorem mem_foldl_enter :
    k ∈ (names.foldl (enter key) m).members n ↔ (n ∈ names ∧ k = key) ∨ k ∈ m.members n := by
  induction names generalizing m with
  | nil => simp
  | cons name names ih =>
    rw [List.foldl_cons, ih, mem_enter, List.mem_cons]
    tauto

theorem mem_foldl_drop :
    k ∈ (names.foldl (drop key) m).members n ↔ k ∈ m.members n ∧ ¬ (n ∈ names ∧ k = key) := by
  induction names generalizing m with
  | nil => simp
  | cons name names ih =>
    rw [List.foldl_cons, ih, mem_drop, List.mem_cons]
    tauto

/-- The members of every name are in order. -/
def Ordered (m : Index) : Prop := ∀ n, (m.members n).Sorted

theorem Ordered.enter (h : m.Ordered) (key name : String) : (m.enter key name).Ordered := by
  intro n
  rw [members, Index.enter, BTreeMap.get_insert]
  split
  · exact (h name).insert key
  · exact h n

theorem Ordered.drop (h : m.Ordered) (key name : String) : (m.drop key name).Ordered := by
  intro n
  rw [Index.drop]
  cases hget : m.get name with
  | none => exact h n
  | some s =>
    have hs : s.Sorted := by simpa [members, hget] using h name
    dsimp only
    split
    · rw [members, BTreeMap.get_remove]
      split
      · exact List.Pairwise.nil
      · exact h n
    · rw [members, BTreeMap.get_insert]
      split
      · exact hs.remove key
      · exact h n

theorem Ordered.foldl_enter (h : m.Ordered) (key : String) (names : List String) :
    (names.foldl (Index.enter key) m).Ordered := by
  induction names generalizing m with
  | nil => exact h
  | cons name names ih => exact ih (h.enter key name)

theorem Ordered.foldl_drop (h : m.Ordered) (key : String) (names : List String) :
    (names.foldl (Index.drop key) m).Ordered := by
  induction names generalizing m with
  | nil => exact h
  | cons name names ih => exact ih (h.drop key name)

/-- The index lists exactly the objects by their names. -/
structure Indexes {α : Type} (m : Index) (names : α → List String) (items : BTreeMap String α) :
    Prop where
  ordered : m.Ordered
  mem_iff : ∀ n k, k ∈ m.members n ↔ ∃ o, items.get k = some o ∧ n ∈ names o

variable {α : Type} {objectNames : α → List String} {items : BTreeMap String α}

theorem indexes_nil (objectNames : α → List String) :
    Indexes ([] : Index) objectNames ([] : BTreeMap String α) :=
  ⟨fun _ => List.Pairwise.nil, fun n k => by simp [members]⟩

/-- The index without the names of the object that is stored under the key. -/
def without (objectNames : α → List String) (items : BTreeMap String α) (key : String) (m : Index) :
    Index :=
  match items.get key with
  | none => m
  | some old => (objectNames old).foldl (drop key) m

theorem Indexes.mem_without (h : m.Indexes objectNames items) (key n k : String) :
    k ∈ (without objectNames items key m).members n ↔ k ∈ m.members n ∧ k ≠ key := by
  rw [without]
  cases hget : items.get key with
  | none =>
    refine ⟨fun hk => ⟨hk, ?_⟩, And.left⟩
    rintro rfl
    obtain ⟨o, ho, -⟩ := (h.mem_iff n k).mp hk
    simp [hget] at ho
  | some old =>
    rw [mem_foldl_drop]
    refine and_congr_right fun hk => ⟨fun hnot he => hnot ⟨?_, he⟩, fun hne he => hne he.2⟩
    subst he
    obtain ⟨o, ho, hn⟩ := (h.mem_iff n k).mp hk
    obtain rfl := Option.some.inj (hget.symm.trans ho)
    exact hn

theorem Indexes.ordered_without (h : m.Indexes objectNames items) (key : String) :
    (without objectNames items key m).Ordered := by
  rw [without]
  split
  · exact h.ordered
  · exact h.ordered.foldl_drop key _

theorem Indexes.insert (h : m.Indexes objectNames items) (key : String) (o : α) :
    Indexes ((objectNames o).foldl (enter key) (without objectNames items key m)) objectNames
      (BTreeMap.insert key o items) := by
  refine ⟨(h.ordered_without key).foldl_enter key _, fun n k => ?_⟩
  rw [mem_foldl_enter, h.mem_without, BTreeMap.get_insert]
  by_cases hk : k = key
  · simp [hk]
  · simp [hk, h.mem_iff]

theorem Indexes.remove (h : m.Indexes objectNames items) (key : String) :
    Indexes (without objectNames items key m) objectNames (BTreeMap.remove key items) := by
  refine ⟨h.ordered_without key, fun n k => ?_⟩
  rw [h.mem_without, BTreeMap.get_remove]
  by_cases hk : k = key
  · simp [hk]
  · simp [hk, h.mem_iff]

end Index

/-! ## The store -/

variable {α : Type} [Object α]

/-- The name of the namespace index under which the object is listed. -/
def namespaceKeys (o : α) : List String := [(objectMeta o).namespaceName]

def labelIndexKeys (o : α) : List String :=
  (objectMeta o).labels.map fun e => e.1 ++ "=" ++ e.2

/-- Every object is stored under its own key, and the indices list exactly the objects. -/
structure Store (α : Type) [Object α] where
  items : BTreeMap String α := []
  byNamespace : Index := []
  byLabel : Index := []
  sorted : items.Sorted := by exact BTreeMap.sorted_nil
  keyed : ∀ k o, items.get k = some o → key o = k := by simp
  namespaceIndex : byNamespace.Indexes namespaceKeys items := by exact Index.indexes_nil _
  labelIndex : byLabel.Indexes labelIndexKeys items := by exact Index.indexes_nil _

namespace Store

def empty : Store α := {}

/-- Put the object, which takes the place of the one with its key. -/
def upsert (s : Store α) (o : α) : Store α where
  items := BTreeMap.insert (key o) o s.items
  byNamespace := (namespaceKeys o).foldl (Index.enter (key o))
    (Index.without namespaceKeys s.items (key o) s.byNamespace)
  byLabel := (labelIndexKeys o).foldl (Index.enter (key o))
    (Index.without labelIndexKeys s.items (key o) s.byLabel)
  sorted := s.sorted.insert _ _
  keyed k o' h := by
    rw [BTreeMap.get_insert] at h
    split at h
    next hk => exact (congrArg key (Option.some.inj h).symm).trans hk.symm
    next => exact s.keyed k o' h
  namespaceIndex := s.namespaceIndex.insert _ _
  labelIndex := s.labelIndex.insert _ _

def remove (s : Store α) (k : String) : Store α where
  items := BTreeMap.remove k s.items
  byNamespace := Index.without namespaceKeys s.items k s.byNamespace
  byLabel := Index.without labelIndexKeys s.items k s.byLabel
  sorted := s.sorted.remove _
  keyed k' o h := by
    rw [BTreeMap.get_remove] at h
    split at h
    · cases h
    · exact s.keyed k' o h
  namespaceIndex := s.namespaceIndex.remove _
  labelIndex := s.labelIndex.remove _

def get (s : Store α) (k : String) : Option α := s.items.get k

/-- The objects in the order of their keys. -/
def list (s : Store α) : List α := s.items.map (·.2)

/-- The objects of a namespace, through the index. -/
def listByNamespace (s : Store α) (namespaceName : String) : List α :=
  (s.byNamespace.members namespaceName).filterMap s.items.get

/-- The objects with a label, through the index. -/
def listByLabel (s : Store α) (labelKey labelValue : String) : List α :=
  (s.byLabel.members (labelKey ++ "=" ++ labelValue)).filterMap s.items.get

@[simp]
theorem get_upsert (s : Store α) (o : α) (k : String) :
    (s.upsert o).get k = if k = key o then some o else s.get k := BTreeMap.get_insert _ _ _ _

@[simp]
theorem get_remove (s : Store α) (k k' : String) :
    (s.remove k).get k' = if k' = k then none else s.get k' := BTreeMap.get_remove _ _ _

theorem key_of_get {s : Store α} {k : String} {o : α} (h : s.get k = some o) : key o = k :=
  s.keyed k o h

theorem mem_list {s : Store α} {o : α} : o ∈ s.list ↔ s.get (key o) = some o := by
  rw [list, List.mem_map, get, ← s.sorted.mem_iff]
  constructor
  · rintro ⟨⟨k, o'⟩, he, rfl⟩
    have hk := s.keyed k o' (s.sorted.mem_iff.mp he)
    exact hk ▸ he
  · exact fun he => ⟨_, he, rfl⟩

theorem filterMap_members (s : Store α) {m : Index} {objectNames : α → List String}
    (h : m.Indexes objectNames s.items) (n : String) :
    (m.members n).filterMap s.items.get = s.list.filter fun o => n ∈ objectNames o := by
  let named : String × α → Bool := fun e => n ∈ objectNames e.2
  have hsorted : ((s.items.filter named).map (·.1)).Pairwise (· < ·) :=
    List.pairwise_map.mpr (List.Pairwise.filter _ s.sorted)
  have hkeys : m.members n = (s.items.filter named).map (·.1) := by
    refine List.Perm.eq_of_pairwise (fun a b _ _ hab hba => absurd hab (lt_asymm hba))
      (h.ordered n) hsorted ?_
    refine (List.perm_ext_iff_of_nodup ?_ ?_).mpr fun k => ?_
    · exact (h.ordered n).imp ne_of_lt
    · exact hsorted.imp ne_of_lt
    · rw [h.mem_iff, List.mem_map]
      constructor
      · rintro ⟨o, ho, hn⟩
        exact ⟨(k, o), List.mem_filter.mpr ⟨s.sorted.mem_iff.mpr ho, decide_eq_true hn⟩, rfl⟩
      · rintro ⟨⟨k, o⟩, he, rfl⟩
        obtain ⟨he, hn⟩ := List.mem_filter.mp he
        exact ⟨o, s.sorted.mem_iff.mp he, of_decide_eq_true hn⟩
  rw [hkeys, List.filterMap_map, list, List.filter_map]
  have hget : ∀ e ∈ s.items.filter named, (s.items.get ∘ (·.1)) e = some e.2 := by
    intro e he
    exact s.sorted.mem_iff.mp (List.mem_filter.mp he).1
  rw [List.filterMap_congr hget, List.filterMap_eq_map']
  rfl

theorem listByNamespace_eq (s : Store α) (namespaceName : String) :
    s.listByNamespace namespaceName =
      s.list.filter fun o => (objectMeta o).namespaceName = namespaceName := by
  rw [listByNamespace, s.filterMap_members s.namespaceIndex]
  refine List.filter_congr fun o _ => ?_
  simp only [namespaceKeys, List.mem_singleton, eq_comm]

theorem listByLabel_eq (s : Store α) (labelKey labelValue : String) :
    s.listByLabel labelKey labelValue =
      s.list.filter fun o => labelKey ++ "=" ++ labelValue ∈ labelIndexKeys o := by
  rw [listByLabel, s.filterMap_members s.labelIndex]

theorem list_upsert_perm (s : Store α) (o : α) :
    (s.upsert o).list.Perm (o :: (s.remove (key o)).list) :=
  (s.sorted.perm_insert (key o) o).map Prod.snd

theorem list_perm_remove {s : Store α} {k : String} {o : α} (h : s.get k = some o) :
    s.list.Perm (o :: (s.remove k).list) :=
  (s.sorted.perm_cons_remove h).map Prod.snd

theorem list_remove_of_get_none {s : Store α} {k : String} (h : s.get k = none) :
    (s.remove k).list = s.list := by
  rw [list, list, show (s.remove k).items = s.items from BTreeMap.remove_eq_self h]

theorem list_eq_map {s s' : Store α} {f : α → α} (h : ∀ k, s'.get k = (s.get k).map f) :
    s'.list = s.list.map f := by
  have hsorted : BTreeMap.Sorted (s.items.map fun e => (e.1, f e.2)) :=
    List.pairwise_map.mpr s.sorted
  have hitems : s'.items = s.items.map fun e => (e.1, f e.2) :=
    s'.sorted.ext hsorted fun k => (h k).trans (BTreeMap.get_map f s.items k).symm
  rw [list, hitems, list, List.map_map, List.map_map]
  rfl

theorem pairwise_keys (s : Store α) : (s.list.map key).Pairwise (· < ·) := by
  have hkeys : s.list.map key = s.items.map (·.1) := by
    rw [list, List.map_map]
    refine List.map_congr_left fun e he => ?_
    exact s.keyed e.1 e.2 (s.sorted.mem_iff.mp he)
  rw [hkeys]
  exact List.pairwise_map.mpr s.sorted

theorem nodup_keys (s : Store α) : (s.list.map key).Nodup :=
  s.pairwise_keys.imp ne_of_lt

end Store

end CaveHome.ControllerManager
