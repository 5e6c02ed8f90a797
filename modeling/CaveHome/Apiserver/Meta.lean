import CaveHome.Apiserver.Json

/-!
# Object metadata

The metadata of an object is read from its `metadata` member, and the fields that the server
controls are written back to it.
-/

namespace CaveHome.Apiserver

structure OwnerReference where
  apiVersion : String
  kind : String
  name : String
  uid : String
  controller : Bool
  blockOwnerDeletion : Bool
  deriving DecidableEq

structure ObjectMeta where
  name : String
  namespaceName : String
  uid : String
  resourceVersion : String
  generation : Int
  deletionTimestamp : Option String
  finalizers : List String
  ownerReferences : List OwnerReference
  labels : BTreeMap String String
  annotations : BTreeMap String String
  deriving DecidableEq

def ObjectMeta.hasFinalizers (m : ObjectMeta) : Bool := m.finalizers ≠ []

variable {ν : Type}

/-- The member of the metadata. -/
def Value.metaGet (object : Value ν) (key : String) : Option (Value ν) :=
  (object.get "metadata").bind (·.get key)

/-! ## Reading -/

/-- The text of a member, or the empty text. -/
def Value.metaStr (object : Value ν) (key : String) : String :=
  ((object.metaGet key).bind Value.asStr).getD ""

def readStringMap (object : Value ν) (key : String) : BTreeMap String String :=
  (((object.metaGet key).bind Value.asObject).map fun o =>
    o.filterMap fun e => e.2.asStr.map fun s => (e.1, s)).getD []

def readOwnerRef (v : Value ν) : OwnerReference :=
  let s (key : String) : String := ((v.get key).bind Value.asStr).getD ""
  let b (key : String) : Bool := ((v.get key).bind Value.asBool).getD false
  { apiVersion := s "apiVersion"
    kind := s "kind"
    name := s "name"
    uid := s "uid"
    controller := b "controller"
    blockOwnerDeletion := b "blockOwnerDeletion" }

variable [Float64 ν]

def readGeneration : Value ν → Option Int
  | .number n => some (Float64.toI64 n)
  | _ => none

def readMeta (object : Value ν) : ObjectMeta where
  name := object.metaStr "name"
  namespaceName := object.metaStr "namespace"
  uid := object.metaStr "uid"
  resourceVersion := object.metaStr "resourceVersion"
  generation := ((object.metaGet "generation").bind readGeneration).getD 0
  deletionTimestamp := (object.metaGet "deletionTimestamp").bind Value.asStr
  finalizers :=
    (((object.metaGet "finalizers").bind Value.asArray).map (·.filterMap Value.asStr)).getD []
  ownerReferences :=
    (((object.metaGet "ownerReferences").bind Value.asArray).map (·.map readOwnerRef)).getD []
  labels := readStringMap object "labels"
  annotations := readStringMap object "annotations"

/-! ## Writing -/

/-- The members of an object; other values have none. -/
def Value.members : Value ν → BTreeMap String (Value ν)
  | .object m => m
  | _ => []

/-- The metadata with the fields that the server controls. -/
def writeMembers (m : BTreeMap String (Value ν)) (objectMeta : ObjectMeta) :
    BTreeMap String (Value ν) :=
  let m := BTreeMap.insert "name" (.string objectMeta.name) m
  let m :=
    if objectMeta.namespaceName = "" then m
    else BTreeMap.insert "namespace" (.string objectMeta.namespaceName) m
  let m := if objectMeta.uid = "" then m else BTreeMap.insert "uid" (.string objectMeta.uid) m
  let m := BTreeMap.insert "resourceVersion" (.string objectMeta.resourceVersion) m
  let m := BTreeMap.insert "generation" (.number (Float64.ofI64 objectMeta.generation)) m
  let m :=
    match objectMeta.deletionTimestamp with
    | some ts => BTreeMap.insert "deletionTimestamp" (.string ts) m
    | none => BTreeMap.remove "deletionTimestamp" m
  if objectMeta.finalizers = [] then BTreeMap.remove "finalizers" m
  else BTreeMap.insert "finalizers" (.array (objectMeta.finalizers.map .string)) m

/-- Write the metadata; whatever is not an object where one is needed is replaced. -/
def writeMeta (object : Value ν) (objectMeta : ObjectMeta) : Value ν :=
  let md := ((object.get "metadata").map Value.members).getD []
  .object (BTreeMap.insert "metadata" (.object (writeMembers md objectMeta)) object.members)

def specOf (object : Value ν) : Option (Value ν) := object.get "spec"

def specChanged (old new : Value ν) : Bool := specOf old != specOf new

/-! ## What writing does -/

/-- What is written to a member: nothing, or its value, or that it is taken out. -/
def ObjectMeta.member (m : ObjectMeta) (key : String) : Option (Option (Value ν)) :=
  if key = "name" then some (some (.string m.name))
  else if key = "namespace" then
    if m.namespaceName = "" then none else some (some (.string m.namespaceName))
  else if key = "uid" then if m.uid = "" then none else some (some (.string m.uid))
  else if key = "resourceVersion" then some (some (.string m.resourceVersion))
  else if key = "generation" then some (some (.number (Float64.ofI64 m.generation)))
  else if key = "deletionTimestamp" then some (m.deletionTimestamp.map .string)
  else if key = "finalizers" then
    some (if m.finalizers = [] then none else some (.array (m.finalizers.map .string)))
  else none

@[elab_as_elim]
theorem ObjectMeta.member_cases {P : String → Prop} (key : String) (hname : P "name")
    (hnamespace : P "namespace") (huid : P "uid") (hversion : P "resourceVersion")
    (hgeneration : P "generation") (hdeletion : P "deletionTimestamp") (hfinalizers : P "finalizers")
    (hother : (∀ m : ObjectMeta, m.member (ν := ν) key = none) → P key) : P key := by
  by_cases h₁ : key = "name"
  · exact h₁ ▸ hname
  by_cases h₂ : key = "namespace"
  · exact h₂ ▸ hnamespace
  by_cases h₃ : key = "uid"
  · exact h₃ ▸ huid
  by_cases h₄ : key = "resourceVersion"
  · exact h₄ ▸ hversion
  by_cases h₅ : key = "generation"
  · exact h₅ ▸ hgeneration
  by_cases h₆ : key = "deletionTimestamp"
  · exact h₆ ▸ hdeletion
  by_cases h₇ : key = "finalizers"
  · exact h₇ ▸ hfinalizers
  exact hother fun m => by simp [member, h₁, h₂, h₃, h₄, h₅, h₆, h₇]

theorem get_writeMembers (md : BTreeMap String (Value ν)) (m : ObjectMeta) (key : String) :
    BTreeMap.get key (writeMembers md m) = (m.member key).getD (BTreeMap.get key md) := by
  have hts (md : BTreeMap String (Value ν)) : BTreeMap.get key (match m.deletionTimestamp with
      | some ts => BTreeMap.insert "deletionTimestamp" (.string ts) md
      | none => BTreeMap.remove "deletionTimestamp" md) =
      if key = "deletionTimestamp" then m.deletionTimestamp.map Value.string
      else BTreeMap.get key md := by
    cases m.deletionTimestamp with
    | none => exact BTreeMap.get_remove _ _ _
    | some ts => exact BTreeMap.get_insert _ _ _ _
  simp only [writeMembers, ObjectMeta.member, apply_ite (BTreeMap.get key), hts,
    BTreeMap.get_insert, BTreeMap.get_remove]
  -- the inserts are nested the other way round than the tests, so each name is told apart first
  rcases eq_or_ne key "name" with rfl | hname
  · simp
  rcases eq_or_ne key "namespace" with rfl | hnamespace
  · by_cases m.namespaceName = "" <;> simp [*]
  rcases eq_or_ne key "uid" with rfl | huid
  · by_cases m.uid = "" <;> simp [*]
  rcases eq_or_ne key "resourceVersion" with rfl | hversion
  · simp
  rcases eq_or_ne key "generation" with rfl | hgeneration
  · simp
  rcases eq_or_ne key "deletionTimestamp" with rfl | hdeletion
  · simp
  rcases eq_or_ne key "finalizers" with rfl | hfinalizers
  · by_cases m.finalizers = [] <;> simp [*]
  simp [hname, hnamespace, huid, hversion, hgeneration, hdeletion, hfinalizers]

variable {object : Value ν} {m : ObjectMeta} {key : String}

omit [Float64 ν] in
theorem get_members (object : Value ν) (key : String) :
    BTreeMap.get key object.members = object.get key := by
  cases object <;> rfl

theorem get_writeMeta_ne (h : key ≠ "metadata") :
    (writeMeta object m).get key = object.get key := by
  rw [← get_members object]
  exact BTreeMap.get_insert_ne h _ _

theorem metaGet_writeMeta (object : Value ν) (m : ObjectMeta) (key : String) :
    (writeMeta object m).metaGet key = (m.member key).getD (object.metaGet key) := by
  have hmd : (writeMeta object m).get "metadata" =
      some (.object (writeMembers (((object.get "metadata").map Value.members).getD []) m)) :=
    BTreeMap.get_insert_self _ _ _
  have hget : BTreeMap.get key (((object.get "metadata").map Value.members).getD []) =
      object.metaGet key := by
    rw [Value.metaGet]
    cases object.get "metadata" with
    | none => rfl
    | some v => exact get_members v key
  calc (writeMeta object m).metaGet key
      = BTreeMap.get key (writeMembers (((object.get "metadata").map Value.members).getD []) m) := by
        rw [Value.metaGet, hmd]
        rfl
    _ = (m.member key).getD (object.metaGet key) := by rw [get_writeMembers, hget]

/-! ## Reading back -/

section Texts

omit [Float64 ν]

theorem metaGet_of_metaStr_ne (h : object.metaStr key ≠ "") :
    object.metaGet key = some (.string (object.metaStr key)) := by
  unfold Value.metaStr at h ⊢
  cases hv : object.metaGet key with
  | none => simp [hv] at h
  | some v => cases v <;> simp_all [Value.asStr]

@[simp]
theorem asStr_string (s : String) : (Value.string s : Value ν).asStr = some s := rfl

@[simp]
theorem asArray_array (items : List (Value ν)) : (Value.array items).asArray = some items := rfl

@[simp]
theorem filterMap_asStr (texts : List String) :
    texts.filterMap (Value.asStr ∘ Value.string (ν := ν)) = texts := List.filterMap_some

end Texts

theorem readMeta_writeMeta_name : (readMeta (writeMeta object m)).name = m.name := by
  simp [readMeta, Value.metaStr, metaGet_writeMeta, ObjectMeta.member]

theorem readMeta_writeMeta_namespaceName (h : m.namespaceName ≠ "") :
    (readMeta (writeMeta object m)).namespaceName = m.namespaceName := by
  simp [readMeta, Value.metaStr, metaGet_writeMeta, ObjectMeta.member, h]

theorem readMeta_writeMeta_resourceVersion :
    (readMeta (writeMeta object m)).resourceVersion = m.resourceVersion := by
  simp [readMeta, Value.metaStr, metaGet_writeMeta, ObjectMeta.member]

theorem readMeta_writeMeta_deletionTimestamp :
    (readMeta (writeMeta object m)).deletionTimestamp = m.deletionTimestamp := by
  cases h : m.deletionTimestamp <;> simp [readMeta, metaGet_writeMeta, ObjectMeta.member, h]

theorem readMeta_writeMeta_finalizers :
    (readMeta (writeMeta object m)).finalizers = m.finalizers := by
  by_cases h : m.finalizers = [] <;> simp [readMeta, metaGet_writeMeta, ObjectMeta.member, h]

theorem ofI64_readMeta_writeMeta_generation :
    (Float64.ofI64 (readMeta (writeMeta object m)).generation : ν) = Float64.ofI64 m.generation := by
  simp [readMeta, metaGet_writeMeta, ObjectMeta.member, readGeneration, Float64.ofI64_toI64]

theorem readMeta_congr {object' : Value ν} (h : object'.get "metadata" = object.get "metadata") :
    readMeta object' = readMeta object := by
  simp only [readMeta, Value.metaStr, readStringMap, Value.metaGet, h]

/-- The metadata of the object was written by the server. -/
def Value.Written (object : Value ν) : Prop := ∃ o m, object = writeMeta o m

theorem Value.Written.member_readMeta (h : object.Written) (key : String) :
    ((readMeta object).member key).getD (object.metaGet key) = object.metaGet key := by
  have htext (key : String) (hne : object.metaStr key ≠ "") :
      some (.string (object.metaStr key)) = object.metaGet key := (metaGet_of_metaStr_ne hne).symm
  obtain ⟨o, m, rfl⟩ := h
  have hget (key : String) := metaGet_writeMeta o m key
  refine ObjectMeta.member_cases (ν := ν) key ?_ ?_ ?_ ?_ ?_ ?_ ?_ ?_
  · simp [hget, ObjectMeta.member, readMeta_writeMeta_name]
  · by_cases hns : (readMeta (writeMeta o m)).namespaceName = ""
    · simp [ObjectMeta.member, hns]
    · simp only [ObjectMeta.member, hns, if_false, String.reduceEq, if_true, Option.getD_some]
      exact htext "namespace" hns
  · by_cases huid : (readMeta (writeMeta o m)).uid = ""
    · simp [ObjectMeta.member, huid]
    · simp only [ObjectMeta.member, huid, if_false, String.reduceEq, if_true, Option.getD_some]
      exact htext "uid" huid
  · simp [hget, ObjectMeta.member, readMeta_writeMeta_resourceVersion]
  · simp [hget, ObjectMeta.member, ofI64_readMeta_writeMeta_generation]
  · simp [hget, ObjectMeta.member, readMeta_writeMeta_deletionTimestamp]
  · simp [hget, ObjectMeta.member, readMeta_writeMeta_finalizers]
  · intro hnone
    rw [hnone]
    rfl

end CaveHome.Apiserver
