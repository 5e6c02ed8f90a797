import CaveHome.Lib.BTreeMap
import Mathlib.Data.String.Basic

/-!
# Objects

The part of an object's metadata that the controllers read, and the key under which the object is
stored.
-/

namespace CaveHome.ControllerManager

/-- A reference from an object to one of its owners. -/
structure OwnerReference where
  kind : String
  name : String
  uid : String
  /-- Is the owner the managing controller? -/
  controller : Bool
  blockOwnerDeletion : Bool
  deriving DecidableEq

/-- A reference that neither controls nor blocks. -/
def OwnerReference.to (kind name uid : String) : OwnerReference := ⟨kind, name, uid, false, false⟩

def OwnerReference.controlling (r : OwnerReference) : OwnerReference := { r with controller := true }

def OwnerReference.blocking (r : OwnerReference) : OwnerReference :=
  { r with blockOwnerDeletion := true }

structure ObjectMeta where
  name : String
  /-- Empty for an object of the whole cluster. -/
  namespaceName : String
  uid : String
  labels : BTreeMap String String := []
  finalizers : List String := []
  ownerReferences : List OwnerReference := []
  deletionTimestamp : Option Int := none
  deriving DecidableEq

def ObjectMeta.isTerminating (m : ObjectMeta) : Bool := m.deletionTimestamp.isSome

/-- Anything that has metadata. -/
class Object (α : Type) where
  objectMeta : α → ObjectMeta
  withMeta : α → ObjectMeta → α
  objectMeta_withMeta : ∀ o m, objectMeta (withMeta o m) = m

export Object (objectMeta withMeta)

attribute [simp] Object.objectMeta_withMeta

instance : Object ObjectMeta where
  objectMeta := id
  withMeta _ m := m
  objectMeta_withMeta _ _ := rfl

/-- The key of an object with the name in the namespace. -/
def keyOf (namespaceName name : String) : String :=
  if namespaceName = "" then name else namespaceName ++ "/" ++ name

def key {α : Type} [Object α] (o : α) : String :=
  keyOf (objectMeta o).namespaceName (objectMeta o).name

/-- Do the labels have every entry of the selector? -/
def selectorMatches (selector labels : BTreeMap String String) : Bool :=
  selector.all fun e => decide (labels.get e.1 = some e.2)

end CaveHome.ControllerManager
