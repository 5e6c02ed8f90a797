import CaveHome.Lib.Text
import Mathlib.Tactic.SplitIfs

/-!
# Statuses and resources

What a request is refused with, and the resources the server knows.
-/

namespace CaveHome.Apiserver

inductive StatusReason
  | notFound | alreadyExists | conflict | invalid | badRequest | unauthorized | forbidden
  | methodNotAllowed | internalError
  deriving DecidableEq

namespace StatusReason

def code : StatusReason → Nat
  | badRequest => 400
  | unauthorized => 401
  | forbidden => 403
  | notFound => 404
  | methodNotAllowed => 405
  | alreadyExists | conflict => 409
  | invalid => 422
  | internalError => 500

def asStr : StatusReason → String
  | notFound => "NotFound"
  | alreadyExists => "AlreadyExists"
  | conflict => "Conflict"
  | invalid => "Invalid"
  | badRequest => "BadRequest"
  | unauthorized => "Unauthorized"
  | forbidden => "Forbidden"
  | methodNotAllowed => "MethodNotAllowed"
  | internalError => "InternalError"

end StatusReason

structure Status where
  reason : StatusReason
  /-- The code of the answer, which is that of the reason. -/
  code : Nat := reason.code
  message : String
  deriving DecidableEq

namespace Status

def new (reason : StatusReason) (message : String) : Status := { reason, message }

def notFound : String → Status := new .notFound

def alreadyExists : String → Status := new .alreadyExists

def conflict : String → Status := new .conflict

def invalid : String → Status := new .invalid

def badRequest : String → Status := new .badRequest

def forbidden : String → Status := new .forbidden

end Status

/-- Go on if a condition holds, and refuse otherwise. -/
def require (c : Prop) [Decidable c] (refusal : Status) : Except Status Unit :=
  if c then .ok () else .error refusal

theorem require_eq_ok_iff {c : Prop} [Decidable c] {refusal : Status} {u : Unit} :
    require c refusal = .ok u ↔ c := by
  unfold require
  split_ifs with h <;> simp [h]

/-- The value that there is, or a refusal. -/
def okOr {α : Type} (value : Option α) (refusal : Status) : Except Status α :=
  match value with
  | some a => .ok a
  | none => .error refusal

theorem okOr_eq_ok_iff {α : Type} {value : Option α} {refusal : Status} {a : α} :
    okOr value refusal = .ok a ↔ value = some a := by
  cases value <;> simp [okOr]

/-! ## Resources -/

structure GroupVersionKind where
  group : String
  version : String
  kind : String
  deriving DecidableEq

structure GroupVersionResource where
  group : String
  version : String
  resource : String
  deriving DecidableEq

def GroupVersionResource.groupVersion (gvr : GroupVersionResource) : String :=
  if gvr.group = "" then gvr.version else gvr.group ++ "/" ++ gvr.version

structure KindEntry where
  group : String
  version : String
  resource : String
  kind : String
  namespaced : Bool

/-- The resources the server is built with. -/
def kinds : List KindEntry := [
  ⟨"", "v1", "pods", "Pod", true⟩,
  ⟨"", "v1", "services", "Service", true⟩,
  ⟨"", "v1", "endpoints", "Endpoints", true⟩,
  ⟨"", "v1", "configmaps", "ConfigMap", true⟩,
  ⟨"", "v1", "secrets", "Secret", true⟩,
  ⟨"", "v1", "serviceaccounts", "ServiceAccount", true⟩,
  ⟨"", "v1", "namespaces", "Namespace", false⟩,
  ⟨"", "v1", "nodes", "Node", false⟩,
  ⟨"", "v1", "persistentvolumes", "PersistentVolume", false⟩,
  ⟨"apps", "v1", "deployments", "Deployment", true⟩,
  ⟨"apps", "v1", "replicasets", "ReplicaSet", true⟩,
  ⟨"apps", "v1", "statefulsets", "StatefulSet", true⟩,
  ⟨"apps", "v1", "daemonsets", "DaemonSet", true⟩,
  ⟨"batch", "v1", "jobs", "Job", true⟩,
  ⟨"batch", "v1", "cronjobs", "CronJob", true⟩]

def kindEntry (gvr : GroupVersionResource) : Option KindEntry :=
  kinds.find? fun e =>
    e.group == gvr.group && e.version == gvr.version && e.resource == gvr.resource

def kindFor (gvr : GroupVersionResource) : Option GroupVersionKind :=
  (kindEntry gvr).map fun e => ⟨e.group, e.version, e.kind⟩

def isNamespaced (gvr : GroupVersionResource) : Option Bool := (kindEntry gvr).map (·.namespaced)

end CaveHome.Apiserver
