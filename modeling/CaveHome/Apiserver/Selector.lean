import CaveHome.Apiserver.Meta
import CaveHome.Apiserver.Types

/-!
# Selectors

Which objects a list or a watch asks for, by their labels and by their fields.
-/

namespace CaveHome.Apiserver

inductive Requirement
  | equals (key value : String)
  | notEquals (key value : String)
  | inSet (key : String) (values : List String)
  | notIn (key : String) (values : List String)
  | exists (key : String)
  | notExists (key : String)
  deriving DecidableEq

def Requirement.matches (labels : BTreeMap String String) : Requirement → Bool
  | .equals k v => ((BTreeMap.get k labels).map (· == v)).getD false
  | .notEquals k v => ((BTreeMap.get k labels).map (· != v)).getD true
  | .inSet k set => ((BTreeMap.get k labels).map (set.contains ·)).getD false
  | .notIn k set => ((BTreeMap.get k labels).map (!set.contains ·)).getD true
  | .exists k => (BTreeMap.get k labels).isSome
  | .notExists k => (BTreeMap.get k labels).isNone

/-- All requirements have to match. -/
structure LabelSelector where
  requirements : List Requirement := []
  deriving DecidableEq

def trimmed (s : List Char) : String := String.ofList (Text.trim s)

/-- Cut at the commas that are not between parentheses. -/
def splitTopLevel : List Char → Nat → List Char → List (List Char)
  | [], _, cur => if cur = [] then [] else [cur.reverse]
  | '(' :: s, depth, cur => splitTopLevel s (depth + 1) ('(' :: cur)
  | ')' :: s, depth, cur => splitTopLevel s (depth - 1) (')' :: cur)
  | c :: s, depth, cur =>
    if c = ',' ∧ depth = 0 then cur.reverse :: splitTopLevel s depth []
    else splitTopLevel s depth (c :: cur)

def parseSet (rest : List Char) : Except Status (List String) :=
  let inner := (Text.trim rest).tail.dropLast
  if (Text.trim rest).head? = some '(' ∧ (Text.trim rest).tail.getLast? = some ')' then
    .ok (((inner.splitOn ',').map trimmed).filter (· ≠ ""))
  else .error (.badRequest ("expected (..) set, got " ++ Text.debug (String.ofList rest)))

def parseRequirement (part : List Char) : Except Status Requirement :=
  match Text.splitOnce " in ".toList part, Text.splitOnce " notin ".toList part with
  | some (k, rest), _ => return .inSet (trimmed k) (← parseSet rest)
  | none, some (k, rest) => return .notIn (trimmed k) (← parseSet rest)
  | none, none =>
    match Text.splitOnce ['!', '='] part, Text.splitOnce ['=', '='] part,
      Text.splitOnce ['='] part with
    | some (k, v), _, _ => return .notEquals (trimmed k) (trimmed v)
    | none, some (k, v), _ => return .equals (trimmed k) (trimmed v)
    | none, none, some (k, v) => return .equals (trimmed k) (trimmed v)
    | none, none, none =>
      match part with
      | '!' :: k =>
        if trimmed k = "" then .error (.badRequest "`!` requires a key")
        else return .notExists (trimmed k)
      | part =>
        if (Text.trim part).any Text.isWhitespace then
          .error (.badRequest ("malformed requirement " ++ Text.debug (String.ofList part)))
        else return .exists (trimmed part)

def LabelSelector.matches (selector : LabelSelector) (labels : BTreeMap String String) : Bool :=
  selector.requirements.all (·.matches labels)

def LabelSelector.parse (input : String) : Except Status LabelSelector := do
  let parts := ((splitTopLevel input.toList 0 []).map Text.trim).filter (· ≠ [])
  return ⟨← parts.mapM parseRequirement⟩

/-! ## Fields -/

structure FieldRequirement where
  path : String
  value : String
  negated : Bool
  deriving DecidableEq

structure FieldSelector where
  requirements : List FieldRequirement := []
  deriving DecidableEq

/-- The value at a dotted path. -/
def Value.pointer {ν : Type} (v : Value ν) (path : String) : Option (Value ν) :=
  (Text.split '.' path).foldlM Value.get v

def parseField (part : List Char) : Except Status FieldRequirement :=
  match Text.splitOnce ['!', '='] part, Text.splitOnce ['='] part with
  | some (k, v), _ => .ok ⟨trimmed k, trimmed v, true⟩
  | none, some (k, v) => .ok ⟨trimmed k, trimmed v, false⟩
  | none, none =>
    .error (.badRequest ("field selector requirement must be key=value or key!=value, got " ++
      Text.debug (String.ofList part)))

/-- An absent field counts as the empty text. -/
def FieldSelector.matches {ν : Type} (selector : FieldSelector) (object : Value ν) : Bool :=
  selector.requirements.all fun r =>
    let actual := ((object.pointer r.path).bind Value.asStr).getD ""
    if r.negated then actual != r.value else actual == r.value

def FieldSelector.parse (input : String) : Except Status FieldSelector := do
  let parts := ((input.toList.splitOn ',').map Text.trim).filter (· ≠ [])
  return ⟨← parts.mapM parseField⟩

end CaveHome.Apiserver
