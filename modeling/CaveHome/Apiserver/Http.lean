import CaveHome.Apiserver.Types
import CaveHome.Lib.MachineData

/-!
# Requests and resource paths

A request as it comes off the wire, its path and query, and the resource that a path addresses.
-/

namespace CaveHome.Apiserver

inductive Method
  | get | post | put | patch | delete | head | options
  | other (token : String)
  deriving DecidableEq

def Method.asStr : Method → String
  | .get => "GET"
  | .post => "POST"
  | .put => "PUT"
  | .patch => "PATCH"
  | .delete => "DELETE"
  | .head => "HEAD"
  | .options => "OPTIONS"
  | .other token => token

def toAsciiLowercase (s : String) : String :=
  String.ofList (s.toList.map fun c =>
    if 0x41 ≤ c.toNat ∧ c.toNat ≤ 0x5A then Char.ofNat (c.toNat + 0x20) else c)

/-- Headers under their names in lower case, in the order in which they came. -/
structure Headers where
  entries : List (String × String) := []
  deriving DecidableEq

namespace Headers

def insert (h : Headers) (name value : String) : Headers :=
  ⟨h.entries ++ [(toAsciiLowercase name, value)]⟩

def get (h : Headers) (name : String) : Option String :=
  (h.entries.find? (·.1 == toAsciiLowercase name)).map (·.2)

end Headers

structure Request where
  method : Method
  /-- The path, and the query after a question mark. -/
  target : String
  headers : Headers := {}
  body : Bytes := []
  deriving DecidableEq

def hexVal (b : UInt8) : Option UInt8 :=
  if 0x30 ≤ b ∧ b ≤ 0x39 then some (b - 0x30)
  else if 0x61 ≤ b ∧ b ≤ 0x66 then some (b - 0x61 + 10)
  else if 0x41 ≤ b ∧ b ≤ 0x46 then some (b - 0x41 + 10)
  else none

def percentDecodeBytes : Bytes → Bytes
  | 0x25 :: a :: b :: s =>
    match hexVal a, hexVal b with
    | some h, some l => ((h <<< 4) ||| l) :: percentDecodeBytes s
    | _, _ => 0x25 :: percentDecodeBytes (a :: b :: s)
  | 0x2B :: s => 0x20 :: percentDecodeBytes s
  | c :: s => c :: percentDecodeBytes s
  | [] => []

def percentDecode (s : List Char) : String :=
  Bytes.toStringLossy (percentDecodeBytes (Bytes.ofString (String.ofList s)))

namespace Request

variable (req : Request)

def path : String := String.ofList (req.target.toList.takeWhile (· ≠ '?'))

def query : List Char := ((Text.splitOnce ['?'] req.target.toList).map (·.2)).getD []

def queryPairs : List (String × String) :=
  ((req.query.splitOn '&').filter (· ≠ [])).map fun kv =>
    match Text.splitOnce ['='] kv with
    | some (k, v) => (percentDecode k, percentDecode v)
    | none => (percentDecode kv, "")

/-- The first value of a parameter. -/
def queryGet (key : String) : Option String := (req.queryPairs.find? (·.1 == key)).map (·.2)

end Request

/-! ## Paths -/

structure ResourcePath where
  group : String
  version : String
  namespaceName : String
  resource : String
  name : String
  subresource : String
  deriving DecidableEq

namespace ResourcePath

def gvr (rp : ResourcePath) : GroupVersionResource := ⟨rp.group, rp.version, rp.resource⟩

def isNamed (rp : ResourcePath) : Bool := rp.name ≠ ""

/-- The resource must be known, and a cluster-wide resource takes no namespace. -/
def finish (rp : ResourcePath) : Except Status ResourcePath :=
  match isNamespaced rp.gvr with
  | none =>
    .error (.notFound ("the server could not find the requested resource (" ++ rp.resource ++ ")"))
  | some nsScoped =>
    if nsScoped = false ∧ rp.namespaceName ≠ "" then
      .error (.badRequest ("resource " ++ rp.resource ++
        " is cluster-scoped but a namespace was given"))
    else .ok rp

/-- The segments before the resource: the group and the version. -/
def parseGroupVersion : List String → Except Status (String × String × List String)
  | "api" :: v :: rest => .ok ("", v, rest)
  | ["api"] => .error (.badRequest "missing version after /api")
  | "apis" :: g :: v :: rest => .ok (g, v, rest)
  | ["apis"] => .error (.badRequest "missing group after /apis")
  | ["apis", _] => .error (.badRequest "missing version after group")
  | _ => .error (.badRequest "path must start with /api or /apis")

/-- The namespace of a path, which is one only if a resource follows it. -/
def parseNamespace : List String → String × List String
  | "namespaces" :: ns :: resource :: tail => (ns, resource :: tail)
  | rest => ("", rest)

def parse (path : String) : Except Status ResourcePath := do
  let segs := (Text.split '/' path).filter (· ≠ "")
  let (group, version, rest) ← parseGroupVersion segs
  match parseNamespace rest with
  | (_, []) => .error (.badRequest "missing resource segment")
  | (ns, resource :: tail) =>
    if 2 < tail.length then .error (.badRequest "path has trailing segments")
    else
      finish
        { group, version, namespaceName := ns, resource, name := tail[0]?.getD ""
          subresource := tail[1]?.getD "" }

end ResourcePath

end CaveHome.Apiserver
