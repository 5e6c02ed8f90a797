import CaveHome.Apiserver.Http
import CaveHome.Apiserver.Rbac
import CaveHome.Apiserver.Registry

/-!
# The request handler

A request is authenticated, its path is resolved, the caller is authorized for that path, and the
verb is carried out on the registry; writes pass admission first.  How callers are authenticated and
what admission plugins do is given from outside.
-/

namespace CaveHome.Apiserver

inductive Operation
  | create | update | delete
  deriving DecidableEq

structure AdmissionRequest (ν : Type) where
  gvr : GroupVersionResource
  operation : Operation
  namespaceName : String
  object : Option (Value ν)
  oldObject : Option (Value ν)

/-- Plugins that may rewrite a request, and plugins that may only refuse it. -/
structure AdmissionChain (ν : Type) where
  mutating : List (AdmissionRequest ν → Except Status (AdmissionRequest ν)) := []
  validating : List (AdmissionRequest ν → Except Status Unit) := []

def AdmissionChain.run {ν : Type} (chain : AdmissionChain ν) (request : AdmissionRequest ν) :
    Except Status (AdmissionRequest ν) := do
  let request ← chain.mutating.foldlM (fun request plugin => plugin request) request
  chain.validating.forM (fun validate => validate request)
  return request

/-! ## Requests -/

inductive Authorization
  | alwaysAllow
  | alwaysDeny
  | rbac (authorizer : RbacAuthorizer)

inductive Verb
  | get | list | watch | create | update | patch | delete
  deriving DecidableEq

def Verb.asStr : Verb → String
  | .get => "get"
  | .list => "list"
  | .watch => "watch"
  | .create => "create"
  | .update => "update"
  | .patch => "patch"
  | .delete => "delete"

def resolveVerb (method : Method) (rp : ResourcePath) (watch : Bool) : Except Status Verb :=
  match method, rp.isNamed with
  | .get, false => .ok (if watch then .watch else .list)
  | .get, true | .head, true => .ok .get
  | .post, false => .ok .create
  | .put, true => .ok .update
  | .patch, true => .ok .patch
  | .delete, true => .ok .delete
  | _, _ =>
    .error (.new .methodNotAllowed (method.asStr ++ " not allowed on this resource path"))

/-- The verb and the resource that a request is about. -/
def addressed (req : Request) : Except Status (Verb × ResourcePath) := do
  let rp ← ResourcePath.parse req.path
  let watch := req.queryGet "watch" = some "true" ∨ req.queryGet "watch" = some "1"
  let verb ← resolveVerb req.method rp watch
  return (verb, rp)

/-- The probes and the metrics, which are served before authentication. -/
def publicEndpoint (path : String) : Bool :=
  path == "/healthz" || path == "/livez" || path == "/readyz" || path == "/metrics"

/-- The documents that describe the served resources. -/
def discoveryEndpoint (path : String) : Bool :=
  path == "/version" || path == "/openapi/v2" ||
    match (Text.split '/' path).filter (· ≠ "") with
    | ["api"] | ["apis"] | ["api", _] | ["apis", _, _] => true
    | _ => false

def listOptions (rp : ResourcePath) (req : Request) : Except Status ListOptions := do
  let labelSelector ← ((req.queryGet "labelSelector").map LabelSelector.parse).getD (.ok {})
  let fieldSelector ← ((req.queryGet "fieldSelector").map FieldSelector.parse).getD (.ok {})
  let limit ← ((req.queryGet "limit").map fun limit =>
    okOr (Text.parseU64 limit) (.badRequest "invalid limit parameter")).getD (.ok 0)
  return {
    namespaceName := if rp.namespaceName = "" then none else some rp.namespaceName
    labelSelector, fieldSelector, limit, continueToken := req.queryGet "continue" }

variable {ν : Type} [Float64 ν]

def parseBody (req : Request) : Except Status (Value ν) := do
  let text ← okOr (Bytes.toString? req.body) (.badRequest "request body is not valid UTF-8")
  match Parser.parse text with
  | .ok v => return v
  | .error e => .error (.badRequest ("invalid JSON body: " ++ e.text))

def injectNamespace (object : Value ν) (namespaceName : String) : Value ν :=
  if namespaceName = "" then object
  else writeMeta object { readMeta object with namespaceName }

/-- The text of a member at the top; the empty text is no text. -/
def Value.topStr (object : Value ν) (key : String) : Option String :=
  ((object.get key).bind Value.asStr).filter (· ≠ "")

/-- A body may leave out its kind. -/
def checkKind (rp : ResourcePath) (body : Value ν) : Except Status Unit :=
  match body.topStr "kind", kindFor rp.gvr with
  | some kind, some gvk =>
    require (gvk.kind = kind)
      (.badRequest ("the kind of the provided object (" ++ kind ++
        ") does not match the kind of the resource (" ++ gvk.kind ++ ")"))
  | _, _ => .ok ()

def checkApiVersion (rp : ResourcePath) (body : Value ν) : Except Status Unit :=
  match body.topStr "apiVersion" with
  | some apiVersion =>
    require (apiVersion = rp.gvr.groupVersion)
      (.badRequest ("the apiVersion of the provided object (" ++ apiVersion ++
        ") does not match the apiVersion of the resource (" ++ rp.gvr.groupVersion ++ ")"))
  | none => .ok ()

/-- The object in the body of a request, which must be of the kind that the path serves, and must not
name another object or another namespace than the path does. -/
def decodeBody (req : Request) (rp : ResourcePath) : Except Status (Value ν) := do
  let body : Value ν ← parseBody req
  require body.asObject.isSome (.badRequest "request body must be a JSON object")
  checkKind rp body
  checkApiVersion rp body
  let m := readMeta body
  require (rp.isNamed → m.name = "" ∨ m.name = rp.name)
    (.badRequest ("the name of the object (" ++ m.name ++
      ") does not match the name on the URL (" ++ rp.name ++ ")"))
  require (rp.namespaceName = "" ∨ m.namespaceName = "" ∨ m.namespaceName = rp.namespaceName)
    (.badRequest ("the namespace of the object (" ++ m.namespaceName ++
      ") does not match the namespace on the request (" ++ rp.namespaceName ++ ")"))
  return injectNamespace body rp.namespaceName

/-- Patch an object with the body of a request, by the content type that it declares. -/
def applyPatch (req : Request) (existing : Value ν) : Except Status (Value ν) := do
  let body ← parseBody req
  let ctype := (req.headers.get "content-type").getD ""
  if "application/json-patch+json".toList.isPrefixOf ctype.toList then
    applyJsonPatch existing (← opsFromJson body)
  else return applyMergePatch existing body

/-- What is sent back, before it is written out. -/
inductive Response (ν : Type)
  | text (path : String)
  | discovery (path : String)
  | object (code : Nat) (body : Value ν)
  | events (lines : List (Value ν))

def statusObject (s : Status) : Value ν :=
  .object [("apiVersion", .string "v1"), ("code", .number (Float64.ofI64 s.code)),
    ("kind", .string "Status"), ("message", .string s.message), ("metadata", .object []),
    ("reason", .string s.reason.asStr), ("status", .string "Failure")]

def listObject (gvr : GroupVersionResource) (result : ListResult ν) : Value ν :=
  let kind := ((kindFor gvr).map fun k => k.kind ++ "List").getD "List"
  let metadata := [("resourceVersion", Value.string (toString result.resourceVersion))]
  let metadata := (result.continueToken.map fun token =>
    BTreeMap.insert "continue" (.string token) metadata).getD metadata
  .object [("apiVersion", .string gvr.groupVersion), ("items", .array result.items),
    ("kind", .string kind), ("metadata", .object metadata)]

omit [Float64 ν] in
def watchEventObject (event : WatchEvent ν) : Value ν :=
  let kind :=
    match event.kind with
    | .added => "ADDED"
    | .modified => "MODIFIED"
    | .deleted => "DELETED"
  .object [("object", event.object), ("type", .string kind)]

/-! ## The server -/

structure ApiServer (ν : Type) where
  registry : Registry ν := {}
  authn : Request → Except Status UserInfo
  authz : Authorization
  admission : AdmissionChain ν := {}

namespace ApiServer

variable (s : ApiServer ν)

omit [Float64 ν] in
def authorize (user : UserInfo) (rp : ResourcePath) (verb : Verb) : Except Status Unit :=
  match s.authz with
  | .alwaysAllow => .ok ()
  | .alwaysDeny => .error (.forbidden (user.name ++ " is not allowed"))
  | .rbac authorizer =>
    let attrs : Attributes :=
      { user, verb := verb.asStr, resourceRequest := true, apiGroup := rp.group
        resource := rp.resource, subresource := rp.subresource, name := rp.name
        namespaceName := rp.namespaceName }
    require (authorizer.authorize attrs = .allow)
      (.forbidden (user.name ++ " cannot " ++ verb.asStr ++ " resource \"" ++ rp.resource ++
        "\" in API group \"" ++ rp.group ++ "\""))

/-- The object that admission lets through. -/
def admitObject (operation : Operation) (rp : ResourcePath) (object : Value ν)
    (old : Option (Value ν)) : Except Status (Value ν) := do
  let admitted ← s.admission.run
    { gvr := rp.gvr, operation, namespaceName := rp.namespaceName, object := some object
      oldObject := old }
  okOr admitted.object (.invalid "admission removed the object")

/-- The stored object with the patch applied, and the object as it was. -/
def objectToPatch (rp : ResourcePath) (req : Request) : Except Status (Value ν × Value ν) := do
  let existing ← s.registry.get rp.gvr rp.namespaceName rp.name
  return (← applyPatch req existing, existing)

def watchEvents (rp : ResourcePath) (req : Request) : Except Status (List (Value ν)) := do
  let after := ((req.queryGet "resourceVersion").bind Text.parseU64).getD 0
  let labelSelector ← ((req.queryGet "labelSelector").map LabelSelector.parse).getD (.ok {})
  let events ← s.registry.watchSince rp.gvr after
  let events := events.filter fun event =>
    let m := readMeta event.object
    (rp.namespaceName == "" || m.namespaceName == rp.namespaceName) &&
      labelSelector.matches m.labels
  return events.map watchEventObject

/-- Carry out the verb on the registry. -/
def dispatch (verb : Verb) (rp : ResourcePath) (req : Request) :
    Except Status (Registry ν × Response ν) :=
  let gvr := rp.gvr
  match verb with
  | .get => do
    let object ← s.registry.get gvr rp.namespaceName rp.name
    return (s.registry, .object 200 object)
  | .list => do
    let opts ← listOptions rp req
    let result ← s.registry.list gvr opts
    return (s.registry, .object 200 (listObject gvr result))
  | .watch => do
    let lines ← s.watchEvents rp req
    return (s.registry, .events lines)
  | .create => do
    let body ← decodeBody req rp
    let object ← s.admitObject .create rp body none
    let (registry, created) ← s.registry.create gvr object
    return (registry, .object 201 created)
  | .update => do
    let body ← decodeBody req rp
    if rp.subresource = "status" then do
      let (registry, updated) ← s.registry.updateStatus gvr body
      return (registry, .object 200 updated)
    else do
      let old := (s.registry.get gvr rp.namespaceName rp.name).toOption
      let object ← s.admitObject .update rp body old
      let (registry, updated) ← s.registry.update gvr object
      return (registry, .object 200 updated)
  | .patch => do
    let (patched, existing) ← s.objectToPatch rp req
    let object ← s.admitObject .update rp patched (some existing)
    let (registry, updated) ← s.registry.update gvr object
    return (registry, .object 200 updated)
  | .delete => do
    let existing ← s.registry.get gvr rp.namespaceName rp.name
    let _ ← s.admission.run
      { gvr, operation := .delete, namespaceName := rp.namespaceName, object := none
        oldObject := some existing }
    let (registry, object, _) ← s.registry.delete gvr rp.namespaceName rp.name
    return (registry, .object 200 object)

def route (req : Request) : Except Status (Registry ν × Response ν) :=
  if publicEndpoint req.path then .ok (s.registry, .text req.path)
  else do
    let user ← s.authn req
    if discoveryEndpoint req.path then return (s.registry, .discovery req.path)
    else do
      let (verb, rp) ← addressed req
      s.authorize user rp verb
      s.dispatch verb rp req

/-- Every refusal is answered with its status. -/
def handle (req : Request) : ApiServer ν × Response ν :=
  match s.route req with
  | .ok (registry, response) => ({ s with registry }, response)
  | .error status => (s, .object status.code (statusObject status))

/-- The servers that come out of handling requests, under any configuration. -/
inductive Reachable : ApiServer ν → Prop
  | new (s : ApiServer ν) (h : s.registry = {}) : Reachable s
  | handle (s : ApiServer ν) (req : Request) (h : Reachable s) : Reachable (s.handle req).1
  | configure (s s' : ApiServer ν) (h : Reachable s) (hr : s'.registry = s.registry) : Reachable s'

end ApiServer

end CaveHome.Apiserver
