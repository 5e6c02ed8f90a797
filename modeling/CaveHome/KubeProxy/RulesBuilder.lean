import CaveHome.Lib.BTreeMap
import CaveHome.Lib.RuleTable
import Mathlib.Data.List.Sort
import Mathlib.Data.Nat.Log
import Mathlib.Data.Prod.Lex
import Mathlib.Data.String.Basic
import Mathlib.Order.Basic

/-!
# Services and endpoint slices

The parts of the objects that the proxy reads, with the orders of the names it sorts by.
-/

namespace CaveHome.KubeProxy

/-! ## Names -/

structure NamespacedName where
  namespaceName : String
  name : String
deriving DecidableEq

namespace NamespacedName

def key (n : NamespacedName) : String ×ₗ String := toLex (n.namespaceName, n.name)

theorem key_injective : Function.Injective key := by
  rintro ⟨ns, n⟩ ⟨ns', n'⟩ h
  cases toLex.injective h
  rfl

instance : LinearOrder NamespacedName := LinearOrder.lift' key key_injective

def display (n : NamespacedName) : String := n.namespaceName ++ "/" ++ n.name

end NamespacedName

inductive Protocol
  | tcp
  | udp
  | sctp
deriving DecidableEq

namespace Protocol

def lowercase : Protocol → String
  | tcp => "tcp"
  | udp => "udp"
  | sctp => "sctp"

def key : Protocol → Nat
  | tcp => 0
  | udp => 1
  | sctp => 2

theorem key_injective : Function.Injective key := by
  intro p q h
  cases p <;> cases q <;> first | rfl | cases h

instance : LinearOrder Protocol := LinearOrder.lift' key key_injective

end Protocol

structure ServicePortName where
  namespacedName : NamespacedName
  port : String
  protocol : Protocol
deriving DecidableEq

namespace ServicePortName

def key (n : ServicePortName) : NamespacedName ×ₗ String ×ₗ Protocol :=
  toLex (n.namespacedName, toLex (n.port, n.protocol))

theorem key_injective : Function.Injective key := by
  rintro ⟨nn, port, protocol⟩ ⟨nn', port', protocol'⟩ h
  obtain ⟨rfl, hrest⟩ := Prod.mk.inj (toLex.injective h)
  cases toLex.injective hrest
  rfl

instance : LinearOrder ServicePortName := LinearOrder.lift' key key_injective

def display (n : ServicePortName) : String :=
  if n.port.isEmpty then n.namespacedName.display else n.namespacedName.display ++ ":" ++ n.port

end ServicePortName

inductive ServiceType
  | clusterIP
  | nodePort
  | loadBalancer
  | externalName
deriving DecidableEq

structure ServicePort where
  name : String
  port : Int
  protocol : Protocol
deriving DecidableEq

structure Service where
  metadata : NamespacedName
  clusterIp : String
  ports : List ServicePort
  type : ServiceType
deriving DecidableEq

def Service.shouldSkip (s : Service) : Bool :=
  s.clusterIp.isEmpty || s.clusterIp == "None" || s.type = .externalName

/-! ## Endpoint slices -/

structure EndpointConditions where
  ready : Option Bool
deriving DecidableEq

structure Endpoint where
  addresses : List String
  conditions : EndpointConditions
deriving DecidableEq

def Endpoint.isReady (e : Endpoint) : Bool := e.conditions.ready.getD true

structure EndpointPort where
  name : String
  port : Int
  protocol : Protocol
deriving DecidableEq

/-- `serviceName` is the label that names the service. -/
structure EndpointSlice where
  metadata : NamespacedName
  serviceName : String
  ports : List EndpointPort
  endpoints : List Endpoint
deriving DecidableEq

def EndpointSlice.serviceNamespacedName (s : EndpointSlice) : NamespacedName :=
  ⟨s.metadata.namespaceName, s.serviceName⟩

inductive WatchEvent
  | serviceAdded (s : Service)
  | serviceModified (s : Service)
  | serviceDeleted (s : Service)
  | endpointSliceAdded (s : EndpointSlice)
  | endpointSliceModified (s : EndpointSlice)
  | endpointSliceDeleted (s : EndpointSlice)
deriving DecidableEq

/-! ## What the rules are built from -/

structure ServicePortInfo where
  name : ServicePortName
  clusterIp : String
  port : Int
  protocol : Protocol
deriving DecidableEq

structure EndpointInfo where
  ip : String
  port : Int
deriving DecidableEq

namespace EndpointInfo

def key (e : EndpointInfo) : String ×ₗ Int := toLex (e.ip, e.port)

theorem key_injective : Function.Injective key := by
  rintro ⟨ip, port⟩ ⟨ip', port'⟩ h
  cases toLex.injective h
  rfl

instance : LinearOrder EndpointInfo := LinearOrder.lift' key key_injective

def endpointString (e : EndpointInfo) : String := e.ip ++ ":" ++ toString e.port

end EndpointInfo

end CaveHome.KubeProxy

/-!
## The rules of the nat table

The lines that are fed to `iptables-restore`: chain declarations, then the rules, then `COMMIT`.
Chains are named after a digest of the service port, its protocol and, for the chain of an
endpoint, the endpoint; the digest (the first characters of a hash in base32) is a parameter.
-/

namespace CaveHome.KubeProxy

section

variable (digest : String → String)

def portProtoHash (servicePortName protocol : String) : String :=
  digest (servicePortName ++ protocol)

/-- The hash in the name of the chain of an endpoint. -/
def portProtoEndpointHash (servicePortName protocol endpoint : String) : String :=
  digest (servicePortName ++ protocol ++ endpoint)

end

/-- A chain of the table; those of services and endpoints carry the hash of their name. -/
inductive Chain
  | kubeServices
  | kubeNodePorts
  | kubePostrouting
  | kubeMarkMasq
  | svc (hash : String)
  | sep (hash : String)
deriving DecidableEq

def Chain.name : Chain → String
  | kubeServices => "KUBE-SERVICES"
  | kubeNodePorts => "KUBE-NODEPORTS"
  | kubePostrouting => "KUBE-POSTROUTING"
  | kubeMarkMasq => "KUBE-MARK-MASQ"
  | svc hash => "KUBE-SVC-" ++ hash
  | sep hash => "KUBE-SEP-" ++ hash

/-- Division to the nearest integer, and to the even one from the middle. -/
def roundHalfEven (n d : Nat) : Nat :=
  if 2 * (n % d) < d ∨ 2 * (n % d) = d ∧ n / d % 2 = 0 then n / d else n / d + 1

/-- `{:.10}` of `1.0 / k`: the quotient as a double, of 53 significant bits, then ten decimals. -/
def probabilityText (k : Nat) : String :=
  let scale := 52 + Nat.clog 2 k
  let tenths := roundHalfEven (roundHalfEven (2 ^ scale) k * 10 ^ 10) (2 ^ scale)
  let digits := toString (tenths % 10 ^ 10)
  toString (tenths / 10 ^ 10) ++ "." ++ String.ofList (List.replicate (10 - digits.length) '0') ++
    digits

/-! ## Lines -/

inductive Match
  | comment (text : String)
  | protocol (p : Protocol)
  | destination (ip : String)
  | dport (port : Int)
  | source (ip : String)
  | notSource (cidr : String)
  | random (k : Nat)
  | notMarked
  | dstTypeLocal
deriving DecidableEq

inductive Action
  | orMark
  | xorMark
  | masquerade
  | dnat (endpoint : EndpointInfo)
deriving DecidableEq

abbrev Rule := RuleTable.Rule Chain Match Action

inductive Line
  | header
  | declare (chain : Chain)
  | append (rule : Rule)
  | commit
deriving DecidableEq

def Match.text : Match → String
  | comment text => "-m comment --comment " ++ text
  | protocol p => "-m " ++ p.lowercase ++ " -p " ++ p.lowercase
  | destination ip => "-d " ++ ip
  | dport port => "--dport " ++ toString port
  | source ip => "-s " ++ ip
  | notSource cidr => "! -s " ++ cidr
  | random k => "-m statistic --mode random --probability " ++ probabilityText k
  | notMarked => "-m mark ! --mark 0x4000/0x4000"
  | dstTypeLocal => "-m addrtype --dst-type LOCAL"

def targetText : RuleTable.Target Chain Action → String
  | .jump c => "-j " ++ c.name
  | .ret => "-j RETURN"
  | .act .orMark => "-j MARK --or-mark 0x4000"
  | .act .xorMark => "-j MARK --xor-mark 0x4000"
  | .act .masquerade => "-j MASQUERADE"
  | .act (.dnat e) => "-j DNAT --to-destination " ++ e.ip ++ ":" ++ toString e.port

def Line.text : Line → String
  | header => "*nat"
  | declare c => ":" ++ c.name ++ " - [0:0]"
  | append r =>
    " ".intercalate (("-A " ++ r.chain.name) :: r.guards.map Match.text ++ [targetText r.target])
  | commit => "COMMIT"

/-! ## Building -/

structure BuildInput where
  services : List ServicePortInfo
  endpointsByService : BTreeMap ServicePortName (List EndpointInfo)
  clusterCidr : Option String

namespace BuildInput

def servicesSorted (input : BuildInput) : List ServicePortInfo :=
  input.services.insertionSort fun a b => a.name ≤ b.name

/-- The endpoints of a service, in order. -/
def endpoints (input : BuildInput) (svc : ServicePortInfo) : List EndpointInfo :=
  ((input.endpointsByService.get svc.name).getD []).insertionSort (· ≤ ·)

end BuildInput

section

variable (digest : String → String)

def svcChain (svc : ServicePortInfo) : Chain :=
  .svc (portProtoHash digest svc.name.display svc.protocol.lowercase)

def sepChain (svc : ServicePortInfo) (ep : EndpointInfo) : Chain :=
  .sep (portProtoEndpointHash digest svc.name.display svc.protocol.lowercase ep.endpointString)

/-- The chains of the services and their endpoints. -/
def serviceChains (input : BuildInput) : List Chain :=
  input.servicesSorted.flatMap fun svc =>
    svcChain digest svc :: (input.endpoints svc).map (sepChain digest svc)

def topLevelChains : List Chain := [.kubeServices, .kubeNodePorts, .kubePostrouting, .kubeMarkMasq]

def skeletonRules : List Rule :=
  [⟨.kubePostrouting, [.notMarked], .ret⟩,
   ⟨.kubePostrouting, [], .act .xorMark⟩,
   ⟨.kubePostrouting, [.comment "\"kubernetes service traffic requiring SNAT\""],
      .act .masquerade⟩,
   ⟨.kubeMarkMasq, [], .act .orMark⟩]

/-- The match on the cluster address of a service. -/
def clusterIpMatch (svc : ServicePortInfo) : List Match :=
  [.comment ("\"" ++ svc.name.display ++ " cluster IP\""), .protocol svc.protocol,
    .destination svc.clusterIp, .dport svc.port]

def dispatchRule (svc : ServicePortInfo) : Rule :=
  ⟨.kubeServices, clusterIpMatch svc, .jump (svcChain digest svc)⟩

def egressRules (svc : ServicePortInfo) (clusterCidr : Option String) : List Rule :=
  clusterCidr.toList.map fun cidr =>
    ⟨svcChain digest svc, clusterIpMatch svc ++ [.notSource cidr], .jump .kubeMarkMasq⟩

/-- The jump to one endpoint, when `remaining` are left. -/
def balanceRule (svc : ServicePortInfo) (remaining : Nat) (ep : EndpointInfo) : Rule :=
  ⟨svcChain digest svc,
    .comment svc.name.display :: if remaining > 1 then [.random remaining] else [],
    .jump (sepChain digest svc ep)⟩

/-- The chain of an endpoint: hairpin traffic is marked, then the destination is rewritten. -/
def sepRules (svc : ServicePortInfo) (ep : EndpointInfo) : List Rule :=
  [⟨sepChain digest svc ep, [.comment svc.name.display, .source ep.ip], .jump .kubeMarkMasq⟩,
   ⟨sepChain digest svc ep, [.comment svc.name.display, .protocol svc.protocol],
      .act (.dnat ep)⟩]

def endpointRules (svc : ServicePortInfo) : List EndpointInfo → List Rule
  | [] => []
  | ep :: rest =>
    balanceRule digest svc (rest.length + 1) ep :: sepRules digest svc ep ++ endpointRules svc rest

def serviceRules (input : BuildInput) (svc : ServicePortInfo) : List Rule :=
  dispatchRule digest svc :: egressRules digest svc input.clusterCidr ++
    endpointRules digest svc (input.endpoints svc)

def nodePortsRule : Rule :=
  ⟨.kubeServices,
    [.comment "\"kubernetes service nodeports; NOTE: this must be the last rule in this chain\"",
      .dstTypeLocal],
    .jump .kubeNodePorts⟩

def proxyRules (input : BuildInput) : List Rule :=
  skeletonRules ++ input.servicesSorted.flatMap (serviceRules digest input) ++ [nodePortsRule]

def proxyLines (input : BuildInput) : List Line :=
  .header :: (topLevelChains ++ serviceChains digest input).map .declare ++
    (proxyRules digest input).map .append ++ [.commit]

inductive Table
  | nat
  | filter
deriving DecidableEq

structure IptablesRule where
  table : Table
  text : String
deriving DecidableEq

def buildProxyRules (input : BuildInput) : List IptablesRule :=
  (proxyLines digest input).map fun l => ⟨.nat, l.text⟩

end

end CaveHome.KubeProxy
