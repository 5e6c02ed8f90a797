import CaveHome.Flannel.Cidr
import CaveHome.KubeProxy.RulesBuilder
import CaveHome.Lib.Ranks

/-!
# The selection of endpoints

Which addresses the traffic to a port of a service is sent to.  The decision core of the proxy has
objects of its own, with more of what the API says than those for the packet filter.
-/

namespace CaveHome.KubeProxy.Core

open Flannel (IpAddr)

/-! ## Services and endpoint slices -/

inductive SessionAffinity
  | none
  | clientIp (timeoutSeconds : Nat)
deriving DecidableEq

/-- Whether traffic from outside is sent to all endpoints or to those of the node. -/
inductive ExternalTrafficPolicy
  | Cluster
  | Local
deriving DecidableEq

/-- `targetPort` is 0 when there is none. -/
structure ServicePort where
  name : String
  protocol : Protocol
  port : Nat
  targetPort : Nat
  nodePort : Option Nat
deriving DecidableEq

structure Service where
  namespaceName : String
  name : String
  clusterIp : Option IpAddr
  serviceType : ServiceType
  ports : List ServicePort
  sessionAffinity : SessionAffinity
  externalTrafficPolicy : ExternalTrafficPolicy
  loadBalancerIps : List IpAddr
deriving DecidableEq

structure EndpointConditions where
  ready : Option Bool
  serving : Option Bool
  terminating : Option Bool
deriving DecidableEq

namespace EndpointConditions

def isReady (c : EndpointConditions) : Bool := c.ready.getD true

def isServing (c : EndpointConditions) : Bool := c.serving.getD c.isReady

def isTerminating (c : EndpointConditions) : Bool := c.terminating.getD false

end EndpointConditions

structure Endpoint where
  addresses : List IpAddr
  conditions : EndpointConditions
  nodeName : Option String
  zone : Option String
  hintsForZones : List String
deriving DecidableEq

def Endpoint.isReadyServing (e : Endpoint) : Bool :=
  e.conditions.isReady && e.conditions.isServing && !e.conditions.isTerminating

def Endpoint.isServingTerminating (e : Endpoint) : Bool :=
  e.conditions.isServing && e.conditions.isTerminating

structure EndpointPort where
  name : String
  protocol : Protocol
  port : Nat
deriving DecidableEq

structure EndpointSlice where
  ports : List EndpointPort
  endpoints : List Endpoint
deriving DecidableEq

/-! ## Targets -/

structure EndpointTarget where
  ip : IpAddr
  port : Nat
  isLocal : Bool
  zone : Option String
deriving DecidableEq

namespace EndpointTarget

/-- What targets are sorted by; no zone comes before every zone. -/
def key (t : EndpointTarget) : IpAddr ×ₗ Nat ×ₗ Bool ×ₗ WithBot String :=
  toLex (t.ip, toLex (t.port, toLex (t.isLocal, t.zone)))

theorem key_injective : Function.Injective key := by
  rintro ⟨ip, port, isLocal, zone⟩ ⟨ip', port', isLocal', zone'⟩ h
  obtain ⟨rfl, hrest⟩ := Prod.mk.inj (toLex.injective h)
  obtain ⟨rfl, hrest⟩ := Prod.mk.inj (toLex.injective hrest)
  obtain ⟨rfl, hzone⟩ := Prod.mk.inj (toLex.injective hrest)
  obtain rfl : zone = zone' := hzone
  rfl

instance : LinearOrder EndpointTarget := LinearOrder.lift' key key_injective

end EndpointTarget

structure NodeContext where
  nodeName : Option String
  zone : Option String
deriving DecidableEq

/-- The port of a slice with the name of the port of the service, or else its target port. -/
def resolveTargetPort (svcPort : ServicePort) (slice : EndpointSlice) : Option Nat :=
  match slice.ports.find? fun ep => ep.protocol = svcPort.protocol ∧ ep.name = svcPort.name with
  | some ep => some ep.port
  | none => if svcPort.targetPort ≠ 0 then some svcPort.targetPort else none

structure Classified where
  target : EndpointTarget
  readyServing : Bool
  servingTerminating : Bool
deriving DecidableEq

/-- Is the endpoint on the node? -/
def isLocalTo (node : NodeContext) (ep : Endpoint) : Bool :=
  match node.nodeName, ep.nodeName with
  | some n, some e => n = e
  | _, _ => false

def classify (node : NodeContext) (targetPort : Nat) (ep : Endpoint) (ip : IpAddr) :
    Classified where
  target := { ip, port := targetPort, isLocal := isLocalTo node ep, zone := ep.zone }
  readyServing := ep.isReadyServing
  servingTerminating := ep.isServingTerminating

def classifyAll (svcPort : ServicePort) (slices : List EndpointSlice) (node : NodeContext) :
    List Classified :=
  slices.flatMap fun slice =>
    match resolveTargetPort svcPort slice with
    | none => []
    | some targetPort => slice.endpoints.flatMap fun ep =>
      ep.addresses.map (classify node targetPort ep)

def applyTopologyHints (eps : List (EndpointTarget × List String)) (node : NodeContext) :
    List EndpointTarget :=
  match node.zone with
  | none => eps.map (·.1)
  | some myZone =>
    if !eps.isEmpty && eps.all (fun e => !e.2.isEmpty) then
      let filtered := (eps.filter fun e => myZone ∈ e.2).map (·.1)
      if filtered.isEmpty then eps.map (·.1) else filtered
    else eps.map (·.1)

structure SelectedEndpoints where
  cluster : List EndpointTarget
  external : List EndpointTarget
  fromTerminating : Bool
deriving DecidableEq

def dedupSorted (v : List EndpointTarget) : List EndpointTarget :=
  Ranks.dedup (v.insertionSort (· ≤ ·))

/-- The hints of the first endpoint with the address. -/
def hintsFor (svcPort : ServicePort) (ip : IpAddr) : List EndpointSlice → List String
  | [] => []
  | slice :: slices =>
    if (resolveTargetPort svcPort slice).isNone then hintsFor svcPort ip slices
    else match slice.endpoints.find? fun ep => ip ∈ ep.addresses with
      | some ep => ep.hintsForZones
      | none => hintsFor svcPort ip slices

/-- The endpoints that are ready, or else those that still serve while they terminate. -/
def workingOf (classified : List Classified) : List Classified × Bool :=
  let ready := classified.filter (·.readyServing)
  if ready.isEmpty then (classified.filter (·.servingTerminating), true) else (ready, false)

def selectEndpoints (svc : Service) (svcPort : ServicePort) (slices : List EndpointSlice)
    (node : NodeContext) : SelectedEndpoints :=
  let (working, fromTerminating) := workingOf (classifyAll svcPort slices node)
  let hinted := working.map fun c => (c.target, hintsFor svcPort c.target.ip slices)
  let cluster := dedupSorted (applyTopologyHints hinted node)
  let external := match svc.externalTrafficPolicy with
    | .Cluster => cluster
    | .Local => dedupSorted ((working.filter (·.target.isLocal)).map (·.target))
  { cluster, external, fromTerminating }

/-! ## What is meant to be selected -/

/-- An address of an endpoint, with the hints of this endpoint. -/
structure Backing extends Classified where
  hints : List String
deriving DecidableEq

/-- The addresses of a slice. -/
def sliceBackings (svcPort : ServicePort) (node : NodeContext) (slice : EndpointSlice) :
    List Backing :=
  match resolveTargetPort svcPort slice with
  | none => []
  | some targetPort => slice.endpoints.flatMap fun ep =>
    ep.addresses.map fun ip => ⟨classify node targetPort ep ip, ep.hintsForZones⟩

/-- All addresses behind a port of a service. -/
def backings (svcPort : ServicePort) (slices : List EndpointSlice) (node : NodeContext) :
    List Backing :=
  slices.flatMap (sliceBackings svcPort node)

/-- Ready, or still serving when none is ready. -/
def Working (l : List Backing) (b : Backing) : Prop :=
  b ∈ l ∧ (b.readyServing = true ∨
    (∀ b' ∈ l, b'.readyServing = false) ∧ b.servingTerminating = true)

/-- The hints apply: there are some for every address, and some name the zone. -/
def Restricts (hints : Backing → List String) (l : List Backing) (zone : String) : Prop :=
  (∀ b, Working l b → hints b ≠ []) ∧ ∃ b, Working l b ∧ zone ∈ hints b

/-- The working targets, or those with hints for the zone of the node where hints apply. -/
def Chosen (hints : Backing → List String) (l : List Backing) (node : NodeContext) :
    Set EndpointTarget :=
  {t | ∃ b, Working l b ∧ b.target = t ∧
    ∀ zone, node.zone = some zone → Restricts hints l zone → zone ∈ hints b}

/-- The working targets on the node. -/
def LocalSet (l : List Backing) : Set EndpointTarget :=
  {t | ∃ b, Working l b ∧ b.target = t ∧ t.isLocal = true}

/-- The same endpoints in other slices of the same ports, or in another order. -/
inductive Rearranged : List EndpointSlice → List EndpointSlice → Prop
  | slices {l l' : List EndpointSlice} (h : l.Perm l') : Rearranged l l'
  | endpoints {front rest : List EndpointSlice} {ports : List EndpointPort}
    {es es' : List Endpoint} (h : es.Perm es') :
    Rearranged (front ++ ⟨ports, es⟩ :: rest) (front ++ ⟨ports, es'⟩ :: rest)
  | move {front mid rest : List EndpointSlice} {ports : List EndpointPort} {e : Endpoint}
    {es es' : List Endpoint} :
    Rearranged (front ++ ⟨ports, e :: es⟩ :: mid ++ ⟨ports, es'⟩ :: rest)
      (front ++ ⟨ports, es⟩ :: mid ++ ⟨ports, e :: es'⟩ :: rest)
  | trans {l l' l'' : List EndpointSlice} (h : Rearranged l l') (h' : Rearranged l' l'') :
    Rearranged l l''

/-- What a selection is meant to be. -/
structure Meets (svc : Service) (svcPort : ServicePort) (slices : List EndpointSlice)
    (node : NodeContext) : Prop where
  cluster : ∀ t, t ∈ (selectEndpoints svc svcPort slices node).cluster ↔
    t ∈ Chosen Backing.hints (backings svcPort slices node) node
  nonempty : (selectEndpoints svc svcPort slices node).cluster = [] →
    ∀ b ∈ backings svcPort slices node, b.readyServing = false ∧ b.servingTerminating = false
  external_cluster : svc.externalTrafficPolicy = .Cluster →
    (selectEndpoints svc svcPort slices node).external =
      (selectEndpoints svc svcPort slices node).cluster
  external_local : svc.externalTrafficPolicy = .Local →
    ∀ t, t ∈ (selectEndpoints svc svcPort slices node).external ↔
      t ∈ LocalSet (backings svcPort slices node)
  cluster_nodup : ((selectEndpoints svc svcPort slices node).cluster.map
    fun t => (t.ip, t.port)).Nodup
  external_nodup : ((selectEndpoints svc svcPort slices node).external.map
    fun t => (t.ip, t.port)).Nodup
  rearranged : ∀ slices', Rearranged slices slices' →
    selectEndpoints svc svcPort slices' node = selectEndpoints svc svcPort slices node

/-- All endpoints with the address of a working one agree on whether there are hints and whether
they name the zone, or hints cannot apply: all endpoints with some working address have none, or
none with a working address names the zone. -/
def HintsAgree (l : List Backing) (zone : String) : Prop :=
  (∀ b, Working l b → ∀ b' ∈ l, b'.target.ip = b.target.ip →
    (b'.hints = [] ↔ b.hints = []) ∧ (zone ∈ b'.hints ↔ zone ∈ b.hints)) ∨
  (∃ b, Working l b ∧ ∀ b' ∈ l, b'.target.ip = b.target.ip → b'.hints = []) ∨
  ∀ b, Working l b → ∀ b' ∈ l, b'.target.ip = b.target.ip → zone ∉ b'.hints

/-- An address and a port belong to one target. -/
def OneTarget (s : Set EndpointTarget) : Prop :=
  ∀ t ∈ s, ∀ t' ∈ s, t.ip = t'.ip → t.port = t'.port → t = t'

/-- Endpoints that share an address do not contradict each other. -/
structure Unambiguous (svc : Service) (l : List Backing) (node : NodeContext) : Prop where
  hints : ∀ zone, node.zone = some zone → HintsAgree l zone
  cluster : OneTarget (Chosen Backing.hints l node)
  external : svc.externalTrafficPolicy = .Local → OneTarget (LocalSet l)

/-! ## What is selected -/

section Selection

variable {svc : Service} {svcPort : ServicePort} {slices slices' : List EndpointSlice}
  {node : NodeContext} {l l' : List Backing} {t : EndpointTarget}

theorem mem_dedupSorted {v : List EndpointTarget} : t ∈ dedupSorted v ↔ t ∈ v := by
  rw [dedupSorted, Ranks.mem_dedup, List.mem_insertionSort]

theorem pairwise_dedupSorted (v : List EndpointTarget) : (dedupSorted v).Pairwise (· < ·) :=
  Ranks.pairwise_dedup (List.pairwise_insertionSort _ v)

theorem eq_of_mem_iff {v v' : List EndpointTarget} (h : v.Pairwise (· < ·))
    (h' : v'.Pairwise (· < ·)) (hmem : ∀ t, t ∈ v ↔ t ∈ v') : v = v' := by
  have hperm : v.Perm v' := (List.perm_ext_iff_of_nodup (h.imp fun hlt => hlt.ne)
    (h'.imp fun hlt => hlt.ne)).mpr hmem
  exact List.Perm.eq_of_pairwise (fun a b _ _ hab hba => absurd hba hab.not_gt) h h' hperm

theorem classifyAll_eq (svcPort : ServicePort) (slices : List EndpointSlice) (node : NodeContext) :
    classifyAll svcPort slices node = (backings svcPort slices node).map (·.toClassified) := by
  unfold classifyAll backings
  rw [List.map_flatMap]
  congr 1
  funext slice
  unfold sliceBackings
  cases resolveTargetPort svcPort slice with
  | none => rfl
  | some targetPort =>
    dsimp only
    rw [List.map_flatMap]
    congr 1
    funext ep
    rw [List.map_map]
    rfl

theorem isEmpty_ready : ((l.map (·.toClassified)).filter (·.readyServing)).isEmpty = true ↔
    ∀ b ∈ l, b.readyServing = false := by
  rw [List.isEmpty_iff, List.filter_eq_nil_iff, List.forall_mem_map]
  simp only [Bool.not_eq_true]

theorem mem_workingOf {c : Classified} :
    c ∈ (workingOf (l.map (·.toClassified))).1 ↔ ∃ b, Working l b ∧ b.toClassified = c := by
  unfold workingOf
  dsimp only
  split
  next h =>
    have hnone := isEmpty_ready.mp h
    rw [List.mem_filter, List.mem_map]
    constructor
    · rintro ⟨⟨b, hb, rfl⟩, hserving⟩
      exact ⟨b, ⟨hb, .inr ⟨hnone, hserving⟩⟩, rfl⟩
    · rintro ⟨b, ⟨hb, hready | hserving⟩, rfl⟩
      · exact absurd hready (by rw [hnone b hb]; exact Bool.false_ne_true)
      · exact ⟨⟨b, hb, rfl⟩, hserving.2⟩
  next h =>
    have hsome := mt isEmpty_ready.mpr h
    rw [List.mem_filter, List.mem_map]
    constructor
    · rintro ⟨⟨b, hb, rfl⟩, hready⟩
      exact ⟨b, ⟨hb, .inl hready⟩, rfl⟩
    · rintro ⟨b, ⟨hb, hready | hserving⟩, rfl⟩
      · exact ⟨⟨b, hb, rfl⟩, hready⟩
      · exact absurd hserving.1 hsome

theorem workingOf_snd : (workingOf (l.map (·.toClassified))).2 = true ↔
    ∀ b ∈ l, b.readyServing = false := by
  unfold workingOf
  dsimp only
  split
  next h => exact iff_of_true rfl (isEmpty_ready.mp h)
  next h => exact iff_of_false (by exact Bool.false_ne_true) (mt isEmpty_ready.mpr h)

theorem mem_applyTopologyHints {eps : List (EndpointTarget × List String)} :
    t ∈ applyTopologyHints eps node ↔ ∃ e ∈ eps, e.1 = t ∧ ∀ zone, node.zone = some zone →
      (∀ e' ∈ eps, e'.2 ≠ []) → (∃ e' ∈ eps, zone ∈ e'.2) → zone ∈ e.2 := by
  unfold applyTopologyHints
  cases hzone : node.zone with
  | none =>
    dsimp only
    rw [List.mem_map]
    constructor
    · rintro ⟨e, he, rfl⟩
      exact ⟨e, he, rfl, fun zone h => by cases h⟩
    · rintro ⟨e, he, rfl, -⟩
      exact ⟨e, he, rfl⟩
  | some myZone =>
    have hall : (!eps.isEmpty && eps.all fun e => !e.2.isEmpty) = true ↔
        eps ≠ [] ∧ ∀ e ∈ eps, e.2 ≠ [] := by
      rw [Bool.and_eq_true, List.all_eq_true]
      simp only [Bool.not_eq_true', List.isEmpty_eq_false_iff]
    have hfiltered : ((eps.filter fun e => myZone ∈ e.2).map (·.1)).isEmpty = true ↔
        ¬ ∃ e ∈ eps, myZone ∈ e.2 := by
      rw [List.isEmpty_iff, List.map_eq_nil_iff, List.filter_eq_nil_iff]
      simp only [decide_eq_true_eq, not_exists, not_and]
    dsimp only
    split
    next h =>
      have hhints := (hall.mp h).2
      split
      next hnone =>
        have hnames := hfiltered.mp hnone
        rw [List.mem_map]
        constructor
        · rintro ⟨e, he, rfl⟩
          exact ⟨e, he, rfl, fun zone heq _ hex => absurd (Option.some.inj heq ▸ hex) hnames⟩
        · rintro ⟨e, he, rfl, -⟩
          exact ⟨e, he, rfl⟩
      next hsome =>
        have hnames := not_not.mp (mt hfiltered.mpr hsome)
        simp only [List.mem_map, List.mem_filter, decide_eq_true_eq]
        constructor
        · rintro ⟨e, ⟨he, hin⟩, rfl⟩
          exact ⟨e, he, rfl, fun zone heq _ _ => Option.some.inj heq ▸ hin⟩
        · rintro ⟨e, he, rfl, hin⟩
          exact ⟨e, ⟨he, hin myZone rfl hhints hnames⟩, rfl⟩
    next h =>
      rw [List.mem_map]
      constructor
      · rintro ⟨e, he, rfl⟩
        refine ⟨e, he, rfl, fun zone _ hhints _ => ?_⟩
        exact absurd (hall.mpr ⟨List.ne_nil_of_mem he, hhints⟩) h
      · rintro ⟨e, he, rfl, -⟩
        exact ⟨e, he, rfl⟩

/-- The hints that are looked up for a backing. -/
def looked (svcPort : ServicePort) (slices : List EndpointSlice) (b : Backing) : List String :=
  hintsFor svcPort b.target.ip slices

theorem mem_cluster : t ∈ (selectEndpoints svc svcPort slices node).cluster ↔
    t ∈ Chosen (looked svcPort slices) (backings svcPort slices node) node := by
  have hworking : ∀ e, (e ∈ (workingOf (classifyAll svcPort slices node)).1.map
      fun c => (c.target, hintsFor svcPort c.target.ip slices)) ↔
      ∃ b, Working (backings svcPort slices node) b ∧ (b.target, looked svcPort slices b) = e := by
    intro e
    rw [List.mem_map, classifyAll_eq]
    constructor
    · rintro ⟨c, hc, rfl⟩
      obtain ⟨b, hb, rfl⟩ := mem_workingOf.mp hc
      exact ⟨b, hb, rfl⟩
    · rintro ⟨b, hb, rfl⟩
      exact ⟨b.toClassified, mem_workingOf.mpr ⟨b, hb, rfl⟩, rfl⟩
  change t ∈ dedupSorted (applyTopologyHints ((workingOf (classifyAll svcPort slices node)).1.map
    fun c => (c.target, hintsFor svcPort c.target.ip slices)) node) ↔ _
  rw [mem_dedupSorted, mem_applyTopologyHints]
  simp only [hworking]
  constructor
  · rintro ⟨e, ⟨b, hb, rfl⟩, rfl, h⟩
    refine ⟨b, hb, rfl, fun zone hzone hrestricts => h zone hzone ?_ ?_⟩
    · rintro e ⟨b', hb', rfl⟩
      exact hrestricts.1 b' hb'
    · obtain ⟨b', hb', hin⟩ := hrestricts.2
      exact ⟨_, ⟨b', hb', rfl⟩, hin⟩
  · rintro ⟨b, hb, rfl, h⟩
    refine ⟨_, ⟨b, hb, rfl⟩, rfl, fun zone hzone hall hex => h zone hzone ⟨?_, ?_⟩⟩
    · exact fun b' hb' => hall _ ⟨b', hb', rfl⟩
    · obtain ⟨e, ⟨b', hb', rfl⟩, hin⟩ := hex
      exact ⟨b', hb', hin⟩

theorem external_of_cluster (h : svc.externalTrafficPolicy = .Cluster) :
    (selectEndpoints svc svcPort slices node).external =
      (selectEndpoints svc svcPort slices node).cluster := by
  unfold selectEndpoints
  rw [h]

theorem mem_external (h : svc.externalTrafficPolicy = .Local) :
    t ∈ (selectEndpoints svc svcPort slices node).external ↔
      t ∈ LocalSet (backings svcPort slices node) := by
  unfold selectEndpoints
  rw [h]
  dsimp only
  rw [mem_dedupSorted, classifyAll_eq, List.mem_map]
  constructor
  · rintro ⟨c, hc, rfl⟩
    obtain ⟨hc, hlocal⟩ := List.mem_filter.mp hc
    obtain ⟨b, hb, rfl⟩ := mem_workingOf.mp hc
    exact ⟨b, hb, rfl, hlocal⟩
  · rintro ⟨b, hb, rfl, hlocal⟩
    exact ⟨b.toClassified, List.mem_filter.mpr ⟨mem_workingOf.mpr ⟨b, hb, rfl⟩, hlocal⟩, rfl⟩

theorem pairwise_cluster : (selectEndpoints svc svcPort slices node).cluster.Pairwise (· < ·) :=
  pairwise_dedupSorted _

theorem pairwise_external :
    (selectEndpoints svc svcPort slices node).external.Pairwise (· < ·) := by
  unfold selectEndpoints
  dsimp only
  split
  · exact pairwise_dedupSorted _
  · exact pairwise_dedupSorted _

theorem fromTerminating_iff : (selectEndpoints svc svcPort slices node).fromTerminating = true ↔
    ∀ b ∈ backings svcPort slices node, b.readyServing = false := by
  change (workingOf (classifyAll svcPort slices node)).2 = true ↔ _
  rw [classifyAll_eq, workingOf_snd]

theorem mem_sliceBackings {slice : EndpointSlice} {b : Backing} :
    b ∈ sliceBackings svcPort node slice ↔ ∃ targetPort,
      resolveTargetPort svcPort slice = some targetPort ∧ ∃ ep ∈ slice.endpoints,
        ∃ ip ∈ ep.addresses, ⟨classify node targetPort ep ip, ep.hintsForZones⟩ = b := by
  unfold sliceBackings
  cases resolveTargetPort svcPort slice with
  | none => simp
  | some targetPort => simp [List.mem_flatMap]

theorem exists_looked {b : Backing} (hb : b ∈ backings svcPort slices node) :
    ∃ b' ∈ backings svcPort slices node, b'.target.ip = b.target.ip ∧
      b'.hints = looked svcPort slices b := by
  unfold looked
  induction slices with
  | nil => cases hb
  | cons slice slices ih =>
    have hsplit : backings svcPort (slice :: slices) node =
        sliceBackings svcPort node slice ++ backings svcPort slices node := rfl
    rw [hsplit] at hb ⊢
    rw [hintsFor]
    cases hport : resolveTargetPort svcPort slice with
    | none =>
      have hrest : b ∈ backings svcPort slices node := by
        rcases List.mem_append.mp hb with hb | hb
        · obtain ⟨targetPort, hsome, -⟩ := mem_sliceBackings.mp hb
          rw [hport] at hsome
          cases hsome
        · exact hb
      obtain ⟨b', hb', heq⟩ := ih hrest
      exact ⟨b', List.mem_append_right _ hb', heq⟩
    | some targetPort =>
      rw [if_neg (by exact Bool.false_ne_true)]
      cases hfind : slice.endpoints.find? fun ep => b.target.ip ∈ ep.addresses with
      | some ep =>
        have hfound := List.find?_some hfind
        have hin : b.target.ip ∈ ep.addresses := of_decide_eq_true hfound
        refine ⟨⟨classify node targetPort ep b.target.ip, ep.hintsForZones⟩,
          List.mem_append_left _ (mem_sliceBackings.mpr ⟨targetPort, hport, ep,
            List.mem_of_find?_eq_some hfind, _, hin, rfl⟩), rfl, rfl⟩
      | none =>
        have hrest : b ∈ backings svcPort slices node := by
          rcases List.mem_append.mp hb with hb | hb
          · obtain ⟨port, -, ep, hep, ip, hip, rfl⟩ := mem_sliceBackings.mp hb
            have hnot : ¬ decide (ip ∈ ep.addresses) = true := List.find?_eq_none.mp hfind ep hep
            exact absurd (decide_eq_true hip) hnot
          · exact hb
        obtain ⟨b', hb', heq⟩ := ih hrest
        exact ⟨b', List.mem_append_right _ hb', heq⟩

theorem looked_of_first {ports : List EndpointPort} {ep : Endpoint} {es : List Endpoint}
    {b : Backing} (hport : resolveTargetPort svcPort ⟨ports, ep :: es⟩ ≠ none)
    (hip : b.target.ip ∈ ep.addresses) :
    looked svcPort (⟨ports, ep :: es⟩ :: slices) b = ep.hintsForZones := by
  unfold looked
  rw [hintsFor, if_neg (by simpa using hport), List.find?_cons_of_pos (by simpa using hip)]

/-! ## Rearranged slices -/

theorem Rearranged.backings_perm (h : Rearranged slices slices') :
    (backings svcPort slices node).Perm (backings svcPort slices' node) := by
  induction h with
  | slices h => exact h.flatMap_right _
  | @endpoints front rest ports es es' h =>
    unfold backings
    rw [List.flatMap_append, List.flatMap_append, List.flatMap_cons, List.flatMap_cons]
    refine List.Perm.append_left _ (List.Perm.append_right _ ?_)
    unfold sliceBackings
    have hport : resolveTargetPort svcPort ⟨ports, es⟩ = resolveTargetPort svcPort ⟨ports, es'⟩ :=
      rfl
    rw [hport]
    cases resolveTargetPort svcPort ⟨ports, es'⟩ with
    | none => exact .rfl
    | some targetPort => exact h.flatMap_right _
  | @move front mid rest ports e es es' =>
    have hcons : ∀ es, sliceBackings svcPort node ⟨ports, e :: es⟩ =
        sliceBackings svcPort node ⟨ports, [e]⟩ ++ sliceBackings svcPort node ⟨ports, es⟩ := by
      intro es
      unfold sliceBackings
      have hport : ∀ es, resolveTargetPort svcPort ⟨ports, es⟩ =
        resolveTargetPort svcPort ⟨ports, []⟩ := fun _ => rfl
      rw [hport (e :: es), hport [e], hport es]
      cases resolveTargetPort svcPort ⟨ports, []⟩ with
      | none => rfl
      | some targetPort => simp [List.flatMap_cons]
    unfold backings
    simp only [List.flatMap_append, List.flatMap_cons, List.append_assoc, hcons es, hcons es']
    refine List.Perm.append_left _ (List.perm_append_comm_assoc _ _ _ |>.trans ?_)
    exact List.Perm.append_left _ (List.perm_append_comm_assoc _ _ _)
  | trans h h' ih ih' => exact ih.trans ih'

theorem working_congr (h : ∀ b, b ∈ l ↔ b ∈ l') (b : Backing) :
    Working l b ↔ Working l' b := by
  unfold Working
  simp only [h]

theorem chosen_congr (h : ∀ b, b ∈ l ↔ b ∈ l') (hints : Backing → List String) :
    Chosen hints l node = Chosen hints l' node := by
  unfold Chosen Restricts
  simp only [working_congr h]

theorem localSet_congr (h : ∀ b, b ∈ l ↔ b ∈ l') : LocalSet l = LocalSet l' := by
  unfold LocalSet
  simp only [working_congr h]

theorem Unambiguous.congr (h : ∀ b, b ∈ l ↔ b ∈ l') (hl : Unambiguous svc l node) :
    Unambiguous svc l' node := by
  refine ⟨fun zone hzone => ?_, ?_, fun hlocal => ?_⟩
  · have hagree := hl.hints zone hzone
    unfold HintsAgree at hagree ⊢
    simpa only [working_congr h, h] using hagree
  · have hset : Chosen Backing.hints l node = Chosen Backing.hints l' node := chosen_congr h _
    exact hset ▸ hl.cluster
  · exact localSet_congr h ▸ hl.external hlocal

/-! ## When endpoints do not contradict each other -/

theorem chosen_looked (h : ∀ zone, node.zone = some zone →
      HintsAgree (backings svcPort slices node) zone) :
    Chosen (looked svcPort slices) (backings svcPort slices node) node =
      Chosen Backing.hints (backings svcPort slices node) node := by
  generalize hl : backings svcPort slices node = l at h
  have hlooked : ∀ b, Working l b → ∃ b' ∈ l, b'.target.ip = b.target.ip ∧
      b'.hints = looked svcPort slices b := by
    intro b hb
    rw [← hl] at hb ⊢
    exact exists_looked hb.1
  have hiff : ∀ zone, node.zone = some zone → ∀ b, Working l b →
      ((Restricts (looked svcPort slices) l zone → zone ∈ looked svcPort slices b) ↔
        (Restricts Backing.hints l zone → zone ∈ b.hints)) := by
    intro zone hzone b hb
    rcases h zone hzone with hagree | ⟨b₀, hb₀, hnone⟩ | hnever
    · have hsame : ∀ b, Working l b → (looked svcPort slices b = [] ↔ b.hints = []) ∧
          (zone ∈ looked svcPort slices b ↔ zone ∈ b.hints) := by
        intro b hb
        obtain ⟨b', hb', hip, heq⟩ := hlooked b hb
        rw [← heq]
        exact hagree b hb b' hb' hip
      have hrestricts : Restricts (looked svcPort slices) l zone ↔
          Restricts Backing.hints l zone := by
        refine and_congr (forall₂_congr fun b hb => not_congr (hsame b hb).1) ?_
        exact exists_congr fun b => and_congr_right fun hb => (hsame b hb).2
      rw [hrestricts, (hsame b hb).2]
    · -- some address never has hints
      obtain ⟨b', hb', hip, heq⟩ := hlooked b₀ hb₀
      refine iff_of_true (fun hr => absurd ?_ (hr.1 b₀ hb₀)) fun hr => absurd ?_ (hr.1 b₀ hb₀)
      · rw [← heq]
        exact hnone b' hb' hip
      · exact hnone b₀ hb₀.1 rfl
    · -- the zone is never named
      refine iff_of_true (fun hr => ?_) fun hr => ?_
      · obtain ⟨b₀, hb₀, hin⟩ := hr.2
        obtain ⟨b', hb', hip, heq⟩ := hlooked b₀ hb₀
        rw [← heq] at hin
        exact absurd hin (hnever b₀ hb₀ b' hb' hip)
      · obtain ⟨b₀, hb₀, hin⟩ := hr.2
        exact absurd hin (hnever b₀ hb₀ b₀ hb₀.1 rfl)
  ext t
  constructor
  · rintro ⟨b, hb, rfl, hchosen⟩
    exact ⟨b, hb, rfl, fun zone hzone => (hiff zone hzone b hb).mp (hchosen zone hzone)⟩
  · rintro ⟨b, hb, rfl, hchosen⟩
    exact ⟨b, hb, rfl, fun zone hzone => (hiff zone hzone b hb).mpr (hchosen zone hzone)⟩

theorem exists_chosen (node : NodeContext) (hints : Backing → List String) {b : Backing}
    (hb : Working l b) :
    ∃ t, t ∈ Chosen hints l node := by
  by_cases h : ∃ zone, node.zone = some zone ∧ Restricts hints l zone
  · obtain ⟨zone, hzone, hr⟩ := h
    obtain ⟨b', hb', hin⟩ := hr.2
    refine ⟨b'.target, b', hb', rfl, fun zone' hzone' _ => ?_⟩
    rw [hzone] at hzone'
    exact Option.some.inj hzone' ▸ hin
  · exact ⟨b.target, b, hb, rfl, fun zone hzone hr => absurd ⟨zone, hzone, hr⟩ h⟩

theorem exists_working {b : Backing} (hb : b ∈ l)
    (h : b.readyServing = true ∨ b.servingTerminating = true) : ∃ b', Working l b' := by
  by_cases hready : ∃ b' ∈ l, b'.readyServing = true
  · obtain ⟨b', hb', hready⟩ := hready
    exact ⟨b', hb', .inl hready⟩
  · have hnone : ∀ b' ∈ l, b'.readyServing = false := fun b' hb' =>
      Bool.eq_false_iff.mpr fun hready' => hready ⟨b', hb', hready'⟩
    rcases h with h | h
    · exact absurd ⟨b, hb, h⟩ hready
    · exact ⟨b, hb, .inr ⟨hnone, h⟩⟩

theorem nodup_map_of_oneTarget {v : List EndpointTarget} (h : v.Pairwise (· < ·))
    (hone : OneTarget {t | t ∈ v}) : (v.map fun t => (t.ip, t.port)).Nodup := by
  refine List.Nodup.map_on (fun t ht t' ht' heq => ?_) (h.imp fun hlt => hlt.ne)
  exact hone t ht t' ht' (congrArg Prod.fst heq) (congrArg Prod.snd heq)

theorem oneTarget_of_nodup_map {v : List EndpointTarget}
    (h : (v.map fun t => (t.ip, t.port)).Nodup) : OneTarget {t | t ∈ v} :=
  fun _ ht _ ht' hip hport => List.inj_on_of_nodup_map h ht ht' (Prod.ext hip hport)

theorem cluster_of_unambiguous (h : Unambiguous svc (backings svcPort slices node) node) :
    {t | t ∈ (selectEndpoints svc svcPort slices node).cluster} =
      Chosen Backing.hints (backings svcPort slices node) node := by
  ext t
  rw [← chosen_looked h.hints]
  exact mem_cluster

theorem selectEndpoints_congr (h : Unambiguous svc (backings svcPort slices node) node)
    (hmem : ∀ b, b ∈ backings svcPort slices node ↔ b ∈ backings svcPort slices' node) :
    selectEndpoints svc svcPort slices' node = selectEndpoints svc svcPort slices node := by
  have hcluster : (selectEndpoints svc svcPort slices' node).cluster =
      (selectEndpoints svc svcPort slices node).cluster := by
    refine eq_of_mem_iff pairwise_cluster pairwise_cluster fun t => ?_
    have hset := cluster_of_unambiguous (h.congr hmem)
    rw [← chosen_congr hmem, ← cluster_of_unambiguous h] at hset
    exact Set.ext_iff.mp hset t
  have hexternal : (selectEndpoints svc svcPort slices' node).external =
      (selectEndpoints svc svcPort slices node).external := by
    cases hpolicy : svc.externalTrafficPolicy with
    | Cluster => rw [external_of_cluster hpolicy, external_of_cluster hpolicy, hcluster]
    | Local =>
      refine eq_of_mem_iff pairwise_external pairwise_external fun t => ?_
      rw [mem_external hpolicy, mem_external hpolicy, localSet_congr hmem]
  have hterminating : (selectEndpoints svc svcPort slices' node).fromTerminating =
      (selectEndpoints svc svcPort slices node).fromTerminating := by
    rw [Bool.eq_iff_iff, fromTerminating_iff, fromTerminating_iff]
    simp only [hmem]
  generalize selectEndpoints svc svcPort slices' node = s' at *
  generalize selectEndpoints svc svcPort slices node = s at *
  cases s
  cases s'
  cases hcluster
  cases hexternal
  cases hterminating
  rfl

theorem meets_of_unambiguous (h : Unambiguous svc (backings svcPort slices node) node) :
    Meets svc svcPort slices node := by
  have hcluster := cluster_of_unambiguous h
  have hone : OneTarget {t | t ∈ (selectEndpoints svc svcPort slices node).cluster} := by
    rw [hcluster]
    exact h.cluster
  refine ⟨fun t => Set.ext_iff.mp hcluster t, fun hnil b hb => ?_, external_of_cluster,
    fun hpolicy t => mem_external hpolicy, nodup_map_of_oneTarget pairwise_cluster hone, ?_,
    fun slices' hslices => selectEndpoints_congr h fun b => hslices.backings_perm.mem_iff⟩
  · by_contra hworks
    have hworks : b.readyServing = true ∨ b.servingTerminating = true := by
      cases hready : b.readyServing <;> cases hserving : b.servingTerminating <;> simp_all
    obtain ⟨b', hb'⟩ := exists_working hb hworks
    obtain ⟨t, ht⟩ := exists_chosen node (looked svcPort slices) hb'
    have hmem : t ∈ (selectEndpoints svc svcPort slices node).cluster := mem_cluster.mpr ht
    rw [hnil] at hmem
    cases hmem
  · cases hpolicy : svc.externalTrafficPolicy with
    | Cluster =>
      rw [external_of_cluster hpolicy]
      exact nodup_map_of_oneTarget pairwise_cluster hone
    | Local =>
      refine nodup_map_of_oneTarget pairwise_external ?_
      have hset : {t | t ∈ (selectEndpoints svc svcPort slices node).external} =
          LocalSet (backings svcPort slices node) := Set.ext fun t => mem_external hpolicy
      rw [hset]
      exact h.external hpolicy

/-- The hints of the endpoints keep some working target out. -/
def Narrows (l : List Backing) (node : NodeContext) : Prop :=
  ∃ b, Working l b ∧ b.target ∉ Chosen Backing.hints l node

theorem exists_rearranged {b : Backing} (hb : b ∈ backings svcPort slices node) :
    ∃ slices', Rearranged slices slices' ∧
      ∀ b', b'.target.ip = b.target.ip → looked svcPort slices' b' = b.hints := by
  obtain ⟨slice, hslice, hb⟩ := List.mem_flatMap.mp hb
  obtain ⟨targetPort, hport, ep, hep, ip, hip, rfl⟩ := mem_sliceBackings.mp hb
  obtain ⟨ports, endpoints⟩ := slice
  refine ⟨⟨ports, ep :: endpoints.erase ep⟩ :: slices.erase ⟨ports, endpoints⟩,
    .trans (.slices (List.perm_cons_erase hslice)) ?_, fun b' hb' => ?_⟩
  · have hmoved : Rearranged ([] ++ ⟨ports, endpoints⟩ :: slices.erase ⟨ports, endpoints⟩)
        ([] ++ ⟨ports, ep :: endpoints.erase ep⟩ :: slices.erase ⟨ports, endpoints⟩) :=
      .endpoints (List.perm_cons_erase hep)
    exact hmoved
  · refine looked_of_first ?_ (by rw [hb']; exact hip)
    have hsame : resolveTargetPort svcPort ⟨ports, ep :: endpoints.erase ep⟩ = some targetPort :=
      hport
    rw [hsame]
    exact Option.some_ne_none _

theorem hintsAgree_of_meets (h : Meets svc svcPort slices node)
    (hnarrows : Narrows (backings svcPort slices node) node) {zone : String}
    (hzone : node.zone = some zone) : HintsAgree (backings svcPort slices node) zone := by
  obtain ⟨b₀, hb₀, hout⟩ := hnarrows
  have hrestricts : Restricts Backing.hints (backings svcPort slices node) zone := by
    by_contra hnot
    refine hout ⟨b₀, hb₀, rfl, fun zone' hzone' hr => ?_⟩
    rw [hzone] at hzone'
    exact absurd (Option.some.inj hzone' ▸ hr) hnot
  have hfirst : ∀ b, Working (backings svcPort slices node) b →
      ∀ b' ∈ backings svcPort slices node, b'.target.ip = b.target.ip →
      b'.hints ≠ [] ∧ (zone ∈ b'.hints ↔
        b.target ∈ Chosen Backing.hints (backings svcPort slices node) node) := by
    intro b hb b' hb' hip
    obtain ⟨slices', hslices, hlooked⟩ := exists_rearranged hb'
    have hmem : ∀ c, c ∈ backings svcPort slices' node ↔ c ∈ backings svcPort slices node :=
      fun c => hslices.backings_perm.mem_iff.symm
    have hsame : ∀ t, t ∈ Chosen (looked svcPort slices') (backings svcPort slices node) node ↔
        t ∈ Chosen Backing.hints (backings svcPort slices node) node := by
      intro t
      rw [← h.cluster t, ← h.rearranged slices' hslices, mem_cluster, chosen_congr hmem]
    have hrestricts' : Restricts (looked svcPort slices') (backings svcPort slices node) zone := by
      by_contra hnot
      refine hout ((hsame _).mp ⟨b₀, hb₀, rfl, fun zone' hzone' hr => ?_⟩)
      rw [hzone] at hzone'
      exact absurd (Option.some.inj hzone' ▸ hr) hnot
    have hb'' := hlooked b hip.symm
    refine ⟨hb'' ▸ hrestricts'.1 b hb, ?_⟩
    rw [← hsame]
    constructor
    · intro hin
      refine ⟨b, hb, rfl, fun zone' hzone' _ => ?_⟩
      rw [hzone] at hzone'
      rw [← Option.some.inj hzone', hb'']
      exact hin
    · rintro ⟨c, hc, htarget, hchosen⟩
      have hin := hchosen zone hzone hrestricts'
      rwa [hlooked c (by rw [htarget, hip])] at hin
  refine .inl fun b hb b' hb' hip => ?_
  obtain ⟨hne', hiff'⟩ := hfirst b hb b' hb' hip
  obtain ⟨hne, hiff⟩ := hfirst b hb b hb.1 rfl
  exact ⟨iff_of_false hne' hne, hiff'.trans hiff.symm⟩

/-- The selection is what it is meant to be when endpoints with one address do not contradict each
other.  Without a zone of the node, and where hints keep targets out, it is so only then. -/
theorem selectEndpoints_meets (svc : Service) (svcPort : ServicePort)
    (slices : List EndpointSlice) (node : NodeContext) :
    (Unambiguous svc (backings svcPort slices node) node → Meets svc svcPort slices node) ∧
      (node.zone = none ∨ Narrows (backings svcPort slices node) node →
        Meets svc svcPort slices node → Unambiguous svc (backings svcPort slices node) node) := by
  refine ⟨meets_of_unambiguous, fun hcase h => ⟨fun zone hzone => ?_, ?_, fun hpolicy => ?_⟩⟩
  · rcases hcase with hnone | hnarrows
    · rw [hnone] at hzone
      cases hzone
    · exact hintsAgree_of_meets h hnarrows hzone
  · have hone := oneTarget_of_nodup_map h.cluster_nodup
    have hset : {t | t ∈ (selectEndpoints svc svcPort slices node).cluster} =
        Chosen Backing.hints (backings svcPort slices node) node := Set.ext h.cluster
    exact hset ▸ hone
  · have hone := oneTarget_of_nodup_map h.external_nodup
    have hset : {t | t ∈ (selectEndpoints svc svcPort slices node).external} =
        LocalSet (backings svcPort slices node) := Set.ext (h.external_local hpolicy)
    exact hset ▸ hone

end Selection

/-! ## Endpoints that share an address -/

def http : ServicePort := ⟨"http", .tcp, 80, 8080, none⟩

def web : Service where
  namespaceName := "default"
  name := "web"
  clusterIp := some (.v4 0x0A600001#32)
  serviceType := .clusterIP
  ports := [http]
  sessionAffinity := .none
  externalTrafficPolicy := .Cluster
  loadBalancerIps := []

def podAt (ip : BitVec 32) (terminating : Bool) (zone : String) (hints : List String) :
    Endpoint where
  addresses := [.v4 ip]
  conditions := ⟨some !terminating, some true, some terminating⟩
  nodeName := none
  zone := some zone
  hintsForZones := hints

def sliceOf (endpoints : List Endpoint) : EndpointSlice := ⟨[⟨"http", .tcp, 8080⟩], endpoints⟩

/-- A new endpoint has the address of one that terminates, and the hints of that one are looked up
when it comes first.  An endpoint that is listed with two zones is selected twice. -/
theorem shared_address_confuses :
    ¬ Meets web http [sliceOf [podAt 0x0A010001#32 true "z2" ["z2"],
      podAt 0x0A010001#32 false "z1" ["z1"], podAt 0x0A010002#32 false "z2" ["z2"]]]
      ⟨none, some "z1"⟩ ∧
    ¬ Meets web http [sliceOf [podAt 0x0A010001#32 false "z1" [],
      podAt 0x0A010001#32 false "z2" []]] ⟨none, none⟩ := by
  constructor
  · intro h
    have hswap : Rearranged
        ([] ++ sliceOf [podAt 0x0A010001#32 true "z2" ["z2"],
          podAt 0x0A010001#32 false "z1" ["z1"], podAt 0x0A010002#32 false "z2" ["z2"]] :: [])
        ([] ++ sliceOf [podAt 0x0A010001#32 false "z1" ["z1"],
          podAt 0x0A010001#32 true "z2" ["z2"], podAt 0x0A010002#32 false "z2" ["z2"]] :: []) :=
      .endpoints (List.Perm.swap _ _ _)
    exact absurd (h.rearranged _ hswap) (by decide)
  · intro h
    exact absurd h.cluster_nodup (by decide)

end CaveHome.KubeProxy.Core
