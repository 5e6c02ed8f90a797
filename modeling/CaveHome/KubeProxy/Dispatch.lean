import CaveHome.KubeProxy.RulesBuilder
import Mathlib.Data.List.Perm.Basic

/-!
# What the table does to a packet

A packet enters at `KUBE-SERVICES`.  The rules of a service are found among those of all services
by the names of their chains; with them, the packet goes to each endpoint of its service with the
same chance, and to nothing else.
-/

namespace CaveHome.KubeProxy

open RuleTable (Fate Meaning runRules runChain chainOf)

/-! ## Packets -/

structure Packet (α : Type) where
  src : α
  dst : α
  dport : Int
  protocol : Protocol
deriving DecidableEq

/-- How texts are read: addresses, ranges of addresses, and which addresses are local. -/
structure Net (α : Type) where
  addr : String → α
  inCidr : String → α → Bool
  isLocal : α → Bool

/-- A packet with its mark and the destination that it was given. -/
structure Traffic (α : Type) where
  packet : Packet α
  mark : BitVec 32
  destination : Option EndpointInfo
  masqueraded : Bool
deriving DecidableEq

def masqueradeMark : BitVec 32 := 0x4000#32

section

variable {α : Type} [DecidableEq α] (net : Net α)

def certain (b : Bool) : ℚ := if b then 1 else 0

def Match.chance (t : Traffic α) : Match → ℚ
  | comment _ => 1
  | protocol p => certain (t.packet.protocol = p)
  | destination ip => certain (t.packet.dst = net.addr ip)
  | dport port => certain (t.packet.dport = port)
  | source ip => certain (t.packet.src = net.addr ip)
  | notSource cidr => certain (!net.inCidr cidr t.packet.src)
  | random k => 1 / (k : ℚ)
  | notMarked => certain (t.mark &&& masqueradeMark ≠ masqueradeMark)
  | dstTypeLocal => certain (net.isLocal t.packet.dst)

def Action.run (t : Traffic α) : Action → Traffic α
  | orMark => { t with mark := t.mark ||| masqueradeMark }
  | xorMark => { t with mark := t.mark ^^^ masqueradeMark }
  | masquerade => { t with masqueraded := true }
  | dnat ep => { t with destination := some ep }

def Action.final : Action → Bool
  | orMark => false
  | xorMark => false
  | masquerade => true
  | dnat _ => true

def meaning : Meaning Match Action (Traffic α) where
  chance := fun g t => g.chance net t
  act := fun a t => a.run t
  final := Action.final

/-- The fate of a packet that enters the table at `KUBE-SERVICES`. -/
def serve (digest : String → String) (input : BuildInput) (depth : Nat) (t : Traffic α) :
    Dist (Fate (Traffic α)) :=
  runChain (meaning net) (proxyRules digest input) depth .kubeServices t

/-- The packet is for the service. -/
def Addressed (svc : ServicePortInfo) (p : Packet α) : Prop :=
  p.protocol = svc.protocol ∧ p.dst = net.addr svc.clusterIp ∧ p.dport = svc.port

instance (svc : ServicePortInfo) (p : Packet α) : Decidable (Addressed net svc p) :=
  inferInstanceAs (Decidable (_ ∧ _ ∧ _))

/-- The cluster has a range of addresses and the source lies outside. -/
def outside (input : BuildInput) (p : Packet α) : Bool :=
  input.clusterCidr.any fun cidr => !net.inCidr cidr p.src

def Traffic.marked (t : Traffic α) (b : Bool) : Traffic α :=
  if b then { t with mark := t.mark ||| masqueradeMark } else t

/-- The packet as it leaves for an endpoint. -/
def delivered (input : BuildInput) (t : Traffic α) (ep : EndpointInfo) : Traffic α :=
  { t.marked (outside net input t.packet || t.packet.src = net.addr ep.ip) with
    destination := some ep }

end

/-! ## What is asked of the input -/

/-- What the snapshots of the caches give: names occur once, no two services have the same address,
port and protocol, and no endpoint is listed twice. -/
structure BuildInput.Distinct {α : Type} (net : Net α) (input : BuildInput) : Prop where
  names : (input.services.map (·.name)).Nodup
  addresses : ∀ a ∈ input.services, ∀ b ∈ input.services,
    net.addr a.clusterIp = net.addr b.clusterIp → a.port = b.port → a.protocol = b.protocol → a = b
  endpoints : ∀ a ∈ input.services, ∀ eps,
    input.endpointsByService.get a.name = some eps → eps.Nodup

/-- The digest tells the services of the input and their endpoints apart. -/
structure BuildInput.NoCollision (digest : String → String) (input : BuildInput) : Prop where
  svc : ∀ a ∈ input.services, ∀ b ∈ input.services,
    portProtoHash digest a.name.display a.protocol.lowercase =
      portProtoHash digest b.name.display b.protocol.lowercase → a.name = b.name
  sep : ∀ a ∈ input.services, ∀ b ∈ input.services, ∀ e ∈ input.endpoints a,
    ∀ f ∈ input.endpoints b,
      portProtoEndpointHash digest a.name.display a.protocol.lowercase e.endpointString =
        portProtoEndpointHash digest b.name.display b.protocol.lowercase f.endpointString →
          a.name = b.name ∧ e = f

namespace BuildInput

variable {input : BuildInput}

theorem mem_servicesSorted {a : ServicePortInfo} : a ∈ input.servicesSorted ↔ a ∈ input.services :=
  (List.perm_insertionSort _ _).mem_iff

theorem eq_of_name {a b : ServicePortInfo} (h : (input.services.map (·.name)).Nodup)
    (ha : a ∈ input.services) (hb : b ∈ input.services) (hname : a.name = b.name) : a = b :=
  List.inj_on_of_nodup_map h ha hb hname

theorem servicesSorted_nodup (h : (input.services.map (·.name)).Nodup) :
    input.servicesSorted.Nodup :=
  (List.perm_insertionSort _ _).nodup_iff.2 h.of_map

theorem endpoints_nodup {α : Type} {net : Net α} (h : input.Distinct net) {a : ServicePortInfo}
    (ha : a ∈ input.services) : (input.endpoints a).Nodup := by
  rw [endpoints, (List.perm_insertionSort _ _).nodup_iff]
  cases hget : input.endpointsByService.get a.name with
  | none => exact List.nodup_nil
  | some eps => exact h.endpoints a ha eps hget

end BuildInput

/-! ## Declarations -/

/-- The nine letters that tell the kinds of chains apart. -/
def Chain.stem : Chain → String
  | kubeServices => "KUBE-SERV"
  | kubeNodePorts => "KUBE-NODE"
  | kubePostrouting => "KUBE-POST"
  | kubeMarkMasq => "KUBE-MARK"
  | svc _ => "KUBE-SVC-"
  | sep _ => "KUBE-SEP-"

theorem Chain.take_name (c : Chain) : c.name.toList.take 9 = c.stem.toList := by
  cases c with
  | svc hash => rw [name, stem, String.toList_append, List.take_left' (by decide)]
  | sep hash => rw [name, stem, String.toList_append, List.take_left' (by decide)]
  | kubeServices => decide
  | kubeNodePorts => decide
  | kubePostrouting => decide
  | kubeMarkMasq => decide

theorem Chain.name_injective : Function.Injective Chain.name := by
  intro c d h
  have hstem : c.stem = d.stem := by
    apply String.toList_inj.1
    rw [← c.take_name, ← d.take_name, h]
  have hhash : ∀ pre hash hash' : String, pre ++ hash = pre ++ hash' → hash = hash' := by
    intro pre hash hash' heq
    have hlist := congrArg String.toList heq
    rw [String.toList_append, String.toList_append] at hlist
    exact String.toList_inj.1 (List.append_cancel_left hlist)
  cases c <;> cases d <;> first
    | rfl
    | exact congrArg svc (hhash _ _ _ h)
    | exact congrArg sep (hhash _ _ _ h)
    | simp [stem] at hstem

section

variable {digest : String → String} {input : BuildInput}

theorem svcChain_inj (hinj : input.NoCollision digest)
    (hnames : (input.services.map (·.name)).Nodup) {a b : ServicePortInfo}
    (ha : a ∈ input.services) (hb : b ∈ input.services)
    (h : svcChain digest a = svcChain digest b) : a = b :=
  BuildInput.eq_of_name hnames ha hb (hinj.svc a ha b hb (Chain.svc.inj h))

theorem sepChain_inj (hinj : input.NoCollision digest)
    (hnames : (input.services.map (·.name)).Nodup) {a b : ServicePortInfo}
    (ha : a ∈ input.services) (hb : b ∈ input.services) {e f : EndpointInfo}
    (he : e ∈ input.endpoints a) (hf : f ∈ input.endpoints b)
    (h : sepChain digest a e = sepChain digest b f) : a = b ∧ e = f := by
  obtain ⟨hname, hep⟩ := hinj.sep a ha b hb e he f hf (Chain.sep.inj h)
  exact ⟨BuildInput.eq_of_name hnames ha hb hname, hep⟩

theorem serviceChains_nodup (hinj : input.NoCollision digest)
    (hnames : (input.services.map (·.name)).Nodup)
    (heps : ∀ a ∈ input.services, (input.endpoints a).Nodup) :
    (serviceChains digest input).Nodup := by
  apply List.nodup_flatMap.2
  constructor
  · intro a ha
    rw [BuildInput.mem_servicesSorted] at ha
    apply List.nodup_cons.2
    constructor
    · simp [svcChain, sepChain]
    · apply (heps a ha).map_on
      intro e he f hf h
      exact (sepChain_inj hinj hnames ha ha he hf h).2
  · apply (List.Pairwise.and_mem.1 (BuildInput.servicesSorted_nodup hnames)).imp
    rintro a b ⟨ha, hb, hne⟩ c hca hcb
    rw [BuildInput.mem_servicesSorted] at ha hb
    rcases List.mem_cons.1 hca with rfl | hca <;> rcases List.mem_cons.1 hcb with hcb | hcb
    · exact hne (svcChain_inj hinj hnames ha hb hcb)
    · obtain ⟨f, -, hf⟩ := List.mem_map.1 hcb
      cases hf
    · obtain ⟨e, -, he⟩ := List.mem_map.1 hca
      cases he.trans hcb
    · obtain ⟨e, he, rfl⟩ := List.mem_map.1 hca
      obtain ⟨f, hf, h⟩ := List.mem_map.1 hcb
      exact hne (sepChain_inj hinj hnames hb ha hf he h).1.symm

theorem declared_nodup (hinj : input.NoCollision digest)
    (hnames : (input.services.map (·.name)).Nodup)
    (heps : ∀ a ∈ input.services, (input.endpoints a).Nodup) :
    ((topLevelChains ++ serviceChains digest input).map Chain.name).Nodup := by
  apply List.Nodup.map Chain.name_injective
  apply List.Nodup.append (by decide) (serviceChains_nodup hinj hnames heps)
  intro c htop hservice
  obtain ⟨a, -, hc⟩ := List.mem_flatMap.1 hservice
  rcases List.mem_cons.1 hc with rfl | hc
  · simp [topLevelChains, svcChain] at htop
  · obtain ⟨e, -, rfl⟩ := List.mem_map.1 hc
    simp [topLevelChains, sepChain] at htop

theorem mem_serviceChains_svc {a : ServicePortInfo} (ha : a ∈ input.services) :
    svcChain digest a ∈ serviceChains digest input :=
  List.mem_flatMap.2 ⟨a, BuildInput.mem_servicesSorted.2 ha, List.mem_cons_self⟩

theorem mem_serviceChains_sep {a : ServicePortInfo} (ha : a ∈ input.services) {e : EndpointInfo}
    (he : e ∈ input.endpoints a) : sepChain digest a e ∈ serviceChains digest input :=
  List.mem_flatMap.2 ⟨a, BuildInput.mem_servicesSorted.2 ha,
    List.mem_cons_of_mem _ (List.mem_map_of_mem he)⟩

/-- A rule stands in a declared chain and hands packets to declared chains only. -/
def UsesDeclared (declared : List Chain) (r : Rule) : Prop :=
  r.chain ∈ declared ∧ ∀ c, r.target = .jump c → c ∈ declared

theorem endpointRules_declared {a : ServicePortInfo} {declared : List Chain}
    (hsvc : svcChain digest a ∈ declared) (hmasq : .kubeMarkMasq ∈ declared)
    {eps : List EndpointInfo} (hsep : ∀ e ∈ eps, sepChain digest a e ∈ declared) :
    ∀ r ∈ endpointRules digest a eps, UsesDeclared declared r := by
  induction eps with
  | nil => simp [endpointRules]
  | cons e rest ih =>
    have he := hsep e List.mem_cons_self
    have hrest := ih fun f hf => hsep f (List.mem_cons_of_mem e hf)
    simp only [endpointRules, sepRules, List.cons_append, List.nil_append, List.forall_mem_cons]
    refine ⟨⟨hsvc, ?_⟩, ⟨he, ?_⟩, ⟨he, ?_⟩, hrest⟩ <;> intro c hc <;> cases hc
    · exact he
    · exact hmasq

theorem proxyRules_declared :
    ∀ r ∈ proxyRules digest input,
      UsesDeclared (topLevelChains ++ serviceChains digest input) r := by
  have htop : ∀ c ∈ topLevelChains, c ∈ topLevelChains ++ serviceChains digest input :=
    fun c hc => List.mem_append_left _ hc
  intro r hr
  rcases List.mem_append.1 hr with hr | hr
  · rcases List.mem_append.1 hr with hr | hr
    · have hskeleton : ∀ r ∈ skeletonRules, r.chain ∈ topLevelChains ∧ ∀ c, r.target ≠ .jump c := by
        simp [skeletonRules, topLevelChains]
      exact ⟨htop _ (hskeleton r hr).1, fun c hc => absurd hc ((hskeleton r hr).2 c)⟩
    · obtain ⟨a, ha, hr⟩ := List.mem_flatMap.1 hr
      rw [BuildInput.mem_servicesSorted] at ha
      have hsvc : svcChain digest a ∈ topLevelChains ++ serviceChains digest input :=
        List.mem_append_right topLevelChains (mem_serviceChains_svc ha)
      have hmasq := htop .kubeMarkMasq (by decide)
      rcases List.mem_append.1 hr with hr | hr
      · rcases List.mem_cons.1 hr with rfl | hr
        · refine ⟨htop .kubeServices (by decide), fun c hc => ?_⟩
          cases hc
          exact hsvc
        · obtain ⟨cidr, -, rfl⟩ := List.mem_map.1 hr
          refine ⟨hsvc, fun c hc => ?_⟩
          cases hc
          exact hmasq
      · exact endpointRules_declared hsvc hmasq
          (fun e he => List.mem_append_right _ (mem_serviceChains_sep ha he)) r hr
  · obtain rfl := List.mem_singleton.1 hr
    refine ⟨htop _ (by decide), fun c hc => ?_⟩
    cases hc
    exact htop _ (by decide)

end

end CaveHome.KubeProxy
