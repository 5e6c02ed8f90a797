import CaveHome.KubeProxy.Dispatch
import CaveHome.Lib.KeyedList

/-!
# Traffic to services

The rules of one chain are picked out of the whole table; then the fate of a packet is computed
chain by chain, from the chains of the endpoints up to `KUBE-SERVICES`.
-/

namespace CaveHome.KubeProxy

open RuleTable (Fate Meaning runRules runChain chainOf balance)

/-! ## The rules of a chain -/

section

variable {digest : String → String} {input : BuildInput}

theorem chainOf_append (rs rs' : List Rule) (c : Chain) :
    chainOf (rs ++ rs') c = chainOf rs c ++ chainOf rs' c := List.filter_append _ _

theorem chainOf_cons (r : Rule) (rs : List Rule) (c : Chain) :
    chainOf (r :: rs) c = if r.chain = c then r :: chainOf rs c else chainOf rs c := by
  by_cases h : r.chain = c <;> simp [chainOf, h]

@[simp]
theorem chainOf_nil (c : Chain) : chainOf ([] : List Rule) c = [] := rfl

theorem chainOf_flatMap {γ : Type} (l : List γ) (f : γ → List Rule) (c : Chain) :
    chainOf (l.flatMap f) c = l.flatMap fun a => chainOf (f a) c := List.filter_flatMap

theorem chainOf_egressRules (a : ServicePortInfo) (cidr : Option String) (c : Chain) :
    chainOf (egressRules digest a cidr) c =
      if svcChain digest a = c then egressRules digest a cidr else [] := by
  cases cidr with
  | none => simp [egressRules]
  | some cidr =>
    simp only [egressRules, Option.toList_some, List.map_cons, List.map_nil, chainOf_cons,
      chainOf_nil]

theorem chainOf_endpointRules_svc (a b : ServicePortInfo) (eps : List EndpointInfo) :
    chainOf (endpointRules digest b eps) (svcChain digest a) =
      if svcChain digest b = svcChain digest a then balance (balanceRule digest b) eps else [] := by
  induction eps with
  | nil => simp [endpointRules, balance]
  | cons e rest ih =>
    have hsep : sepChain digest b e ≠ svcChain digest a := by simp [sepChain, svcChain]
    simp only [endpointRules, sepRules, List.cons_append, List.nil_append, chainOf_cons,
      if_neg hsep, ih, balance]
    by_cases h : svcChain digest b = svcChain digest a
    · rw [if_pos h, if_pos h, if_pos (by exact h)]
    · rw [if_neg h, if_neg h, if_neg (by exact h)]

theorem chainOf_endpointRules_sep (b : ServicePortInfo) (eps : List EndpointInfo) (hash : String) :
    chainOf (endpointRules digest b eps) (.sep hash) =
      eps.flatMap fun e => if sepChain digest b e = .sep hash then sepRules digest b e else [] := by
  induction eps with
  | nil => rfl
  | cons e rest ih =>
    have hsvc : (balanceRule digest b (rest.length + 1) e).chain ≠ .sep hash := by
      simp [balanceRule, svcChain]
    rw [endpointRules, List.cons_append, chainOf_cons, if_neg hsvc, chainOf_append, ih,
      List.flatMap_cons]
    congr 1
    simp only [sepRules, chainOf_cons, chainOf_nil]
    split <;> rfl

theorem chainOf_endpointRules_top {c : Chain} (hsvc : ∀ hash, c ≠ .svc hash)
    (hsep : ∀ hash, c ≠ .sep hash) (b : ServicePortInfo) (eps : List EndpointInfo) :
    chainOf (endpointRules digest b eps) c = [] := by
  induction eps with
  | nil => rfl
  | cons e rest ih =>
    simp only [endpointRules, sepRules, List.cons_append, List.nil_append, chainOf_cons, ih]
    rw [if_neg (fun h => hsvc _ h.symm), if_neg (fun h => hsep _ h.symm),
      if_neg (fun h => hsep _ h.symm)]

theorem chainOf_svc (hinj : input.NoCollision digest)
    (hnames : (input.services.map (·.name)).Nodup) {a : ServicePortInfo} (ha : a ∈ input.services) :
    chainOf (proxyRules digest input) (svcChain digest a) =
      egressRules digest a input.clusterCidr ++ balance (balanceRule digest a) (input.endpoints a) := by
  have hservice : ∀ b, chainOf (serviceRules digest input b) (svcChain digest a) =
      if svcChain digest b = svcChain digest a then
        egressRules digest b input.clusterCidr ++
          balance (balanceRule digest b) (input.endpoints b)
      else [] := by
    intro b
    have hdispatch : (dispatchRule digest b).chain ≠ svcChain digest a := by
      simp [dispatchRule, svcChain]
    rw [serviceRules, chainOf_append, chainOf_cons, if_neg hdispatch, chainOf_egressRules,
      chainOf_endpointRules_svc]
    split <;> rfl
  have hunique := KeyedList.flatMap_eq_of_unique (f := fun b =>
      chainOf (serviceRules digest input b) (svcChain digest a))
    (BuildInput.servicesSorted_nodup hnames) (BuildInput.mem_servicesSorted.2 ha) (by
      intro b hb hne
      rw [hservice, if_neg]
      intro h
      exact hne (svcChain_inj hinj hnames (BuildInput.mem_servicesSorted.1 hb) ha h))
  rw [proxyRules, chainOf_append, chainOf_append, chainOf_flatMap, hunique, hservice, if_pos rfl]
  simp [skeletonRules, nodePortsRule, chainOf_cons, svcChain]

theorem chainOf_serviceRules_sep (a : ServicePortInfo) (hash : String) :
    chainOf (serviceRules digest input a) (.sep hash) =
      (input.endpoints a).flatMap fun e =>
        if sepChain digest a e = .sep hash then sepRules digest a e else [] := by
  have hdispatch : (dispatchRule digest a).chain ≠ .sep hash := by simp [dispatchRule]
  have hsvc : svcChain digest a ≠ .sep hash := by simp [svcChain]
  rw [serviceRules, chainOf_append, chainOf_cons, if_neg hdispatch, chainOf_egressRules,
    if_neg hsvc, chainOf_endpointRules_sep, List.nil_append]

theorem chainOf_sep (hinj : input.NoCollision digest)
    (hnames : (input.services.map (·.name)).Nodup) {a : ServicePortInfo} (ha : a ∈ input.services)
    (heps : (input.endpoints a).Nodup) {e : EndpointInfo} (he : e ∈ input.endpoints a) :
    chainOf (proxyRules digest input) (sepChain digest a e) = sepRules digest a e := by
  have hother : ∀ b ∈ input.servicesSorted, b ≠ a →
      chainOf (serviceRules digest input b) (sepChain digest a e) = [] := by
    intro b hb hne
    rw [sepChain, chainOf_serviceRules_sep, List.flatMap_eq_nil_iff]
    intro f hf
    rw [if_neg]
    intro h
    exact hne (sepChain_inj hinj hnames (BuildInput.mem_servicesSorted.1 hb) ha hf he h).1
  have hself : chainOf (serviceRules digest input a) (sepChain digest a e) =
      sepRules digest a e := by
    rw [sepChain, chainOf_serviceRules_sep, KeyedList.flatMap_eq_of_unique heps he]
    · exact if_pos rfl
    · intro f hf hne
      rw [if_neg]
      intro h
      exact hne (sepChain_inj hinj hnames ha ha hf he h).2
  rw [proxyRules, chainOf_append, chainOf_append, chainOf_flatMap,
    KeyedList.flatMap_eq_of_unique (BuildInput.servicesSorted_nodup hnames)
      (BuildInput.mem_servicesSorted.2 ha) hother, hself]
  simp [skeletonRules, nodePortsRule, chainOf_cons, sepChain]

theorem chainOf_serviceRules_top {c : Chain} (hsvc : ∀ hash, c ≠ .svc hash)
    (hsep : ∀ hash, c ≠ .sep hash) (a : ServicePortInfo) :
    chainOf (serviceRules digest input a) c =
      if .kubeServices = c then [dispatchRule digest a] else [] := by
  have hne : svcChain digest a ≠ c := fun h => hsvc _ h.symm
  rw [serviceRules, chainOf_append, chainOf_cons, chainOf_egressRules, if_neg hne,
    chainOf_endpointRules_top hsvc hsep]
  split <;> rename_i h
  · rw [if_pos (by exact h)]
    rfl
  · rw [if_neg (by exact h)]
    rfl

theorem chainOf_kubeServices :
    chainOf (proxyRules digest input) .kubeServices =
      input.servicesSorted.map (dispatchRule digest) ++ [nodePortsRule] := by
  have hservices : (fun a => chainOf (serviceRules digest input a) .kubeServices) =
      fun a => [dispatchRule digest a] := by
    funext a
    rw [chainOf_serviceRules_top (by simp) (by simp), if_pos rfl]
  rw [proxyRules, chainOf_append, chainOf_append, chainOf_flatMap, hservices,
    ← List.map_eq_flatMap]
  simp [skeletonRules, nodePortsRule, chainOf_cons]

theorem chainOf_kubeMarkMasq :
    chainOf (proxyRules digest input) .kubeMarkMasq = [⟨.kubeMarkMasq, [], .act .orMark⟩] := by
  have hservices : (input.servicesSorted.flatMap fun a =>
      chainOf (serviceRules digest input a) .kubeMarkMasq) = [] := by
    rw [List.flatMap_eq_nil_iff]
    intro a _
    rw [chainOf_serviceRules_top (by simp) (by simp), if_neg (by simp)]
  rw [proxyRules, chainOf_append, chainOf_append, chainOf_flatMap, hservices]
  simp [skeletonRules, nodePortsRule, chainOf_cons]

theorem chainOf_kubeNodePorts : chainOf (proxyRules digest input) .kubeNodePorts = [] := by
  have hservices : (input.servicesSorted.flatMap fun a =>
      chainOf (serviceRules digest input a) .kubeNodePorts) = [] := by
    rw [List.flatMap_eq_nil_iff]
    intro a _
    rw [chainOf_serviceRules_top (by simp) (by simp), if_neg (by simp)]
  rw [proxyRules, chainOf_append, chainOf_append, chainOf_flatMap, hservices]
  simp [skeletonRules, nodePortsRule, chainOf_cons]

end

theorem packet_marked {α : Type} (t : Traffic α) (b : Bool) : (t.marked b).packet = t.packet := by
  cases b <;> rfl

theorem marked_marked {α : Type} (t : Traffic α) (b c : Bool) :
    (t.marked b).marked c = t.marked (b || c) := by
  cases b <;> cases c <;> simp [Traffic.marked, BitVec.or_assoc]

/-! ## Chances -/

section

variable {α : Type} [DecidableEq α] {net : Net α} {digest : String → String} {input : BuildInput}
  {t : Traffic α} {a : ServicePortInfo} {ep : EndpointInfo}

theorem certain_mul (b c : Bool) : certain b * certain c = certain (b && c) := by
  cases b <;> cases c <;> simp [certain]

theorem chance_clusterIpMatch :
    ((clusterIpMatch a).map fun g => g.chance net t).prod = certain (Addressed net a t.packet) := by
  simp only [clusterIpMatch, List.map_cons, List.map_nil, List.prod_cons, List.prod_nil,
    Match.chance, mul_one, one_mul, certain_mul]
  congr 1
  rw [Bool.eq_iff_iff]
  simp only [Bool.and_eq_true, decide_eq_true_eq]
  rfl

theorem chance_dispatchRule :
    (dispatchRule digest a).chance (meaning net) t = certain (Addressed net a t.packet) :=
  chance_clusterIpMatch

theorem chance_egressRule (cidr : String) (c : Chain) (target : RuleTable.Target Chain Action) :
    (⟨c, clusterIpMatch a ++ [.notSource cidr], target⟩ : Rule).chance (meaning net) t =
      certain (Addressed net a t.packet) * certain (!net.inCidr cidr t.packet.src) := by
  rw [RuleTable.Rule.chance, List.map_append, List.prod_append]
  simp only [meaning]
  rw [chance_clusterIpMatch]
  simp [Match.chance]

theorem chance_balanceRule (k : Nat) :
    (balanceRule digest a (k + 1) ep).chance (meaning net) t = 1 / ((k + 1 : ℕ) : ℚ) := by
  cases k with
  | zero => simp [balanceRule, RuleTable.Rule.chance, meaning, Match.chance]
  | succ k => simp [balanceRule, RuleTable.Rule.chance, meaning, Match.chance]

/-! ## The fate of a packet -/

theorem run_kubeMarkMasq (depth : Nat) :
    runChain (meaning net) (proxyRules digest input) (depth + 1) .kubeMarkMasq t =
      Dist.pure (.returned (t.marked true)) := by
  rw [runChain, chainOf_kubeMarkMasq, RuleTable.runRules_act (a := .orMark) rfl rfl rfl]
  rfl

theorem run_kubeNodePorts (depth : Nat) :
    runChain (meaning net) (proxyRules digest input) (depth + 1) .kubeNodePorts t =
      Dist.pure (.returned t) := by
  rw [runChain, chainOf_kubeNodePorts]
  rfl

theorem runRules_mark {r : Rule} {rs : List Rule} {b : Bool} {depth : Nat}
    (hchance : r.chance (meaning net) t = certain b) (htarget : r.target = .jump .kubeMarkMasq) :
    runRules (meaning net) (runChain (meaning net) (proxyRules digest input) (depth + 1))
        (r :: rs) t =
      runRules (meaning net) (runChain (meaning net) (proxyRules digest input) (depth + 1))
        rs (t.marked b) := by
  cases b with
  | true => exact RuleTable.runRules_jump_returned hchance htarget (run_kubeMarkMasq depth)
  | false => exact RuleTable.runRules_skip hchance

theorem run_sep (hinj : input.NoCollision digest) (hdistinct : input.Distinct net)
    (ha : a ∈ input.services) (hep : ep ∈ input.endpoints a)
    (hprotocol : t.packet.protocol = a.protocol) (depth : Nat) :
    runChain (meaning net) (proxyRules digest input) (depth + 2) (sepChain digest a ep) t =
      Dist.pure (.final { t.marked (t.packet.src = net.addr ep.ip) with
        destination := some ep }) := by
  have hhairpin : (⟨sepChain digest a ep, [.comment a.name.display, .source ep.ip],
      .jump .kubeMarkMasq⟩ : Rule).chance (meaning net) t =
        certain (t.packet.src = net.addr ep.ip) := by
    simp [RuleTable.Rule.chance, meaning, Match.chance]
  have hdnat : (⟨sepChain digest a ep, [.comment a.name.display, .protocol a.protocol],
      .act (.dnat ep)⟩ : Rule).chance (meaning net) (t.marked (t.packet.src = net.addr ep.ip)) =
        1 := by
    simp [RuleTable.Rule.chance, meaning, Match.chance, packet_marked, hprotocol, certain]
  rw [runChain, chainOf_sep hinj hdistinct.names ha (BuildInput.endpoints_nodup hdistinct ha) hep,
    sepRules, runRules_mark hhairpin rfl, RuleTable.runRules_final (a := .dnat ep) hdnat rfl rfl]
  rfl

theorem run_svc (hinj : input.NoCollision digest) (hdistinct : input.Distinct net)
    (ha : a ∈ input.services) (haddressed : Addressed net a t.packet) (depth : Nat) :
    runChain (meaning net) (proxyRules digest input) (depth + 3) (svcChain digest a) t =
      if input.endpoints a = [] then
        Dist.pure (.returned (t.marked (outside net input t.packet)))
      else Dist.uniform ((input.endpoints a).map fun ep => .final (delivered net input t ep)) := by
  have hegress : ∀ rs, runRules (meaning net)
      (runChain (meaning net) (proxyRules digest input) (depth + 2))
        (egressRules digest a input.clusterCidr ++ rs) t =
      runRules (meaning net) (runChain (meaning net) (proxyRules digest input) (depth + 2)) rs
        (t.marked (outside net input t.packet)) := by
    intro rs
    unfold egressRules outside
    cases input.clusterCidr with
    | none => rfl
    | some cidr =>
      rw [Option.toList_some, List.map_cons, List.map_nil, List.cons_append, List.nil_append]
      apply runRules_mark _ rfl
      rw [chance_egressRule, certain_mul]
      simp [haddressed]
  rw [runChain, chainOf_svc hinj hdistinct.names ha, hegress]
  split
  · rename_i hnil
    rw [hnil]
    rfl
  · rename_i hne
    apply RuleTable.runRules_balance (fun k ep => chance_balanceRule k) (fun k ep => rfl) _ hne
    intro ep hep
    have hpacket := packet_marked t (outside net input t.packet)
    rw [run_sep hinj hdistinct ha hep (by rw [hpacket]; exact haddressed.1), hpacket,
      marked_marked]
    rfl

theorem runRules_unaddressed {l : List ServicePortInfo}
    (h : ∀ b ∈ l, ¬Addressed net b t.packet) (depth : Nat) :
    runRules (meaning net) (runChain (meaning net) (proxyRules digest input) (depth + 1))
      (l.map (dispatchRule digest) ++ [nodePortsRule]) t = Dist.pure (.returned t) := by
  rw [RuleTable.runRules_append_skip]
  · have hlocal : nodePortsRule.chance (meaning net) t = certain (net.isLocal t.packet.dst) := by
      simp [nodePortsRule, RuleTable.Rule.chance, meaning, Match.chance]
    cases hl : net.isLocal t.packet.dst with
    | true =>
      rw [hl] at hlocal
      rw [RuleTable.runRules_jump_returned hlocal rfl (run_kubeNodePorts depth)]
      rfl
    | false =>
      rw [hl] at hlocal
      rw [RuleTable.runRules_skip hlocal]
      rfl
  · intro r hr
    obtain ⟨b, hb, rfl⟩ := List.mem_map.1 hr
    rw [chance_dispatchRule, decide_eq_false (h b hb)]
    rfl

theorem serve_other (h : ∀ a ∈ input.services, ¬Addressed net a t.packet) (depth : Nat) :
    serve net digest input (depth + 4) t = Dist.pure (.returned t) := by
  rw [serve, runChain, chainOf_kubeServices]
  apply runRules_unaddressed
  intro b hb
  exact h b (BuildInput.mem_servicesSorted.1 hb)

theorem serve_addressed (hinj : input.NoCollision digest) (hdistinct : input.Distinct net)
    (ha : a ∈ input.services) (haddressed : Addressed net a t.packet) (depth : Nat) :
    serve net digest input (depth + 4) t =
      if input.endpoints a = [] then
        Dist.pure (.returned (t.marked (outside net input t.packet)))
      else Dist.uniform ((input.endpoints a).map fun ep => .final (delivered net input t ep)) := by
  have hnodup := BuildInput.servicesSorted_nodup hdistinct.names
  have hother : ∀ b ∈ input.services, b ≠ a → ¬Addressed net b t.packet := by
    intro b hb hne hb'
    exact hne (hdistinct.addresses b hb a ha (hb'.2.1.symm.trans haddressed.2.1)
      (hb'.2.2.symm.trans haddressed.2.2) (hb'.1.symm.trans haddressed.1))
  obtain ⟨l₁, l₂, hsplit⟩ := List.append_of_mem (BuildInput.mem_servicesSorted.2 ha)
  have hrest : ∀ b ∈ l₁ ++ l₂, ¬Addressed net b t.packet := by
    intro b hb
    have hmem : b ∈ input.servicesSorted := by
      rw [hsplit]
      rcases List.mem_append.1 hb with h | h <;> simp [h]
    apply hother b (BuildInput.mem_servicesSorted.1 hmem)
    rintro rfl
    rw [hsplit] at hnodup
    exact (List.nodup_cons.1 (List.nodup_middle.1 hnodup)).1 hb
  have hself : (dispatchRule digest a).chance (meaning net) t = 1 := by
    rw [chance_dispatchRule, decide_eq_true haddressed]
    rfl
  rw [serve, runChain, chainOf_kubeServices, hsplit, List.map_append, List.map_cons,
    List.append_assoc, List.cons_append, RuleTable.runRules_append_skip,
    RuleTable.runRules_jump hself rfl, run_svc hinj hdistinct ha haddressed]
  · split
    · rw [Dist.pure_bind]
      apply runRules_unaddressed
      intro b hb
      rw [packet_marked]
      exact hrest b (List.mem_append_right l₁ hb)
    · exact RuleTable.uniform_final_andThen _ _ _
  · intro r hr
    obtain ⟨b, hb, rfl⟩ := List.mem_map.1 hr
    rw [chance_dispatchRule, decide_eq_false (hrest b (List.mem_append_left l₂ hb))]
    rfl

theorem delivered_injective (t : Traffic α) :
    Function.Injective fun ep => Fate.final (delivered net input t ep) := by
  intro e f h
  have hdestination := congrArg Traffic.destination (Fate.final.inj h)
  exact Option.some.inj hdestination

/-- The table as it is written, and what it does.  Every chain is declared once, before all rules,
and every rule stands in a declared chain and jumps to declared chains; `COMMIT` is last.  A packet
for a service with endpoints goes to each of them with the same chance, marked when it comes from
outside the cluster or from that endpoint; without endpoints it only gets the first mark.  A packet
for no service is left alone. -/
theorem services_implemented (hdistinct : input.Distinct net) (hinj : input.NoCollision digest) :
    (∃ chains rules, buildProxyRules digest input =
        (.header :: chains.map .declare ++ rules.map .append ++ [.commit] : List Line).map
          (fun l => ⟨.nat, l.text⟩) ∧
      rules = proxyRules digest input ∧ (chains.map Chain.name).Nodup ∧
      ∀ r ∈ rules, UsesDeclared chains r) ∧
    ∀ (t : Traffic α) (depth : Nat),
      (∀ a ∈ input.services, Addressed net a t.packet → input.endpoints a ≠ [] →
        (∀ ep ∈ input.endpoints a,
          (serve net digest input (depth + 4) t).prob
            (fun fate => fate = .final (delivered net input t ep)) =
              1 / (input.endpoints a).length) ∧
        ∀ e ∈ serve net digest input (depth + 4) t,
          ∃ ep ∈ input.endpoints a, e.2 = .final (delivered net input t ep)) ∧
      (∀ a ∈ input.services, Addressed net a t.packet → input.endpoints a = [] →
        serve net digest input (depth + 4) t =
          Dist.pure (.returned (t.marked (outside net input t.packet)))) ∧
      ((∀ a ∈ input.services, ¬Addressed net a t.packet) →
        serve net digest input (depth + 4) t = Dist.pure (.returned t)) := by
  refine ⟨⟨topLevelChains ++ serviceChains digest input, proxyRules digest input, rfl, rfl, ?_,
    proxyRules_declared⟩, fun t depth => ⟨fun a ha haddressed hne => ?_,
      fun a ha haddressed hnil => ?_, fun hnone => serve_other hnone depth⟩⟩
  · exact declared_nodup hinj hdistinct.names fun a ha => BuildInput.endpoints_nodup hdistinct ha
  · have hserve := serve_addressed hinj hdistinct ha haddressed depth
    rw [if_neg hne] at hserve
    rw [hserve]
    constructor
    · intro ep hep
      have hnodup : ((input.endpoints a).map fun ep =>
          Fate.final (delivered net input t ep)).Nodup :=
        (BuildInput.endpoints_nodup hdistinct ha).map (delivered_injective t)
      rw [Dist.prob_uniform hnodup (List.mem_map_of_mem hep), List.length_map]
    · intro e he
      obtain ⟨ep, hep, heq⟩ := List.mem_map.1 (Dist.mem_uniform he)
      exact ⟨ep, hep, heq.symm⟩
  · rw [serve_addressed hinj hdistinct ha haddressed, if_pos hnil]

end

/-! ## One service with two endpoints -/

def svc1 : ServicePortInfo := ⟨⟨⟨"ns1", "svc1"⟩, "p80", .tcp⟩, "10.20.30.41", 80, .tcp⟩

def twoEndpoints : BuildInput where
  services := [svc1]
  endpointsByService := [(svc1.name, [⟨"10.180.0.1", 80⟩, ⟨"10.180.0.2", 80⟩])]
  clusterCidr := some "10.0.0.0/24"

/-- The digests of the names in the example, as the hash gives them. -/
def knownDigest (s : String) : String :=
  if s = "ns1/svc1:p80tcp" then "XPGD46QRK7WJZT7O"
  else if s = "ns1/svc1:p80tcp10.180.0.1:80" then "SXIVWICOYRO3J4NJ"
  else if s = "ns1/svc1:p80tcp10.180.0.2:80" then "LXVODXWDISEETFEF"
  else s

/-- Addresses are their texts, and the one range is that of the example. -/
def textNet : Net String where
  addr := id
  inCidr := fun _ ip => ip.toList.take 7 = "10.0.0.".toList
  isLocal := fun _ => false

def fromOutside : Traffic String := ⟨⟨"192.168.1.9", "10.20.30.41", 80, .tcp⟩, 0, none, false⟩

example : (proxyLines knownDigest twoEndpoints).map Line.text = ["*nat",
    ":KUBE-SERVICES - [0:0]", ":KUBE-NODEPORTS - [0:0]", ":KUBE-POSTROUTING - [0:0]",
    ":KUBE-MARK-MASQ - [0:0]", ":KUBE-SVC-XPGD46QRK7WJZT7O - [0:0]",
    ":KUBE-SEP-SXIVWICOYRO3J4NJ - [0:0]", ":KUBE-SEP-LXVODXWDISEETFEF - [0:0]",
    "-A KUBE-POSTROUTING -m mark ! --mark 0x4000/0x4000 -j RETURN",
    "-A KUBE-POSTROUTING -j MARK --xor-mark 0x4000",
    "-A KUBE-POSTROUTING -m comment --comment \"kubernetes service traffic requiring SNAT\" " ++
      "-j MASQUERADE",
    "-A KUBE-MARK-MASQ -j MARK --or-mark 0x4000",
    "-A KUBE-SERVICES -m comment --comment \"ns1/svc1:p80 cluster IP\" -m tcp -p tcp " ++
      "-d 10.20.30.41 --dport 80 -j KUBE-SVC-XPGD46QRK7WJZT7O",
    "-A KUBE-SVC-XPGD46QRK7WJZT7O -m comment --comment \"ns1/svc1:p80 cluster IP\" " ++
      "-m tcp -p tcp -d 10.20.30.41 --dport 80 ! -s 10.0.0.0/24 -j KUBE-MARK-MASQ",
    "-A KUBE-SVC-XPGD46QRK7WJZT7O -m comment --comment ns1/svc1:p80 " ++
      "-m statistic --mode random --probability 0.5000000000 -j KUBE-SEP-SXIVWICOYRO3J4NJ",
    "-A KUBE-SEP-SXIVWICOYRO3J4NJ -m comment --comment ns1/svc1:p80 -s 10.180.0.1 " ++
      "-j KUBE-MARK-MASQ",
    "-A KUBE-SEP-SXIVWICOYRO3J4NJ -m comment --comment ns1/svc1:p80 -m tcp -p tcp " ++
      "-j DNAT --to-destination 10.180.0.1:80",
    "-A KUBE-SVC-XPGD46QRK7WJZT7O -m comment --comment ns1/svc1:p80 " ++
      "-j KUBE-SEP-LXVODXWDISEETFEF",
    "-A KUBE-SEP-LXVODXWDISEETFEF -m comment --comment ns1/svc1:p80 -s 10.180.0.2 " ++
      "-j KUBE-MARK-MASQ",
    "-A KUBE-SEP-LXVODXWDISEETFEF -m comment --comment ns1/svc1:p80 -m tcp -p tcp " ++
      "-j DNAT --to-destination 10.180.0.2:80",
    "-A KUBE-SERVICES -m comment --comment \"kubernetes service nodeports; " ++
      "NOTE: this must be the last rule in this chain\" " ++
      "-m addrtype --dst-type LOCAL -j KUBE-NODEPORTS",
    "COMMIT"] := by decide +kernel

example : probabilityText 3 = "0.3333333333" := by decide

theorem services_implemented_demo :
    (serve textNet knownDigest twoEndpoints 4 fromOutside).prob
      (fun fate => fate = .final ⟨fromOutside.packet, masqueradeMark, some ⟨"10.180.0.1", 80⟩, false⟩)
        = 1 / 2 := by
  have hdistinct : twoEndpoints.Distinct textNet := by
    refine ⟨by decide, ?_, ?_⟩
    · simp [twoEndpoints]
    · simp [twoEndpoints, BTreeMap.get]
  have hinj : twoEndpoints.NoCollision knownDigest := by
    refine ⟨?_, ?_⟩
    · simp [twoEndpoints]
    · decide
  have hep : (⟨"10.180.0.1", 80⟩ : EndpointInfo) ∈ twoEndpoints.endpoints svc1 := by decide
  have hne : twoEndpoints.endpoints svc1 ≠ [] := List.ne_nil_of_mem hep
  have hprob := (((services_implemented hdistinct hinj).2 fromOutside 0).1 svc1
    List.mem_cons_self (by decide) hne).1 ⟨"10.180.0.1", 80⟩ hep
  have hlength : (twoEndpoints.endpoints svc1).length = 2 := by decide
  rw [hlength] at hprob
  exact hprob

end CaveHome.KubeProxy
