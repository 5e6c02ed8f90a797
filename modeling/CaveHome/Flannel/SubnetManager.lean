import CaveHome.Flannel.SubnetIter

/-!
# Subnets of nodes

The network of a cluster is carved into one subnet for each node, and a table keeps which node
holds which.
-/

namespace CaveHome.Flannel

/-- The subnet that a node holds. -/
structure SubnetLease where
  node : String
  subnet : Cidr
deriving DecidableEq

inductive SubnetError
  | prefixNotLonger (cluster node : Nat)
  | exhausted
  | alreadyLeased (node : String) (subnet : Cidr)
  | notInCluster (subnet : Cidr)
  | subnetTaken (subnet : Cidr) (holder : String)
  | cidr (e : CidrError)
  | noSuchLease (node : String)
deriving DecidableEq

/-- The table of leases, by the first address of the subnet. -/
structure SubnetManager where
  cluster : Cidr
  nodePrefix : Nat
  leases : BTreeMap IpAddr SubnetLease
  longer : cluster.prefixLen < nodePrefix
  fits : nodePrefix ≤ cluster.maxPrefix

namespace SubnetManager

def new (cluster : Cidr) (nodePrefix : Nat) : Except SubnetError SubnetManager :=
  if h : nodePrefix ≤ cluster.prefixLen then
    .error (.prefixNotLonger cluster.prefixLen nodePrefix)
  else if h' : cluster.maxPrefix < nodePrefix then
    .error (.cidr (.prefixTooLong nodePrefix cluster.maxPrefix))
  else .ok ⟨cluster, nodePrefix, [], Nat.lt_of_not_le h, Nat.le_of_not_lt h'⟩

/-- The leases in the order of their subnets. -/
def leaseValues (m : SubnetManager) : List SubnetLease := m.leases.map Prod.snd

def leaseFor (m : SubnetManager) (node : String) : Option SubnetLease :=
  m.leaseValues.find? fun l => l.node = node

/-- Lease the lowest free subnet, unless the node holds one; `none` where the source panics. -/
def allocate (overflowChecks : Bool) (m : SubnetManager) (node : String) :
    Option (Except SubnetError SubnetLease × SubnetManager) :=
  match m.leaseFor node with
  | some existing => some (.ok existing, m)
  | none =>
    match m.cluster.subnets overflowChecks m.nodePrefix with
    | none => none
    | some (.error e) => some (.error (.cidr e), m)
    | some (.ok subnets) =>
      match subnets.find overflowChecks fun s => (m.leases.get s.network).isNone with
      | none => none
      | some none => some (.error .exhausted, m)
      | some (some free) =>
        some (.ok ⟨node, free⟩, { m with leases := m.leases.insert free.network ⟨node, free⟩ })

/-- Lease a given subnet. -/
def reserve (m : SubnetManager) (node : String) (subnet : Cidr) :
    Except SubnetError SubnetLease × SubnetManager :=
  if subnet.prefixLen ≠ m.nodePrefix || !m.cluster.contains subnet.network then
    (.error (.notInCluster subnet), m)
  else
    match m.leases.get subnet.network with
    | some holder =>
      if holder.node = node then (.ok holder, m)
      else (.error (.subnetTaken subnet holder.node), m)
    | none =>
      match m.leaseFor node with
      | some existing => (.error (.alreadyLeased node existing.subnet), m)
      | none =>
        (.ok ⟨node, subnet⟩,
          { m with leases := m.leases.insert subnet.network ⟨node, subnet⟩ })

/-- Take the lease of a node out of the table. -/
def release (m : SubnetManager) (node : String) : Except SubnetError SubnetLease × SubnetManager :=
  match m.leases.find? fun e => e.2.node = node with
  | none => (.error (.noSuchLease node), m)
  | some (key, _) =>
    match m.leases.get key with
    | none => (.error (.noSuchLease node), m)
    | some lease => (.ok lease, { m with leases := m.leases.remove key })

/-! ## Calls -/

inductive Op
  | allocate (node : String)
  | reserve (node : String) (subnet : Cidr)
  | release (node : String)

/-- What a call answers and leaves behind; `none` where the source panics. -/
def apply (overflowChecks : Bool) (m : SubnetManager) :
    Op → Option (Except SubnetError SubnetLease × SubnetManager)
  | .allocate node => m.allocate overflowChecks node
  | .reserve node subnet => some (m.reserve node subnet)
  | .release node => some (m.release node)

def run (overflowChecks : Bool) (m : SubnetManager) : List Op → Option SubnetManager
  | [] => some m
  | op :: ops =>
    match m.apply overflowChecks op with
    | none => none
    | some (_, m') => m'.run overflowChecks ops

/-- The leased subnets lie in the cluster, are of the length for nodes, have no address in common
and are held by different nodes. -/
structure Sound (m : SubnetManager) : Prop where
  inside : ∀ l ∈ m.leaseValues, l.subnet.prefixLen = m.nodePrefix ∧
    ∀ ip, l.subnet.contains ip = true → m.cluster.contains ip = true
  apart : m.leaseValues.Pairwise fun l l' => l.node ≠ l'.node ∧
    ∀ ip, ¬(l.subnet.contains ip = true ∧ l'.subnet.contains ip = true)

/-- Every subnet of the cluster is leased. -/
def AllLeased (m : SubnetManager) : Prop :=
  ∀ s : Cidr, s.prefixLen = m.nodePrefix →
    (∀ ip, s.contains ip = true → m.cluster.contains ip = true) →
    ∃ l ∈ m.leaseValues, l.subnet = s

/-- A call is answered; one that fails leaves the table, and `allocate` fails only when every
subnet is leased. -/
def Answers (overflowChecks : Bool) (m : SubnetManager) (op : Op) : Prop :=
  ∃ res m', m.apply overflowChecks op = some (res, m') ∧
    ∀ e, res = .error e → m' = m ∧ ∀ node, op = .allocate node → m.AllLeased

/-! ## The table -/

/-- What holds of the table after every call. -/
structure Inv (m : SubnetManager) : Prop where
  sorted : BTreeMap.Sorted m.leases
  entry : ∀ e ∈ m.leases, e.1 = e.2.subnet.addr ∧ e.2.subnet.prefixLen = m.nodePrefix ∧
    m.cluster.contains e.2.subnet.addr = true
  node : ∀ e ∈ m.leases, ∀ e' ∈ m.leases, e.2.node = e'.2.node → e.1 = e'.1

section

variable {m : SubnetManager}

theorem leaseFor_eq_none_iff {node : String} :
    m.leaseFor node = none ↔ ∀ e ∈ m.leases, e.2.node ≠ node := by
  unfold leaseFor leaseValues
  rw [List.find?_eq_none]
  simp only [List.mem_map, forall_exists_index, and_imp, forall_apply_eq_imp_iff₂,
    decide_eq_true_eq, ne_eq]

theorem Inv.sound (h : m.Inv) : m.Sound where
  inside := by
    intro l hl
    obtain ⟨e, he, rfl⟩ := List.mem_map.mp hl
    obtain ⟨-, hlen, hin⟩ := h.entry e he
    have hle : m.cluster.prefixLen ≤ e.2.subnet.prefixLen := hlen ▸ Nat.le_of_lt m.longer
    exact ⟨hlen, fun ip hip => Cidr.contains_of_contains_network hle hin hip⟩
  apart := by
    refine List.pairwise_map.mpr (List.Pairwise.imp_of_mem ?_ h.sorted)
    intro e e' he he' hlt
    refine ⟨fun hnode => (ne_of_lt hlt) (h.node e he e' he' hnode), fun ip hip => ?_⟩
    obtain ⟨hkey, hlen, -⟩ := h.entry e he
    obtain ⟨hkey', hlen', -⟩ := h.entry e' he'
    have heq := Cidr.eq_of_contains (hlen.trans hlen'.symm) hip.1 hip.2
    exact (ne_of_lt hlt) (hkey.trans ((congrArg Cidr.addr heq).trans hkey'.symm))

theorem Inv.insert (h : m.Inv) {node : String} {subnet : Cidr} (hnode : m.leaseFor node = none)
    (hlen : subnet.prefixLen = m.nodePrefix) (hin : m.cluster.contains subnet.addr = true) :
    Inv { m with leases := m.leases.insert subnet.network ⟨node, subnet⟩ } where
  sorted := h.sorted.insert _ _
  entry := by
    intro e he
    rcases BTreeMap.mem_of_mem_insert he with rfl | he
    · exact ⟨rfl, hlen, hin⟩
    · exact h.entry e he
  node := by
    have hfree := leaseFor_eq_none_iff.mp hnode
    intro e he e' he' heq
    rcases BTreeMap.mem_of_mem_insert he with rfl | he
    · rcases BTreeMap.mem_of_mem_insert he' with rfl | he'
      · rfl
      · exact absurd heq.symm (hfree e' he')
    · rcases BTreeMap.mem_of_mem_insert he' with rfl | he'
      · exact absurd heq (hfree e he)
      · exact h.node e he e' he' heq

theorem Inv.remove (h : m.Inv) (key : IpAddr) :
    Inv { m with leases := m.leases.remove key } where
  sorted := h.sorted.remove key
  entry := fun e he => h.entry e (List.mem_filter.mp he).1
  node := fun e he e' he' =>
    h.node e (List.mem_filter.mp he).1 e' (List.mem_filter.mp he').1

theorem reserve_cases (node : String) (subnet : Cidr) (h : m.Inv) :
    ∃ res m', m.reserve node subnet = (res, m') ∧ (∀ e, res = .error e → m' = m) ∧ m'.Inv ∧
      m'.cluster = m.cluster ∧ m'.nodePrefix = m.nodePrefix := by
  unfold reserve
  split_ifs with hbad
  · exact ⟨_, _, rfl, fun _ _ => rfl, h, rfl, rfl⟩
  · simp only [Bool.or_eq_true, decide_eq_true_eq, Bool.not_eq_true', not_or, not_not,
      Bool.not_eq_false] at hbad
    split
    next holder _ =>
      split_ifs
      · exact ⟨_, _, rfl, fun _ _ => rfl, h, rfl, rfl⟩
      · exact ⟨_, _, rfl, fun _ _ => rfl, h, rfl, rfl⟩
    next =>
      split
      next => exact ⟨_, _, rfl, fun _ _ => rfl, h, rfl, rfl⟩
      next hnode =>
        exact ⟨_, _, rfl, fun _ he => (nomatch he), h.insert hnode hbad.1 hbad.2, rfl, rfl⟩

theorem release_cases (node : String) (h : m.Inv) :
    ∃ res m', m.release node = (res, m') ∧ (∀ e, res = .error e → m' = m) ∧ m'.Inv ∧
      m'.cluster = m.cluster ∧ m'.nodePrefix = m.nodePrefix := by
  unfold release
  split
  next => exact ⟨_, _, rfl, fun _ _ => rfl, h, rfl, rfl⟩
  next key _ _ =>
    split
    next => exact ⟨_, _, rfl, fun _ _ => rfl, h, rfl, rfl⟩
    next => exact ⟨_, _, rfl, fun _ he => (nomatch he), h.remove key, rfl, rfl⟩

theorem allocate_cases (overflowChecks : Bool) (node : String) (h : m.Inv)
    (hcount : m.nodePrefix - m.cluster.prefixLen < 128) :
    ∃ res m', m.allocate overflowChecks node = some (res, m') ∧
      (∀ e, res = .error e → m' = m ∧ m.AllLeased) ∧ m'.Inv ∧
      m'.cluster = m.cluster ∧ m'.nodePrefix = m.nodePrefix := by
  obtain ⟨it, hit, hbase, hnew, hindex, hitcount⟩ :=
    Cidr.subnets_of_lt overflowChecks (Nat.le_of_lt m.longer) m.fits hcount
  have hstep : it.stepBits < 128 := by
    have hmax := m.cluster.addr.maxPrefix_le
    have hlonger := m.longer
    rw [it.stepBits_eq, hnew, hbase]
    omega
  have hitem := it.isItem_iff hbase hnew (Nat.le_of_lt m.longer)
  cases hnode : m.leaseFor node with
  | some existing =>
    have happly : m.allocate overflowChecks node = some (.ok existing, m) := by
      simp only [allocate, hnode]
    exact ⟨_, _, happly, fun _ he => (nomatch he), h, rfl, rfl⟩
  | none =>
    have hspec := SubnetIter.findLoop_spec overflowChecks
      (fun s => (m.leases.get s.network).isNone) hstep
      (show it.index + (it.count - it.index) = it.count by omega)
    rcases hspec with ⟨hnone, hall⟩ | ⟨i, free, hsome, -, hi, hfree, -⟩
    · have happly : m.allocate overflowChecks node = some (.error .exhausted, m) := by
        simp only [allocate, hnode, hit, SubnetIter.find, hnone]
      refine ⟨_, _, happly, fun _ _ => ⟨rfl, fun s hlen hs => ?_⟩, h, rfl, rfl⟩
      obtain ⟨i, hi, his⟩ := (hitem s).mpr ⟨hlen, hs s.addr s.contains_network⟩
      have htaken := hall i s (by omega) (by omega) his
      rw [Option.isNone_eq_false_iff, Option.isSome_iff_exists] at htaken
      obtain ⟨l, hl⟩ := htaken
      have hmem := h.sorted.mem_iff.mpr hl
      obtain ⟨hkey, hlen', -⟩ := h.entry _ hmem
      exact ⟨l, List.mem_map_of_mem hmem, Cidr.ext_addr hkey.symm (hlen'.trans hlen.symm)⟩
    · have happly : m.allocate overflowChecks node = some (.ok ⟨node, free⟩,
          { m with leases := m.leases.insert free.network ⟨node, free⟩ }) := by
        simp only [allocate, hnode, hit, SubnetIter.find, hsome]
      obtain ⟨hlen, hin⟩ := (hitem free).mp ⟨i, hitcount ▸ hi, hfree⟩
      exact ⟨_, _, happly, fun _ he => (nomatch he), h.insert hnode hlen hin, rfl, rfl⟩

theorem Inv.apply (overflowChecks : Bool) (h : m.Inv)
    (hcount : m.nodePrefix - m.cluster.prefixLen < 128) (op : Op) :
    m.Answers overflowChecks op ∧ ∀ res m', m.apply overflowChecks op = some (res, m') →
      m'.Inv ∧ m'.cluster = m.cluster ∧ m'.nodePrefix = m.nodePrefix := by
  have hfine {res m'} (happly : m.apply overflowChecks op = some (res, m'))
      (herror : ∀ e, res = .error e → m' = m ∧ ∀ node, op = .allocate node → m.AllLeased)
      (hm' : m'.Inv ∧ m'.cluster = m.cluster ∧ m'.nodePrefix = m.nodePrefix) :
      m.Answers overflowChecks op ∧ ∀ res m', m.apply overflowChecks op = some (res, m') →
        m'.Inv ∧ m'.cluster = m.cluster ∧ m'.nodePrefix = m.nodePrefix := by
    refine ⟨⟨res, m', happly, herror⟩, fun res'' m'' happly'' => ?_⟩
    rw [happly] at happly''
    cases happly''
    exact hm'
  cases op with
  | allocate node =>
    obtain ⟨res, m', happly, herror, hm'⟩ := allocate_cases overflowChecks node h hcount
    exact hfine happly (fun e he => ⟨(herror e he).1, fun _ _ => (herror e he).2⟩) hm'
  | reserve node subnet =>
    obtain ⟨res, m', happly, herror, hm'⟩ := reserve_cases node subnet h
    exact hfine (congrArg some happly) (fun e he => ⟨herror e he, fun _ hop => nomatch hop⟩) hm'
  | release node =>
    obtain ⟨res, m', happly, herror, hm'⟩ := release_cases node h
    exact hfine (congrArg some happly) (fun e he => ⟨herror e he, fun _ hop => nomatch hop⟩) hm'

theorem Inv.run (overflowChecks : Bool) (h : m.Inv)
    (hcount : m.nodePrefix - m.cluster.prefixLen < 128) (ops : List Op) :
    ∃ m', m.run overflowChecks ops = some m' ∧ m'.Inv ∧
      m'.nodePrefix - m'.cluster.prefixLen < 128 := by
  induction ops generalizing m with
  | nil => exact ⟨m, rfl, h, hcount⟩
  | cons op ops ih =>
    obtain ⟨⟨res, m', happly, -⟩, hnext⟩ := h.apply overflowChecks hcount op
    obtain ⟨hm', hcluster, hbits⟩ := hnext res m' happly
    obtain ⟨m'', hrun, hm''⟩ := ih hm' (by rw [hcluster, hbits]; exact hcount)
    exact ⟨m'', by simp only [SubnetManager.run, happly, hrun], hm''⟩

theorem inv_new {cluster : Cidr} {nodePrefix : Nat} (h : new cluster nodePrefix = .ok m) :
    m.Inv ∧ m.cluster = cluster ∧ m.nodePrefix = nodePrefix ∧ m.leases = [] := by
  unfold new at h
  split_ifs at h
  cases h
  exact ⟨⟨BTreeMap.sorted_nil, fun _ he => absurd he List.not_mem_nil,
    fun _ he => absurd he List.not_mem_nil⟩, rfl, rfl, rfl⟩

end

end SubnetManager

end CaveHome.Flannel
