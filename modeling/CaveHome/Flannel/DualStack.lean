import CaveHome.Flannel.Allocation
import CaveHome.Flannel.SubnetManager

/-!
# Two families of addresses

Every node leases a subnet of each family and every pod gets an address of each.  The two tables are
changed one after the other, and what was taken from the first is given back when the second fails.
-/

namespace CaveHome.Flannel

/-- A failed call leaves the state that it was made in. -/
def Unchanged {ε α σ : Type} (r : Except ε α × σ) (s : σ) : Prop := ∀ e, r.1 = .error e → r.2 = s

structure DualStackLease where
  node : String
  v4 : Cidr
  v6 : Cidr
deriving DecidableEq

structure DualStackAddr where
  v4 : IpAddr
  v6 : IpAddr
deriving DecidableEq

inductive DualStackError
  | familyMismatch
  | v4Subnet (e : SubnetError)
  | v6Subnet (e : SubnetError)
  | v4Ipam (e : IpamError)
  | v6Ipam (e : IpamError)
deriving DecidableEq

namespace Cidr

def isIpv4 (c : Cidr) : Bool := c.maxPrefix = 32

def isIpv6 (c : Cidr) : Bool := c.maxPrefix = 128

end Cidr

/-- The subnets of the nodes, in both families. -/
structure DualStackSubnetManager where
  v4 : SubnetManager
  v6 : SubnetManager

namespace DualStackSubnetManager

def new (v4Cluster : Cidr) (v4NodePrefix : ℕ) (v6Cluster : Cidr) (v6NodePrefix : ℕ) :
    Except DualStackError DualStackSubnetManager :=
  if !v4Cluster.isIpv4 || !v6Cluster.isIpv6 then .error .familyMismatch
  else
    match SubnetManager.new v4Cluster v4NodePrefix with
    | .error e => .error (.v4Subnet e)
    | .ok v4 =>
      match SubnetManager.new v6Cluster v6NodePrefix with
      | .error e => .error (.v6Subnet e)
      | .ok v6 => .ok ⟨v4, v6⟩

/-- Lease a subnet of each family to a node; `none` where the source panics. -/
def allocate (overflowChecks : Bool) (m : DualStackSubnetManager) (node : String) :
    Option (Except DualStackError DualStackLease × DualStackSubnetManager) :=
  let v4Preexisting := (m.v4.leaseFor node).isSome
  match m.v4.allocate overflowChecks node with
  | none => none
  | some (.error e, v4) => some (.error (.v4Subnet e), { m with v4 := v4 })
  | some (.ok l4, v4) =>
    match m.v6.allocate overflowChecks node with
    | none => none
    | some (.error e, v6) =>
      -- an older lease of the first family stays
      some (.error (.v6Subnet e), ⟨if v4Preexisting then v4 else (v4.release node).2, v6⟩)
    | some (.ok l6, v6) => some (.ok ⟨node, l4.subnet, l6.subnet⟩, ⟨v4, v6⟩)

def release (m : DualStackSubnetManager) (node : String) :
    Except DualStackError DualStackLease × DualStackSubnetManager :=
  match m.v4.release node with
  | (.error e, v4) => (.error (.v4Subnet e), { m with v4 := v4 })
  | (.ok l4, v4) =>
    match m.v6.release node with
    | (.error e, v6) => (.error (.v6Subnet e), ⟨v4, v6⟩)
    | (.ok l6, v6) => (.ok ⟨node, l4.subnet, l6.subnet⟩, ⟨v4, v6⟩)

def leaseFor (m : DualStackSubnetManager) (node : String) : Option DualStackLease := do
  let l4 ← m.v4.leaseFor node
  let l6 ← m.v6.leaseFor node
  some ⟨node, l4.subnet, l6.subnet⟩

/-- What calls make of a new manager. -/
inductive Reachable (overflowChecks : Bool) : DualStackSubnetManager → Prop
  | new {v4Cluster v6Cluster : Cidr} {v4NodePrefix v6NodePrefix : ℕ} {m : DualStackSubnetManager} :
    DualStackSubnetManager.new v4Cluster v4NodePrefix v6Cluster v6NodePrefix = .ok m →
      Reachable overflowChecks m
  | allocate {m m' : DualStackSubnetManager} {node : String}
    {res : Except DualStackError DualStackLease} : Reachable overflowChecks m →
    m.allocate overflowChecks node = some (res, m') → Reachable overflowChecks m'
  | release {m : DualStackSubnetManager} (node : String) : Reachable overflowChecks m →
    Reachable overflowChecks (m.release node).2

end DualStackSubnetManager

/-- The addresses of the pods of a node, in both families. -/
structure DualStackIpam where
  v4 : PodIpam
  v6 : PodIpam

namespace PodIpam

def isAssigned (p : PodIpam) (ip : IpAddr) : Bool := (p.indexOf ip).any fun idx => idx ∈ p.assigned

end PodIpam

namespace DualStackIpam

def new (v4Subnet v6Subnet : Cidr) : Except DualStackError DualStackIpam :=
  if !v4Subnet.isIpv4 || !v6Subnet.isIpv6 then .error .familyMismatch
  else
    match PodIpam.new v4Subnet with
    | .error e => .error (.v4Ipam e)
    | .ok v4 =>
      match PodIpam.new v6Subnet with
      | .error e => .error (.v6Ipam e)
      | .ok v6 => .ok ⟨v4, v6⟩

def allocate (d : DualStackIpam) : Except DualStackError DualStackAddr × DualStackIpam :=
  match d.v4.allocate with
  | (.error e, v4) => (.error (.v4Ipam e), { d with v4 := v4 })
  | (.ok a4, v4) =>
    match d.v6.allocate with
    | (.error e, v6) => (.error (.v6Ipam e), ⟨(v4.free a4).2, v6⟩)
    | (.ok a6, v6) => (.ok ⟨a4, a6⟩, ⟨v4, v6⟩)

/-- Take a pair back.  The first address is not assigned again when the second one is not. -/
def free (d : DualStackIpam) (addr : DualStackAddr) : Except DualStackError Unit × DualStackIpam :=
  match d.v4.free addr.v4 with
  | (.error e, v4) => (.error (.v4Ipam e), { d with v4 := v4 })
  | (.ok (), v4) =>
    match d.v6.free addr.v6 with
    | (.error e, v6) => (.error (.v6Ipam e), ⟨v4, v6⟩)
    | (.ok (), v6) => (.ok (), ⟨v4, v6⟩)

/-- What calls make of a new allocator. -/
inductive Reachable : DualStackIpam → Prop
  | new {v4Subnet v6Subnet : Cidr} {d : DualStackIpam} :
    DualStackIpam.new v4Subnet v6Subnet = .ok d → Reachable d
  | allocate {d : DualStackIpam} : Reachable d → Reachable d.allocate.2
  | free {d : DualStackIpam} (addr : DualStackAddr) : Reachable d → Reachable (d.free addr).2

end DualStackIpam

/-! ## The leases of one family -/

namespace SubnetManager

variable {overflowChecks : Bool} {m m' : SubnetManager} {node n : String}

/-- The table is in order, and no node has two leases. -/
structure OneEach (m : SubnetManager) : Prop where
  sorted : BTreeMap.Sorted m.leases
  node : ∀ e ∈ m.leases, ∀ e' ∈ m.leases, e.2.node = e'.2.node → e = e'

/-- The node has a lease. -/
def Holds (m : SubnetManager) (node : String) : Prop := ∃ e ∈ m.leases, e.2.node = node

theorem isSome_leaseFor : (m.leaseFor node).isSome = true ↔ m.Holds node := by
  rw [Option.isSome_iff_ne_none, ne_eq, leaseFor_eq_none_iff]
  simp [Holds]

theorem findLoop_sound {p : Cidr → Bool} {fuel : ℕ} {it : SubnetIter} {c : Cidr}
    (h : SubnetIter.findLoop overflowChecks p fuel it = some (some c)) : p c = true := by
  induction fuel generalizing it with
  | zero => cases h
  | succ fuel ih =>
    unfold SubnetIter.findLoop at h
    split at h
    next => cases h
    next => cases h
    next d rest _ =>
      split at h
      next hp =>
        rw [← Option.some.inj (Option.some.inj h)]
        exact hp
      next => exact ih h

theorem allocate_table {res : Except SubnetError SubnetLease}
    (h : m.allocate overflowChecks node = some (res, m')) :
    (∃ e, res = .error e ∧ m' = m) ∨ (∃ l, res = .ok l ∧ m' = m ∧ m.Holds node) ∨
      ∃ key l, res = .ok l ∧ l.node = node ∧ ¬ m.Holds node ∧ m.leases.get key = none ∧
        m' = { m with leases := m.leases.insert key l } := by
  unfold allocate at h
  split at h
  next existing hexisting =>
    obtain ⟨rfl, rfl⟩ := Prod.mk.inj (Option.some.inj h)
    have hsome : (m.leaseFor node).isSome = true := by rw [hexisting]; rfl
    exact Or.inr (Or.inl ⟨existing, rfl, rfl, isSome_leaseFor.mp hsome⟩)
  next hnone =>
    split at h
    next => cases h
    next e _ =>
      obtain ⟨rfl, rfl⟩ := Prod.mk.inj (Option.some.inj h)
      exact Or.inl ⟨_, rfl, rfl⟩
    next it _ =>
      split at h
      next => cases h
      next =>
        obtain ⟨rfl, rfl⟩ := Prod.mk.inj (Option.some.inj h)
        exact Or.inl ⟨_, rfl, rfl⟩
      next free hfree =>
        obtain ⟨rfl, rfl⟩ := Prod.mk.inj (Option.some.inj h)
        have hget := findLoop_sound hfree
        refine Or.inr (Or.inr ⟨free.network, ⟨node, free⟩, rfl, rfl, ?_,
          Option.isNone_iff_eq_none.mp hget, rfl⟩)
        rw [← isSome_leaseFor, hnone]
        exact Bool.false_ne_true

theorem mem_insert_iff {κ ν : Type} [LinearOrder κ] {t : BTreeMap κ ν} {key : κ} {value : ν}
    (h : BTreeMap.Sorted t) (hget : BTreeMap.get key t = none) (e : κ × ν) :
    e ∈ BTreeMap.insert key value t ↔ e = (key, value) ∨ e ∈ t := by
  refine ⟨BTreeMap.mem_of_mem_insert, ?_⟩
  obtain ⟨k, v⟩ := e
  rw [(h.insert key value).mem_iff, BTreeMap.get_insert]
  rintro (heq | hmem)
  · obtain ⟨rfl, rfl⟩ := Prod.mk.inj heq
    rw [if_pos rfl]
  · have hne : k ≠ key := BTreeMap.get_eq_none_iff.mp hget (k, v) hmem
    rw [if_neg hne]
    exact h.mem_iff.mp hmem

theorem OneEach.insert (h : m.OneEach) {key : IpAddr} {l : SubnetLease} (hnode : ¬ m.Holds l.node)
    (hget : m.leases.get key = none) :
    OneEach { m with leases := m.leases.insert key l } ∧
      ∀ n, Holds { m with leases := m.leases.insert key l } n ↔ m.Holds n ∨ n = l.node := by
  have hmem (e : IpAddr × SubnetLease) : e ∈ m.leases.insert key l ↔ e = (key, l) ∨ e ∈ m.leases :=
    mem_insert_iff h.sorted hget e
  refine ⟨⟨h.sorted.insert key l, fun e he e' he' heq => ?_⟩, fun n => ?_⟩
  · obtain rfl | he := (hmem e).mp he
    · obtain rfl | he' := (hmem e').mp he'
      · rfl
      · exact absurd ⟨e', he', heq.symm⟩ hnode
    · obtain rfl | he' := (hmem e').mp he'
      · exact absurd ⟨e, he, heq⟩ hnode
      · exact h.node e he e' he' heq
  · constructor
    · rintro ⟨e, he, rfl⟩
      obtain rfl | he := (hmem e).mp he
      · exact Or.inr rfl
      · exact Or.inl ⟨e, he, rfl⟩
    · rintro (⟨e, he, rfl⟩ | rfl)
      · exact ⟨e, (hmem e).mpr (Or.inr he), rfl⟩
      · exact ⟨(key, l), (hmem _).mpr (Or.inl rfl), rfl⟩

theorem OneEach.remove (h : m.OneEach) {key : IpAddr} {l : SubnetLease}
    (hmem : (key, l) ∈ m.leases) :
    OneEach { m with leases := m.leases.remove key } ∧
      ∀ n, Holds { m with leases := m.leases.remove key } n ↔ m.Holds n ∧ n ≠ l.node := by
  have hfilter (e : IpAddr × SubnetLease) :
      e ∈ m.leases.remove key ↔ e ∈ m.leases ∧ e.1 ≠ key := by simp [BTreeMap.remove]
  refine ⟨⟨h.sorted.remove key, fun e he e' he' => ?_⟩, fun n => ?_⟩
  · exact h.node e ((hfilter e).mp he).1 e' ((hfilter e').mp he').1
  · constructor
    · rintro ⟨e, he, rfl⟩
      obtain ⟨he, hkey⟩ := (hfilter e).mp he
      exact ⟨⟨e, he, rfl⟩, fun heq => hkey (congrArg Prod.fst (h.node e he _ hmem heq))⟩
    · rintro ⟨⟨e, he, rfl⟩, hne⟩
      refine ⟨e, (hfilter e).mpr ⟨he, fun hkey => hne ?_⟩, rfl⟩
      -- an entry under the key is the one that is taken out
      have hget := h.sorted.mem_iff.mp hmem
      have hget' : m.leases.get key = some e.2 := h.sorted.mem_iff.mp (hkey ▸ he)
      rw [Option.some.inj (hget'.symm.trans hget)]

theorem OneEach.release (h : m.OneEach) (node : String) :
    (¬ m.Holds node ∧ ∃ e, m.release node = (.error e, m)) ∨
      ∃ key l, (key, l) ∈ m.leases ∧ l.node = node ∧
        m.release node = (.ok l, { m with leases := m.leases.remove key }) := by
  unfold SubnetManager.release
  split
  next hnone =>
    refine Or.inl ⟨?_, _, rfl⟩
    rintro ⟨e, he, hnode⟩
    exact absurd (decide_eq_true hnode) (by simpa using List.find?_eq_none.mp hnone e he)
  next key l hfind =>
    have hmem := List.mem_of_find?_eq_some hfind
    have hnode : l.node = node := by simpa using List.find?_some hfind
    have hget : m.leases.get key = some l := h.sorted.mem_iff.mp hmem
    rw [hget]
    exact Or.inr ⟨key, l, hmem, hnode, rfl⟩

theorem OneEach.release_insert (h : m.OneEach) {key : IpAddr} {l : SubnetLease}
    (hnode : ¬ m.Holds l.node) (hget : m.leases.get key = none) :
    (SubnetManager.release { m with leases := m.leases.insert key l } l.node).2 = m := by
  obtain ⟨hone, hholds⟩ := h.insert hnode hget
  obtain ⟨hnot, -⟩ | ⟨key', l', hmem, hnode', hrelease⟩ := hone.release l.node
  · exact absurd ((hholds l.node).mpr (Or.inr rfl)) hnot
  · rw [hrelease]
    obtain heq | hmem := (mem_insert_iff h.sorted hget (key', l')).mp hmem
    · obtain ⟨rfl, rfl⟩ := Prod.mk.inj heq
      have hleases := (BTreeMap.remove_insert key' l' m.leases).trans (BTreeMap.remove_eq_self hget)
      change { m with leases := BTreeMap.remove key' (BTreeMap.insert key' l' m.leases) } = m
      rw [hleases]
    · exact absurd ⟨_, hmem, hnode'⟩ hnode

theorem oneEach_new {cluster : Cidr} {nodePrefix : ℕ}
    (h : SubnetManager.new cluster nodePrefix = .ok m) : m.OneEach ∧ m.leases = [] := by
  obtain ⟨hinv, -, -, hleases⟩ := inv_new h
  refine ⟨⟨hinv.sorted, fun e he => ?_⟩, hleases⟩
  rw [hleases] at he
  cases he

end SubnetManager

/-! ## The leases of both families -/

namespace DualStackSubnetManager

variable {overflowChecks : Bool} {m m' : DualStackSubnetManager} {node : String}

/-- The nodes of the two tables are the same. -/
structure Paired (m : DualStackSubnetManager) : Prop where
  v4 : m.v4.OneEach
  v6 : m.v6.OneEach
  same : ∀ node, m.v4.Holds node ↔ m.v6.Holds node

theorem Paired.allocate (h : m.Paired) {res : Except DualStackError DualStackLease}
    (hstep : m.allocate overflowChecks node = some (res, m')) :
    m'.Paired ∧ ∀ e, res = .error e → m' = m := by
  unfold DualStackSubnetManager.allocate at hstep
  dsimp only at hstep
  split at hstep
  next => cases hstep
  next e v4 hv4 =>
    obtain ⟨rfl, rfl⟩ := Prod.mk.inj (Option.some.inj hstep)
    obtain ⟨-, -, rfl⟩ | ⟨l, hl, -⟩ | ⟨key, l, hl, -⟩ := SubnetManager.allocate_table hv4
    · exact ⟨h, fun _ _ => rfl⟩
    · cases hl
    · cases hl
  next l4 v4 hv4 =>
    split at hstep
    next => cases hstep
    next e v6 hv6 =>
      obtain ⟨rfl, rfl⟩ := Prod.mk.inj (Option.some.inj hstep)
      have hv6' : v6 = m.v6 := by
        obtain ⟨-, -, hv6'⟩ | ⟨l, hl, -⟩ | ⟨key, l, hl, -⟩ := SubnetManager.allocate_table hv6
        · exact hv6'
        · cases hl
        · cases hl
      have hback : (if (m.v4.leaseFor node).isSome = true then v4 else (v4.release node).2) =
          m.v4 := by
        obtain ⟨e', he', -⟩ | ⟨l, -, rfl, hholds⟩ | ⟨key, l, -, rfl, hnot, hget, rfl⟩ :=
          SubnetManager.allocate_table hv4
        · cases he'
        · rw [if_pos (SubnetManager.isSome_leaseFor.mpr hholds)]
        · rw [if_neg fun hsome => hnot (SubnetManager.isSome_leaseFor.mp hsome)]
          exact h.v4.release_insert hnot hget
      rw [hback, hv6']
      exact ⟨h, fun _ _ => rfl⟩
    next l6 v6 hv6 =>
      obtain ⟨rfl, rfl⟩ := Prod.mk.inj (Option.some.inj hstep)
      refine ⟨?_, fun e he => by cases he⟩
      -- both tables have the node now, and both had it before or neither did
      obtain ⟨e', he', -⟩ | ⟨l, -, rfl, hholds⟩ | ⟨key, l, -, rfl, hnot, hget, rfl⟩ :=
        SubnetManager.allocate_table hv4
      · cases he'
      · obtain ⟨e', he', -⟩ | ⟨l', -, rfl, -⟩ | ⟨key', l', -, hl', hnot', -, -⟩ :=
          SubnetManager.allocate_table hv6
        · cases he'
        · exact h
        · exact absurd ((h.same node).mp hholds) hnot'
      · obtain ⟨e', he', -⟩ | ⟨l', -, -, hholds'⟩ | ⟨key', l', -, hl', hnot', hget', rfl⟩ :=
          SubnetManager.allocate_table hv6
        · cases he'
        · exact absurd ((h.same l.node).mpr hholds') hnot
        · rw [← hl'] at hnot'
          obtain ⟨hv4, hholds⟩ := h.v4.insert hnot hget
          obtain ⟨hv6, hholds'⟩ := h.v6.insert hnot' hget'
          refine ⟨hv4, hv6, fun n => ?_⟩
          rw [hholds, hholds', h.same, hl']

theorem Paired.release (h : m.Paired) (node : String) :
    (m.release node).2.Paired ∧ Unchanged (m.release node) m := by
  unfold DualStackSubnetManager.release
  obtain ⟨hnot, e, hv4⟩ | ⟨key, l, hmem, hnode, hv4⟩ := h.v4.release node
  · rw [hv4]
    exact ⟨h, fun _ _ => rfl⟩
  · rw [hv4]
    obtain ⟨hnot, e, hv6⟩ | ⟨key', l', hmem', hnode', hv6⟩ := h.v6.release node
    · exact absurd ((h.same node).mp ⟨_, hmem, hnode⟩) hnot
    · rw [hv6]
      obtain ⟨hone, hholds⟩ := h.v4.remove hmem
      obtain ⟨hone', hholds'⟩ := h.v6.remove hmem'
      refine ⟨⟨hone, hone', fun n => ?_⟩, fun e he => by cases he⟩
      rw [hholds, hholds', h.same, hnode, hnode']

theorem Reachable.paired (h : m.Reachable overflowChecks) : m.Paired := by
  induction h with
  | @new v4Cluster v6Cluster v4NodePrefix v6NodePrefix m hnew =>
    unfold DualStackSubnetManager.new at hnew
    split at hnew
    next => cases hnew
    next =>
      split at hnew
      next => cases hnew
      next v4 hv4 =>
        split at hnew
        next => cases hnew
        next v6 hv6 =>
          obtain rfl := Except.ok.inj hnew
          obtain ⟨hone, hleases⟩ := SubnetManager.oneEach_new hv4
          obtain ⟨hone', hleases'⟩ := SubnetManager.oneEach_new hv6
          refine ⟨hone, hone', fun node => ?_⟩
          simp [SubnetManager.Holds, hleases, hleases']
  | allocate _ hstep ih => exact (ih.allocate hstep).1
  | release node _ ih => exact (ih.release node).1

end DualStackSubnetManager

/-! ## The addresses of one family -/

namespace PodIpam

variable {p : PodIpam} {ip : IpAddr}

/-- Every position that is handed out is an address of the subnet. -/
def InSubnet (p : PodIpam) : Prop := p.hostEnd ≤ p.subnet.addressCount

theorem InSubnet.allocate (h : p.InSubnet) :
    (∃ e, p.allocate = (.error e, p)) ∨
      ∃ ip p', p.allocate = (.ok ip, p') ∧ p'.InSubnet ∧ (p'.free ip).2 = p := by
  unfold PodIpam.allocate
  split
  next => exact Or.inl ⟨_, rfl⟩
  next idx hfind =>
    have hfree : idx ∉ p.assigned := by simpa using List.find?_some hfind
    have hrange := List.mem_range'_1.mp (List.mem_of_find?_eq_some hfind)
    have hlt : idx < p.subnet.addressCount := by
      have hle : p.hostEnd ≤ p.subnet.addressCount := h
      omega
    dsimp only
    split
    next e he =>
      unfold Cidr.nthAddress at he
      rw [if_neg (Nat.not_le.mpr hlt)] at he
      cases he
    next ip hip =>
      refine Or.inr ⟨ip, _, rfl, h, ?_⟩
      obtain ⟨-, hmax, hnat⟩ := Cidr.nthAddress_eq_ok_iff.mp hip
      have hsize := p.subnet.addressCount_le_size
      have hin : p.subnet.contains ip = true :=
        Cidr.contains_iff.mpr ⟨hmax, by omega, by omega⟩
      have hidx : PodIpam.indexOf { p with assigned := p.assigned.insert idx } ip = some idx :=
        indexOf_eq_some_iff.mpr ⟨hin, hnat⟩
      unfold PodIpam.free
      rw [hidx]
      dsimp only
      rw [if_pos (BTreeSet.mem_insert.mpr (Or.inl rfl)), BTreeSet.remove_insert,
        BTreeSet.remove_eq_self hfree]

theorem free_of_assigned (h : p.isAssigned ip = true) :
    ∃ p', p.free ip = (.ok (), p') ∧ p'.subnet = p.subnet ∧ p'.hostEnd = p.hostEnd ∧ p' ≠ p := by
  unfold isAssigned at h
  obtain ⟨idx, hidx, hmem⟩ := (Option.any_eq_true _ _).mp h
  have hmem := of_decide_eq_true hmem
  refine ⟨{ p with assigned := p.assigned.remove idx }, ?_, rfl, rfl, fun heq => ?_⟩
  · unfold PodIpam.free
    rw [hidx]
    exact if_pos hmem
  · have hassigned := congrArg PodIpam.assigned heq
    rw [← hassigned] at hmem
    exact (BTreeSet.mem_remove.mp hmem).2 rfl

theorem free_of_not_assigned (h : p.isAssigned ip = false) : ∃ e, p.free ip = (.error e, p) := by
  unfold PodIpam.free
  split
  next => exact ⟨_, rfl⟩
  next idx hidx =>
    rw [isAssigned, hidx] at h
    rw [if_neg (of_decide_eq_false h)]
    exact ⟨_, rfl⟩

theorem inSubnet_new {subnet : Cidr} (h : PodIpam.new subnet = .ok p) : p.InSubnet := by
  unfold PodIpam.new at h
  dsimp only at h
  split at h
  next => cases h
  next =>
    split at h
    next => cases h
    next =>
      obtain rfl := Except.ok.inj h
      exact Nat.le_refl _

end PodIpam

/-! ## The addresses of both families -/

namespace DualStackIpam

variable {d : DualStackIpam}

structure InSubnets (d : DualStackIpam) : Prop where
  v4 : d.v4.InSubnet
  v6 : d.v6.InSubnet

theorem InSubnets.allocate (h : d.InSubnets) :
    d.allocate.2.InSubnets ∧ Unchanged d.allocate d := by
  unfold DualStackIpam.allocate
  obtain ⟨e, hv4⟩ | ⟨a4, v4, hv4, hin, hback⟩ := h.v4.allocate
  · rw [hv4]
    exact ⟨h, fun _ _ => rfl⟩
  · rw [hv4]
    obtain ⟨e, hv6⟩ | ⟨a6, v6, hv6, hin', -⟩ := h.v6.allocate
    · rw [hv6]
      dsimp only
      rw [hback]
      exact ⟨h, fun _ _ => rfl⟩
    · rw [hv6]
      exact ⟨⟨hin, hin'⟩, fun e he => by cases he⟩

theorem InSubnets.free (h : d.InSubnets) (addr : DualStackAddr) :
    (d.free addr).2.InSubnets ∧ (Unchanged (d.free addr) d ↔
      ¬ (d.v4.isAssigned addr.v4 = true ∧ d.v6.isAssigned addr.v6 = false)) := by
  unfold DualStackIpam.free
  cases hassigned : d.v4.isAssigned addr.v4 with
  | false =>
    obtain ⟨e, hv4⟩ := PodIpam.free_of_not_assigned hassigned
    rw [hv4]
    exact ⟨h, iff_of_true (fun _ _ => rfl) fun hboth => Bool.false_ne_true hboth.1⟩
  | true =>
    obtain ⟨v4, hv4, hsubnet, hend, hne⟩ := PodIpam.free_of_assigned hassigned
    have hin : v4.InSubnet := by
      rw [PodIpam.InSubnet, hsubnet, hend]
      exact h.v4
    rw [hv4]
    cases hassigned' : d.v6.isAssigned addr.v6 with
    | false =>
      obtain ⟨e, hv6⟩ := PodIpam.free_of_not_assigned hassigned'
      rw [hv6]
      refine ⟨⟨hin, h.v6⟩, iff_of_false (fun hsame => hne ?_) fun hnot => hnot ⟨rfl, rfl⟩⟩
      exact congrArg DualStackIpam.v4 (hsame _ rfl)
    | true =>
      obtain ⟨v6, hv6, hsubnet', hend', -⟩ := PodIpam.free_of_assigned hassigned'
      have hin' : v6.InSubnet := by
        rw [PodIpam.InSubnet, hsubnet', hend']
        exact h.v6
      rw [hv6]
      refine ⟨⟨hin, hin'⟩, iff_of_true (fun e he => by cases he) fun hboth => ?_⟩
      cases hboth.2

theorem Reachable.inSubnets (h : d.Reachable) : d.InSubnets := by
  induction h with
  | @new v4Subnet v6Subnet d hnew =>
    unfold DualStackIpam.new at hnew
    split at hnew
    next => cases hnew
    next =>
      split at hnew
      next => cases hnew
      next v4 hv4 =>
        split at hnew
        next => cases hnew
        next v6 hv6 =>
          obtain rfl := Except.ok.inj hnew
          exact ⟨PodIpam.inSubnet_new hv4, PodIpam.inSubnet_new hv6⟩
  | allocate _ ih => exact ih.allocate.1
  | free addr _ ih => exact (ih.free addr).1

end DualStackIpam

/-- The subnets of a node: 10.42.6.0/24 and fd00::500/120. -/
def nodeV4 : Cidr := ⟨.v4 0x0A2A0600, 24, by decide, by decide⟩

def nodeV6 : Cidr := ⟨.v6 0xFD000000000000000000000000000500, 120, by decide, by decide⟩

def freshManager : DualStackSubnetManager :=
  ⟨⟨nodeV4, 28, [], by decide, by decide⟩, ⟨nodeV6, 124, [], by decide, by decide⟩⟩

def freshIpam : DualStackIpam :=
  ⟨⟨nodeV4, .v4 0x0A2A0601, [], 2, 256⟩,
    ⟨nodeV6, .v6 0xFD000000000000000000000000000501, [], 2, 256⟩⟩

theorem reachable_freshIpam : freshIpam.Reachable :=
  .new (show DualStackIpam.new nodeV4 nodeV6 = .ok freshIpam from rfl)

/-- The address of a pod with another one of the second family, which is not assigned. -/
def mixedAddr : DualStackAddr := ⟨.v4 0x0A2A0602, .v6 0xFD000000000000000000000000000563⟩

end CaveHome.Flannel
