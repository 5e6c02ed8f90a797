import CaveHome.Flannel.Cidr
import CaveHome.Flannel.SubnetManager

/-!
# Addresses of pods

A node hands the addresses of its subnet to its pods, but for the first two: the address of the
network and the gateway.
-/

namespace CaveHome.Flannel

inductive IpamError
  | subnetFull (subnet : Cidr)
  | outOfRange (ip : IpAddr)
  | reserved (ip : IpAddr)
  | alreadyAssigned (ip : IpAddr)
  | notAssigned (ip : IpAddr)
  | noUsableHosts (subnet : Cidr)
deriving DecidableEq

/-- The positions of the subnet that are handed out. -/
structure PodIpam where
  subnet : Cidr
  gateway : IpAddr
  assigned : BTreeSet Nat
  firstHost : Nat
  hostEnd : Nat

namespace PodIpam

def new (subnet : Cidr) : Except IpamError PodIpam :=
  let count := subnet.addressCount
  if count < 3 then .error (.noUsableHosts subnet)
  else
    match subnet.nthAddress 1 with
    | .error _ => .error (.noUsableHosts subnet)
    | .ok gateway => .ok ⟨subnet, gateway, [], 2, count⟩

/-- The position of an address of the subnet. -/
def indexOf (p : PodIpam) (ip : IpAddr) : Option Nat :=
  if !p.subnet.contains ip then none
  else
    match p.subnet.network, ip with
    | .v4 net, .v4 addr => some (addr - net).toNat
    | .v6 net, .v6 addr => some (addr - net).toNat
    | _, _ => none

/-- Hand out the lowest free address. -/
def allocate (p : PodIpam) : Except IpamError IpAddr × PodIpam :=
  match (List.range' p.firstHost (p.hostEnd - p.firstHost)).find? (· ∉ p.assigned) with
  | none => (.error (.subnetFull p.subnet), p)
  | some idx =>
    let p' := { p with assigned := p.assigned.insert idx }
    match p.subnet.nthAddress idx with
    | .error _ => (.error (.subnetFull p.subnet), p')
    | .ok ip => (.ok ip, p')

/-- Hand out a given address. -/
def assign (p : PodIpam) (ip : IpAddr) : Except IpamError Unit × PodIpam :=
  match p.indexOf ip with
  | none => (.error (.outOfRange ip), p)
  | some idx =>
    if idx < p.firstHost then (.error (.reserved ip), p)
    else if idx ∈ p.assigned then (.error (.alreadyAssigned ip), p)
    else (.ok (), { p with assigned := p.assigned.insert idx })

/-- Take an address back. -/
def free (p : PodIpam) (ip : IpAddr) : Except IpamError Unit × PodIpam :=
  match p.indexOf ip with
  | none => (.error (.outOfRange ip), p)
  | some idx =>
    if idx ∈ p.assigned then (.ok (), { p with assigned := p.assigned.remove idx })
    else (.error (.notAssigned ip), p)

inductive Op
  | allocate
  | assign (ip : IpAddr)
  | free (ip : IpAddr)

/-- The addresses that are live after a call: those handed out and not taken back. -/
def apply (p : PodIpam) (live : List IpAddr) : Op → PodIpam × List IpAddr
  | .allocate =>
    match p.allocate with
    | (.ok ip, p') => (p', ip :: live)
    | (.error _, p') => (p', live)
  | .assign ip =>
    match p.assign ip with
    | (.ok (), p') => (p', ip :: live)
    | (.error _, p') => (p', live)
  | .free ip =>
    match p.free ip with
    | (.ok (), p') => (p', live.erase ip)
    | (.error _, p') => (p', live)

def run (p : PodIpam) (live : List IpAddr) : List Op → PodIpam × List IpAddr
  | [] => (p, live)
  | op :: ops => (p.apply live op).1.run (p.apply live op).2 ops

/-- No two live addresses are equal, and all are addresses of the subnet for pods. -/
structure Sound (subnet : Cidr) (gateway : IpAddr) (live : List IpAddr) : Prop where
  nodup : live.Nodup
  usable : ∀ ip ∈ live, subnet.contains ip = true ∧ ip ≠ subnet.network ∧ ip ≠ gateway

/-! ## Positions of live addresses -/

theorem indexOf_eq_some_iff {p : PodIpam} {ip : IpAddr} {idx : Nat} :
    p.indexOf ip = some idx ↔
      p.subnet.contains ip = true ∧ ip.toNat = p.subnet.addr.toNat + idx := by
  unfold indexOf Cidr.network
  cases hin : p.subnet.contains ip with
  | false => simp
  | true =>
    obtain ⟨hmax, hle, -⟩ := Cidr.contains_iff.mp hin
    have hmax : ip.maxPrefix = p.subnet.addr.maxPrefix := hmax
    rw [Bool.not_true, if_neg Bool.false_ne_true]
    cases hnet : p.subnet.addr with
    | v4 net =>
      cases ip with
      | v4 addr =>
        rw [hnet] at hle
        have hsub : (addr - net).toNat = addr.toNat - net.toNat := BitVec.toNat_sub_of_le hle
        have hle : net.toNat ≤ addr.toNat := hle
        simp only [hsub, Option.some.injEq, IpAddr.toNat, true_and]
        omega
      | v6 addr => simp [hnet, IpAddr.maxPrefix] at hmax
    | v6 net =>
      cases ip with
      | v4 addr => simp [hnet, IpAddr.maxPrefix] at hmax
      | v6 addr =>
        rw [hnet] at hle
        have hsub : (addr - net).toNat = addr.toNat - net.toNat := BitVec.toNat_sub_of_le hle
        have hle : net.toNat ≤ addr.toNat := hle
        simp only [hsub, Option.some.injEq, IpAddr.toNat, true_and]
        omega

/-- Every live address is at an assigned position, after the two that are kept back. -/
structure Inv (subnet : Cidr) (gateway : IpAddr) (p : PodIpam) (live : List IpAddr) : Prop where
  subnet_eq : p.subnet = subnet
  gateway_at : subnet.nthAddress 1 = .ok gateway
  firstHost_eq : p.firstHost = 2
  nodup : live.Nodup
  assigned : ∀ ip ∈ live, ∃ idx, p.indexOf ip = some idx ∧ idx ∈ p.assigned ∧ 2 ≤ idx

section

variable {subnet : Cidr} {gateway : IpAddr} {p : PodIpam} {live : List IpAddr}

theorem Inv.sound (h : Inv subnet gateway p live) : Sound subnet gateway live where
  nodup := h.nodup
  usable := by
    intro ip hip
    obtain ⟨idx, hidx, -, hge⟩ := h.assigned ip hip
    obtain ⟨hin, hnat⟩ := indexOf_eq_some_iff.mp hidx
    obtain ⟨-, -, hgateway⟩ := Cidr.nthAddress_eq_ok_iff.mp h.gateway_at
    rw [h.subnet_eq] at hin hnat
    refine ⟨hin, ?_, ?_⟩
    · rintro rfl
      have hnet : subnet.network.toNat = subnet.addr.toNat := rfl
      omega
    · rintro rfl
      omega

theorem Inv.insert (h : Inv subnet gateway p live) {ip : IpAddr} {idx : Nat}
    (hidx : p.indexOf ip = some idx) (hge : 2 ≤ idx) (hfree : idx ∉ p.assigned) :
    Inv subnet gateway { p with assigned := p.assigned.insert idx } (ip :: live) where
  subnet_eq := h.subnet_eq
  gateway_at := h.gateway_at
  firstHost_eq := h.firstHost_eq
  nodup := by
    refine List.nodup_cons.mpr ⟨fun hmem => ?_, h.nodup⟩
    obtain ⟨idx', hidx', hassigned, -⟩ := h.assigned ip hmem
    rw [hidx] at hidx'
    exact hfree (Option.some.inj hidx' ▸ hassigned)
  assigned := by
    intro ip' hip'
    rcases List.mem_cons.mp hip' with rfl | hip'
    · exact ⟨idx, hidx, BTreeSet.mem_insert.mpr (Or.inl rfl), hge⟩
    · obtain ⟨idx', hidx', hassigned, hge'⟩ := h.assigned ip' hip'
      exact ⟨idx', hidx', BTreeSet.mem_insert.mpr (Or.inr hassigned), hge'⟩

theorem Inv.erase (h : Inv subnet gateway p live) {ip : IpAddr} {idx : Nat}
    (hidx : p.indexOf ip = some idx) :
    Inv subnet gateway { p with assigned := p.assigned.remove idx } (live.erase ip) where
  subnet_eq := h.subnet_eq
  gateway_at := h.gateway_at
  firstHost_eq := h.firstHost_eq
  nodup := h.nodup.erase ip
  assigned := by
    intro ip' hip'
    obtain ⟨hne, hmem⟩ := h.nodup.mem_erase_iff.mp hip'
    obtain ⟨idx', hidx', hassigned, hge'⟩ := h.assigned ip' hmem
    refine ⟨idx', hidx', BTreeSet.mem_remove.mpr ⟨hassigned, fun heq => hne ?_⟩, hge'⟩
    obtain ⟨hin, hnat⟩ := indexOf_eq_some_iff.mp hidx
    obtain ⟨hin', hnat'⟩ := indexOf_eq_some_iff.mp hidx'
    have hmax := (Cidr.contains_iff.mp hin').1.trans (Cidr.contains_iff.mp hin).1.symm
    exact IpAddr.eq_of_toNat_eq hmax (by rw [hnat, hnat', heq])

theorem Inv.mono (h : Inv subnet gateway p live) (idx : Nat) :
    Inv subnet gateway { p with assigned := p.assigned.insert idx } live where
  subnet_eq := h.subnet_eq
  gateway_at := h.gateway_at
  firstHost_eq := h.firstHost_eq
  nodup := h.nodup
  assigned := by
    intro ip hip
    obtain ⟨idx', hidx', hassigned, hge'⟩ := h.assigned ip hip
    exact ⟨idx', hidx', BTreeSet.mem_insert.mpr (Or.inr hassigned), hge'⟩

theorem Inv.apply (h : Inv subnet gateway p live) (op : Op) :
    Inv subnet gateway (p.apply live op).1 (p.apply live op).2 := by
  cases op with
  | allocate =>
    simp only [PodIpam.apply, PodIpam.allocate]
    cases hfind : (List.range' p.firstHost (p.hostEnd - p.firstHost)).find? (· ∉ p.assigned) with
    | none => exact h
    | some idx =>
      have hfree : idx ∉ p.assigned := by simpa using List.find?_some hfind
      have hge : 2 ≤ idx := by
        have hmem := List.mem_range'_1.mp (List.mem_of_find?_eq_some hfind)
        rw [h.firstHost_eq] at hmem
        exact hmem.1
      dsimp only
      cases hip : p.subnet.nthAddress idx with
      | error e => exact h.mono idx
      | ok ip =>
        obtain ⟨hlt, hmax, hnat⟩ := Cidr.nthAddress_eq_ok_iff.mp hip
        have hsize := p.subnet.addressCount_le_size
        have hin : p.subnet.contains ip = true :=
          Cidr.contains_iff.mpr ⟨hmax, by omega, by omega⟩
        exact h.insert (indexOf_eq_some_iff.mpr ⟨hin, hnat⟩) hge hfree
  | assign ip =>
    simp only [PodIpam.apply, PodIpam.assign]
    cases hidx : p.indexOf ip with
    | none => exact h
    | some idx =>
      dsimp only
      split_ifs with hlow htaken
      · exact h
      · exact h
      · rw [h.firstHost_eq] at hlow
        exact h.insert hidx (Nat.le_of_not_lt hlow) htaken
  | free ip =>
    simp only [PodIpam.apply, PodIpam.free]
    cases hidx : p.indexOf ip with
    | none => exact h
    | some idx =>
      dsimp only
      split_ifs
      · exact h.erase hidx
      · exact h

theorem Inv.run (h : Inv subnet gateway p live) (ops : List Op) :
    Inv subnet gateway (p.run live ops).1 (p.run live ops).2 := by
  induction ops generalizing p live with
  | nil => exact h
  | cons op ops ih => exact ih (h.apply op)

theorem inv_new (h : new subnet = .ok p) : Inv subnet p.gateway p [] := by
  unfold new at h
  dsimp only at h
  split_ifs at h
  cases hgateway : subnet.nthAddress 1 with
  | error e => simp only [hgateway] at h; cases h
  | ok gateway =>
    simp only [hgateway] at h
    cases h
    exact ⟨rfl, hgateway, rfl, List.nodup_nil, fun _ hip => absurd hip List.not_mem_nil⟩

end

end PodIpam

end CaveHome.Flannel

/-!
## Allocation

Leases and pod addresses stay apart over any calls.  A cluster of the whole of the longer kind of
addresses, carved into single addresses, has more subnets than a 128-bit number counts.
-/

namespace CaveHome.Flannel

/-- After any calls the leases are sound, and the next call is answered. -/
def LeasesHold (overflowChecks : Bool) (m : SubnetManager) : Prop :=
  ∀ ops, ∃ m', m.run overflowChecks ops = some m' ∧ m'.Sound ∧ ∀ op, m'.Answers overflowChecks op

/-- After any calls the live addresses are sound. -/
def AddressesHold (p : PodIpam) : Prop :=
  ∀ ops, PodIpam.Sound p.subnet p.gateway (p.run [] ops).2

theorem leasesHold_of_lt (overflowChecks : Bool) {m : SubnetManager} (h : m.Inv)
    (hcount : m.nodePrefix - m.cluster.prefixLen < 128) : LeasesHold overflowChecks m := by
  intro ops
  obtain ⟨m', hrun, hm', hcount'⟩ := h.run overflowChecks hcount ops
  exact ⟨m', hrun, hm'.sound, fun op => (hm'.apply overflowChecks hcount' op).1⟩

theorem addressesHold {subnet : Cidr} {p : PodIpam} (h : PodIpam.new subnet = .ok p) :
    AddressesHold p := by
  intro ops
  have hinv := PodIpam.inv_new h
  rw [hinv.subnet_eq]
  exact (hinv.run ops).sound

/-! ## Single addresses of the whole range -/

/-- All addresses of the longer kind. -/
def wholeV6 : Cidr := ⟨.v6 0, 0, by decide, by decide⟩

/-- The table for single addresses, before any call. -/
def wholeManager : SubnetManager := ⟨wholeV6, 128, [], by decide, by decide⟩

theorem eq_wholeManager {m : SubnetManager} (hleases : m.leases = [])
    (hcount : 128 ≤ m.nodePrefix - m.cluster.prefixLen) : m = wholeManager := by
  obtain ⟨⟨addr, prefixLen, hle, hmasked⟩, nodePrefix, leases, hlonger, hfits⟩ := m
  have hmax := addr.maxPrefix_le
  have hfits' : nodePrefix ≤ addr.maxPrefix := hfits
  have hcount' : 128 ≤ nodePrefix - prefixLen := hcount
  obtain rfl : prefixLen = 0 := by omega
  obtain rfl : nodePrefix = 128 := by omega
  obtain rfl : leases = [] := hleases
  cases addr with
  | v4 a => simp [IpAddr.maxPrefix] at hfits'
  | v6 a =>
    have hzero : a &&& 0 = a := IpAddr.v6.inj hmasked
    obtain rfl : a = 0 := by rw [← hzero]; simp
    rfl

theorem allocate_whole_checked : wholeManager.allocate true "a" = none := by decide

theorem allocate_whole_unchecked :
    ((wholeManager.run false [.allocate "a"]).map fun m =>
      ((m.allocate false "b").map fun r => decide (r.1 = .error .exhausted),
        m.leaseValues.map fun l => l.subnet.addr, m.nodePrefix, m.cluster)) =
      some (some true, [.v6 0], 128, wholeV6) := by decide

theorem not_leasesHold_whole (overflowChecks : Bool) :
    ¬LeasesHold overflowChecks wholeManager := by
  intro h
  cases overflowChecks with
  | true =>
    obtain ⟨m', hrun, -, hanswers⟩ := h []
    cases hrun
    obtain ⟨res, m', happly, -⟩ := hanswers (.allocate "a")
    have hnone : wholeManager.apply true (.allocate "a") = none := allocate_whole_checked
    rw [hnone] at happly
    cases happly
  | false =>
    obtain ⟨m, hrun, -, hanswers⟩ := h [.allocate "a"]
    obtain ⟨res, m', happly, herror⟩ := hanswers (.allocate "b")
    have happly : m.allocate false "b" = some (res, m') := happly
    have heval := allocate_whole_unchecked
    rw [hrun, Option.map_some, happly, Option.map_some] at heval
    simp only [Option.some.injEq, Prod.mk.injEq, decide_eq_true_eq] at heval
    obtain ⟨hres, hvalues, hbits, hcluster⟩ := heval
    -- The second address is in the cluster and nobody holds it.
    have hall := (herror _ hres).2 "b" rfl
    have hsecond : wholeV6.contains (.v6 1) = true := by decide
    obtain ⟨l, hl, hsubnet⟩ := hall ⟨.v6 1, 128, by decide, by decide⟩ hbits.symm fun ip hip =>
      hcluster ▸ Cidr.contains_of_contains_network (Nat.zero_le _) hsecond hip
    have hmem : l.subnet.addr ∈ m.leaseValues.map fun l => l.subnet.addr :=
      List.mem_map_of_mem hl
    rw [hvalues, hsubnet] at hmem
    exact absurd hmem (by decide)

/-- Leases are sound over any calls exactly when a 128-bit number counts the subnets of the
cluster, and live addresses always are. -/
theorem allocation_sound_iff (overflowChecks : Bool) {cluster subnet : Cidr} {nodePrefix : Nat}
    {m : SubnetManager} {p : PodIpam} (hm : SubnetManager.new cluster nodePrefix = .ok m)
    (hp : PodIpam.new subnet = .ok p) :
    (LeasesHold overflowChecks m ↔ nodePrefix - cluster.prefixLen < 128) ∧ AddressesHold p := by
  obtain ⟨hinv, rfl, rfl, hleases⟩ := SubnetManager.inv_new hm
  refine ⟨⟨fun h => ?_, leasesHold_of_lt overflowChecks hinv⟩, addressesHold hp⟩
  by_contra hcount
  rw [eq_wholeManager hleases (Nat.le_of_not_lt hcount)] at h
  exact not_leasesHold_whole overflowChecks h

/-- A cluster network of the tests. -/
def clusterNetwork : Cidr := ⟨.v4 0x0A2A0000, 16, by decide, by decide⟩

/-- A node subnet of the tests. -/
def nodeSubnet : Cidr := ⟨.v4 0x0A2A0500, 24, by decide, by decide⟩

theorem allocation_sound_tests :
    (LeasesHold true ⟨clusterNetwork, 24, [], by decide, by decide⟩ ↔
      24 - clusterNetwork.prefixLen < 128) ∧
    AddressesHold ⟨nodeSubnet, .v4 0x0A2A0501, [], 2, 256⟩ :=
  allocation_sound_iff true (show SubnetManager.new clusterNetwork 24 = _ from rfl)
    (show PodIpam.new nodeSubnet = _ from rfl)

/-- The manager accepts the whole range, and its leases do not hold in either build. -/
theorem leases_fail_for_whole :
    SubnetManager.new wholeV6 128 = .ok wholeManager ∧
      ∀ overflowChecks, ¬LeasesHold overflowChecks wholeManager :=
  ⟨rfl, not_leasesHold_whole⟩

end CaveHome.Flannel
