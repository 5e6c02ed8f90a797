import CaveHome.Lib.AddressBlock
import CaveHome.Lib.BTreeMap
import Mathlib.Data.Prod.Lex

/-!
# Addresses and networks

An address is a number of 32 or 128 bits.  A network is written with its first address and the
number of bits that its addresses share.
-/

namespace CaveHome.Flannel

open AddressBlock

inductive IpAddr
  | v4 (a : BitVec 32)
  | v6 (a : BitVec 128)
deriving DecidableEq

namespace IpAddr

/-- The number of bits of an address. -/
def maxPrefix : IpAddr → Nat
  | v4 _ => 32
  | v6 _ => 128

def toNat : IpAddr → Nat
  | v4 a => a.toNat
  | v6 a => a.toNat

theorem eq_of_toNat_eq {a b : IpAddr} (hmax : a.maxPrefix = b.maxPrefix)
    (h : a.toNat = b.toNat) : a = b := by
  cases a with
  | v4 a =>
    cases b with
    | v4 b => exact congrArg v4 (BitVec.eq_of_toNat_eq h)
    | v6 b => cases hmax
  | v6 a =>
    cases b with
    | v4 b => cases hmax
    | v6 b => exact congrArg v6 (BitVec.eq_of_toNat_eq h)

theorem toNat_lt (a : IpAddr) : a.toNat < 2 ^ a.maxPrefix := by
  cases a with
  | v4 a => exact a.isLt
  | v6 a => exact a.isLt

/-- Addresses of the shorter kind come first. -/
def key (a : IpAddr) : Lex (Nat × Nat) := toLex (a.maxPrefix, a.toNat)

theorem key_injective : Function.Injective key := by
  intro a b h
  have h : (a.maxPrefix, a.toNat) = (b.maxPrefix, b.toNat) := toLex.injective h
  exact eq_of_toNat_eq (congrArg Prod.fst h) (congrArg Prod.snd h)

instance : LinearOrder IpAddr := LinearOrder.lift' key key_injective

/-- The address an offset further; it wraps around at the end. -/
def wrappingAdd (a : IpAddr) (offset : BitVec 128) : IpAddr :=
  match a with
  | v4 b => v4 (b + offset.setWidth 32)
  | v6 b => v6 (b + offset)

@[simp] theorem maxPrefix_wrappingAdd (a : IpAddr) (offset : BitVec 128) :
    (a.wrappingAdd offset).maxPrefix = a.maxPrefix := by cases a <;> rfl

theorem maxPrefix_le (a : IpAddr) : a.maxPrefix ≤ 128 := by
  cases a <;> simp [maxPrefix]

theorem toNat_wrappingAdd (a : IpAddr) (offset : BitVec 128) :
    (a.wrappingAdd offset).toNat = (a.toNat + offset.toNat) % 2 ^ a.maxPrefix := by
  cases a with
  | v4 b => simp [wrappingAdd, toNat, maxPrefix]
  | v6 b => simp [wrappingAdd, toNat, maxPrefix]

end IpAddr

/-- Keep the first bits of an address. -/
def maskAddr (addr : IpAddr) (prefixLen : Nat) : IpAddr :=
  match addr with
  | .v4 a => .v4 (a &&& mask 32 prefixLen)
  | .v6 a => .v6 (a &&& mask 128 prefixLen)

theorem maxPrefix_maskAddr (addr : IpAddr) (prefixLen : Nat) :
    (maskAddr addr prefixLen).maxPrefix = addr.maxPrefix := by cases addr <;> rfl

theorem toNat_maskAddr {addr : IpAddr} {prefixLen : Nat} (h : prefixLen ≤ addr.maxPrefix) :
    (maskAddr addr prefixLen).toNat =
      addr.toNat / 2 ^ (addr.maxPrefix - prefixLen) * 2 ^ (addr.maxPrefix - prefixLen) := by
  cases addr with
  | v4 a => exact toNat_and_mask h a
  | v6 a => exact toNat_and_mask h a

example : maskAddr (.v4 0x0A2A01C8#32) 24 = .v4 0x0A2A0100#32 := by decide

theorem maskAddr_eq_self_iff {addr : IpAddr} {prefixLen : Nat} (h : prefixLen ≤ addr.maxPrefix) :
    maskAddr addr prefixLen = addr ↔ 2 ^ (addr.maxPrefix - prefixLen) ∣ addr.toNat := by
  constructor
  · intro heq
    have hnat := toNat_maskAddr h
    rw [heq] at hnat
    exact Dvd.intro_left _ hnat.symm
  · intro hdvd
    apply IpAddr.eq_of_toNat_eq (maxPrefix_maskAddr addr prefixLen)
    rw [toNat_maskAddr h, Nat.div_mul_cancel hdvd]

inductive CidrError
  | prefixTooLong (prefixLen max : Nat)
deriving DecidableEq

/-- A network: its first address has no bits after the prefix. -/
structure Cidr where
  addr : IpAddr
  prefixLen : Nat
  le_max : prefixLen ≤ addr.maxPrefix
  masked : maskAddr addr prefixLen = addr
deriving DecidableEq

theorem maskAddr_maskAddr {addr : IpAddr} {prefixLen : Nat} (h : prefixLen ≤ addr.maxPrefix) :
    maskAddr (maskAddr addr prefixLen) prefixLen = maskAddr addr prefixLen := by
  rw [maskAddr_eq_self_iff (by rwa [maxPrefix_maskAddr]), maxPrefix_maskAddr, toNat_maskAddr h]
  exact Dvd.intro_left _ rfl

/-- The unsigned shift to the left by `n` bits.  A shift by the whole width or more panics where
overflows are checked and shifts by the rest elsewhere. -/
def shl (overflowChecks : Bool) (x : BitVec 128) (n : Nat) : Option (BitVec 128) :=
  if n < 128 then some (x <<< n) else if overflowChecks then none else some (x <<< (n % 128))

namespace Cidr

def new (addr : IpAddr) (prefixLen : Nat) : Except CidrError Cidr :=
  if h : addr.maxPrefix < prefixLen then .error (.prefixTooLong prefixLen addr.maxPrefix)
  else
    .ok ⟨maskAddr addr prefixLen, prefixLen,
      by rw [maxPrefix_maskAddr]; exact Nat.le_of_not_lt h,
      maskAddr_maskAddr (Nat.le_of_not_lt h)⟩

def network (c : Cidr) : IpAddr := c.addr

def maxPrefix (c : Cidr) : Nat := c.addr.maxPrefix

/-- The number of addresses, or the largest number there is. -/
def addressCount (c : Cidr) : Nat :=
  let hostBits := c.maxPrefix - c.prefixLen
  if 128 ≤ hostBits then 2 ^ 128 - 1 else 2 ^ hostBits

def contains (c : Cidr) (ip : IpAddr) : Bool :=
  match c.addr, ip with
  | .v4 net, .v4 test => test &&& mask 32 c.prefixLen == net
  | .v6 net, .v6 test => test &&& mask 128 c.prefixLen == net
  | _, _ => false

/-- The address at a position of the network. -/
def nthAddress (c : Cidr) (index : Nat) : Except CidrError IpAddr :=
  if c.addressCount ≤ index then .error (.prefixTooLong c.prefixLen c.maxPrefix)
  else .ok (c.addr.wrappingAdd (BitVec.ofNat 128 index))

/-! ## Networks as intervals of numbers -/

/-- The number of addresses. -/
def size (c : Cidr) : Nat := 2 ^ (c.maxPrefix - c.prefixLen)

theorem size_pos (c : Cidr) : 0 < c.size := Nat.two_pow_pos _

theorem size_dvd (c : Cidr) : c.size ∣ c.addr.toNat :=
  (maskAddr_eq_self_iff c.le_max).mp c.masked

theorem addr_add_size_le (c : Cidr) : c.addr.toNat + c.size ≤ 2 ^ c.maxPrefix := by
  have hdvd : c.size ∣ 2 ^ c.maxPrefix := Nat.pow_dvd_pow 2 (Nat.sub_le _ _)
  obtain ⟨k, hk⟩ := c.size_dvd
  obtain ⟨n, hn⟩ := hdvd
  have hlt : c.size * k < c.size * n := by rw [← hk, ← hn]; exact c.addr.toNat_lt
  have hle : k + 1 ≤ n := Nat.lt_of_mul_lt_mul_left hlt
  calc c.addr.toNat + c.size = c.size * (k + 1) := by rw [hk, Nat.mul_succ]
    _ ≤ c.size * n := Nat.mul_le_mul_left _ hle
    _ = 2 ^ c.maxPrefix := hn.symm

theorem addressCount_le_size (c : Cidr) : c.addressCount ≤ c.size := by
  have hmax := c.addr.maxPrefix_le
  unfold addressCount size maxPrefix
  dsimp only
  split_ifs with h
  · have heq : c.addr.maxPrefix - c.prefixLen = 128 := by omega
    rw [heq]
    exact Nat.sub_le _ _
  · exact Nat.le_refl _

theorem contains_iff {c : Cidr} {ip : IpAddr} :
    c.contains ip = true ↔ ip.maxPrefix = c.maxPrefix ∧
      c.addr.toNat ≤ ip.toNat ∧ ip.toNat < c.addr.toNat + c.size := by
  obtain ⟨addr, prefixLen, hle, hmasked⟩ := c
  rw [← div_mul_eq_iff (size_pos _) (size_dvd _)]
  cases addr with
  | v4 net =>
    cases ip with
    | v4 test =>
      have h32 : prefixLen ≤ 32 := hle
      show (test &&& mask 32 prefixLen == net) = true ↔ _
      rw [beq_iff_eq, and_mask_eq_iff h32]
      exact (and_iff_right rfl).symm
    | v6 test => simp [contains, IpAddr.maxPrefix, maxPrefix]
  | v6 net =>
    cases ip with
    | v4 test => simp [contains, IpAddr.maxPrefix, maxPrefix]
    | v6 test =>
      have h128 : prefixLen ≤ 128 := hle
      show (test &&& mask 128 prefixLen == net) = true ↔ _
      rw [beq_iff_eq, and_mask_eq_iff h128]
      exact (and_iff_right rfl).symm

theorem contains_network (c : Cidr) : c.contains c.addr = true :=
  contains_iff.mpr ⟨rfl, Nat.le_refl _, Nat.lt_add_of_pos_right c.size_pos⟩

theorem ext_addr {c d : Cidr} (haddr : c.addr = d.addr) (hlen : c.prefixLen = d.prefixLen) :
    c = d := by
  cases c
  cases d
  cases haddr
  cases hlen
  rfl

theorem eq_of_contains {c d : Cidr} (hlen : c.prefixLen = d.prefixLen) {ip : IpAddr}
    (hc : c.contains ip = true) (hd : d.contains ip = true) : c = d := by
  obtain ⟨hmaxc, hcin⟩ := contains_iff.mp hc
  obtain ⟨hmaxd, hdin⟩ := contains_iff.mp hd
  have hmax : c.maxPrefix = d.maxPrefix := hmaxc.symm.trans hmaxd
  have hsize : d.size = c.size := by rw [size, size, hmax, hlen]
  rw [hsize] at hdin
  have hnat := eq_of_mem_of_mem c.size_dvd (hsize ▸ d.size_dvd) hcin hdin
  exact ext_addr (IpAddr.eq_of_toNat_eq hmax hnat) hlen

theorem contains_of_contains_network {c d : Cidr} (hlen : c.prefixLen ≤ d.prefixLen)
    (h : c.contains d.addr = true) {ip : IpAddr} (hip : d.contains ip = true) :
    c.contains ip = true := by
  obtain ⟨hmax, hin⟩ := contains_iff.mp h
  obtain ⟨hmaxip, hipin⟩ := contains_iff.mp hip
  have hmax : d.maxPrefix = c.maxPrefix := hmax
  have hdvd : d.size ∣ c.size := by
    rw [size, size, hmax]
    exact Nat.pow_dvd_pow 2 (Nat.sub_le_sub_left hlen _)
  have hnet : d.size ∣ c.addr.toNat := hdvd.trans c.size_dvd
  obtain ⟨hle, hadd⟩ := le_and_add_le hdvd hnet d.size_dvd hin
  exact contains_iff.mpr ⟨hmaxip.trans hmax, by omega, by omega⟩

theorem nthAddress_eq_ok_iff {c : Cidr} {index : Nat} {ip : IpAddr} :
    c.nthAddress index = .ok ip ↔ index < c.addressCount ∧ ip.maxPrefix = c.maxPrefix ∧
      ip.toNat = c.addr.toNat + index := by
  unfold nthAddress
  split_ifs with h
  · exact ⟨fun he => (nomatch he), fun he => absurd he.1 (Nat.not_lt.mpr h)⟩
  · have hindex : index < c.addressCount := Nat.not_le.mp h
    have hsize := c.addressCount_le_size
    have hend := c.addr_add_size_le
    have hpow : 2 ^ c.maxPrefix ≤ 2 ^ 128 := Nat.pow_le_pow_right (by decide) c.addr.maxPrefix_le
    have hoff : (BitVec.ofNat 128 index).toNat = index := by
      rw [BitVec.toNat_ofNat, Nat.mod_eq_of_lt (by omega)]
    have hnat : (c.addr.wrappingAdd (BitVec.ofNat 128 index)).toNat = c.addr.toNat + index := by
      rw [IpAddr.toNat_wrappingAdd, hoff]
      exact Nat.mod_eq_of_lt (show _ < 2 ^ c.maxPrefix by omega)
    constructor
    · intro he
      rw [← Except.ok.inj he]
      exact ⟨hindex, IpAddr.maxPrefix_wrappingAdd _ _, hnat⟩
    · rintro ⟨-, hmax, hip⟩
      refine congrArg Except.ok (IpAddr.eq_of_toNat_eq ?_ (hnat.trans hip.symm))
      rw [IpAddr.maxPrefix_wrappingAdd, hmax]
      rfl

end Cidr

end CaveHome.Flannel
