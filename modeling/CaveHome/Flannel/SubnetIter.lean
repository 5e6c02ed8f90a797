import CaveHome.Flannel.Cidr

/-!
# Carving a network

A network is cut into networks with a longer prefix, which are tried from the first to the last.
They partition it, but for two ways of cutting all addresses of the longer kind.
-/

namespace CaveHome.Flannel

/-- The parts of a network from a position on. -/
structure SubnetIter where
  base : IpAddr
  newPrefix : Nat
  stepBits : Nat
  index : Nat
  count : Nat
  le_max : newPrefix ≤ base.maxPrefix
  stepBits_eq : stepBits = base.maxPrefix - newPrefix
  masked : maskAddr base newPrefix = base
  single : newPrefix = 0 → count ≤ 1

theorem shl_of_lt (overflowChecks : Bool) (x : BitVec 128) {n : Nat} (h : n < 128) :
    shl overflowChecks x n = some (x <<< n) := if_pos h

theorem Cidr.masked_of_le (c : Cidr) {newPrefix : Nat} (hle : c.prefixLen ≤ newPrefix)
    (hmax : newPrefix ≤ c.maxPrefix) : maskAddr c.addr newPrefix = c.addr := by
  rw [maskAddr_eq_self_iff hmax]
  exact (Nat.pow_dvd_pow 2 (Nat.sub_le_sub_left hle _)).trans c.size_dvd

theorem dvd_of_shl {overflowChecks : Bool} {x y : BitVec 128} {n : Nat}
    (h : shl overflowChecks x n = some y) (hn : n ≤ 128) (hx : n = 128 → x = 0) :
    2 ^ n ∣ y.toNat := by
  unfold shl at h
  split_ifs at h with hlt
  · rw [← Option.some.inj h, BitVec.toNat_shiftLeft, Nat.shiftLeft_eq]
    exact (Nat.dvd_mod_iff (Nat.pow_dvd_pow 2 hn)).mpr (Dvd.intro_left _ rfl)
  · have hwidth : n = 128 := by omega
    rw [← Option.some.inj h, hx hwidth]
    simp

theorem masked_wrappingAdd {base : IpAddr} {newPrefix : Nat} {offset : BitVec 128}
    (hmax : newPrefix ≤ base.maxPrefix) (hbase : maskAddr base newPrefix = base)
    (hoffset : 2 ^ (base.maxPrefix - newPrefix) ∣ offset.toNat) :
    maskAddr (base.wrappingAdd offset) newPrefix = base.wrappingAdd offset := by
  rw [maskAddr_eq_self_iff (by rwa [IpAddr.maxPrefix_wrappingAdd]), IpAddr.maxPrefix_wrappingAdd,
    IpAddr.toNat_wrappingAdd]
  have hdvd := (maskAddr_eq_self_iff hmax).mp hbase
  exact (Nat.dvd_mod_iff (Nat.pow_dvd_pow 2 (Nat.sub_le _ _))).mpr (Nat.dvd_add hdvd hoffset)

/-- The parts of a network with a longer prefix; `none` where the source panics. -/
def Cidr.subnets (overflowChecks : Bool) (c : Cidr) (newPrefix : Nat) :
    Option (Except CidrError SubnetIter) :=
  if hmax : c.maxPrefix < newPrefix then some (.error (.prefixTooLong newPrefix c.maxPrefix))
  else if hle : newPrefix < c.prefixLen then some (.error (.prefixTooLong c.prefixLen newPrefix))
  else
    match hcount : shl overflowChecks 1 (newPrefix - c.prefixLen) with
    | none => none
    | some count => some (.ok {
        base := c.addr
        newPrefix := newPrefix
        stepBits := c.maxPrefix - newPrefix
        index := 0
        count := count.toNat
        le_max := Nat.le_of_not_lt hmax
        stepBits_eq := rfl
        masked := c.masked_of_le (Nat.le_of_not_lt hle) (Nat.le_of_not_lt hmax)
        single := fun h0 => by
          rw [h0, Nat.zero_sub, shl_of_lt _ _ (by decide)] at hcount
          rw [← Option.some.inj hcount]
          decide })

namespace SubnetIter

variable {overflowChecks : Bool}

/-- The next part and what is left; the outer `none` is where the source panics. -/
def next (overflowChecks : Bool) (it : SubnetIter) : Option (Option (Cidr × SubnetIter)) :=
  if hindex : it.count ≤ it.index then some none
  else
    match hoffset : shl overflowChecks (BitVec.ofNat 128 it.index) it.stepBits with
    | none => none
    | some offset =>
      some (some ({
          addr := it.base.wrappingAdd offset
          prefixLen := it.newPrefix
          le_max := by
            rw [IpAddr.maxPrefix_wrappingAdd]
            exact it.le_max
          masked := by
            refine masked_wrappingAdd it.le_max it.masked
              (it.stepBits_eq ▸ dvd_of_shl hoffset ?_ ?_)
            · exact it.stepBits_eq ▸ (Nat.sub_le _ _).trans it.base.maxPrefix_le
            · intro h128
              have hmax := it.base.maxPrefix_le
              have hstep := it.stepBits_eq
              have hone := it.single (by omega)
              rw [show it.index = 0 by omega]
              rfl }, { it with index := it.index + 1 }))

/-- Look for the first part with a property, in at most `fuel` steps. -/
def findLoop (overflowChecks : Bool) (p : Cidr → Bool) : Nat → SubnetIter → Option (Option Cidr)
  | 0, _ => some none
  | fuel + 1, it =>
    match it.next overflowChecks with
    | none => none
    | some none => some none
    | some (some (c, it)) => if p c then some (some c) else findLoop overflowChecks p fuel it

/-- The first part with a property, if one has it. -/
def find (overflowChecks : Bool) (p : Cidr → Bool) (it : SubnetIter) : Option (Option Cidr) :=
  findLoop overflowChecks p (it.count - it.index) it

/-- The part at a position. -/
def IsItem (it : SubnetIter) (i : Nat) (c : Cidr) : Prop :=
  c.prefixLen = it.newPrefix ∧ c.addr = it.base.wrappingAdd (BitVec.ofNat 128 i <<< it.stepBits)

theorem IsItem.unique {it : SubnetIter} {i : Nat} {c d : Cidr} (hc : it.IsItem i c)
    (hd : it.IsItem i d) : c = d :=
  Cidr.ext_addr (hc.2.trans hd.2.symm) (hc.1.trans hd.1.symm)

theorem next_of_lt (overflowChecks : Bool) {it : SubnetIter} (hstep : it.stepBits < 128)
    (hindex : it.index < it.count) : ∃ c,
    it.next overflowChecks = some (some (c, { it with index := it.index + 1 })) ∧
      it.IsItem it.index c := by
  have hshl := shl_of_lt overflowChecks (BitVec.ofNat 128 it.index) hstep
  unfold next
  rw [dif_neg (Nat.not_le.mpr hindex)]
  split
  next hnone => rw [hshl] at hnone; cases hnone
  next offset hsome =>
    rw [hshl] at hsome
    exact ⟨_, rfl, rfl, congrArg it.base.wrappingAdd (Option.some.inj hsome).symm⟩

theorem findLoop_spec (overflowChecks : Bool) (p : Cidr → Bool) {fuel : Nat} {it : SubnetIter}
    (hstep : it.stepBits < 128) (hfuel : it.index + fuel = it.count) :
    (findLoop overflowChecks p fuel it = some none ∧
      ∀ i c, it.index ≤ i → i < it.count → it.IsItem i c → p c = false) ∨
    ∃ i c, findLoop overflowChecks p fuel it = some (some c) ∧ it.index ≤ i ∧ i < it.count ∧
      it.IsItem i c ∧ p c = true := by
  induction fuel generalizing it with
  | zero => exact Or.inl ⟨rfl, fun i c hle hlt _ => by omega⟩
  | succ fuel ih =>
    obtain ⟨c, hnext, hitem⟩ := next_of_lt overflowChecks hstep
      (show it.index < it.count by omega)
    cases hp : p c with
    | true =>
      exact Or.inr ⟨it.index, c, by simp only [findLoop, hnext, hp, if_true], Nat.le_refl _,
        by omega, hitem, hp⟩
    | false =>
      have hloop : findLoop overflowChecks p (fuel + 1) it =
          findLoop overflowChecks p fuel { it with index := it.index + 1 } := by
        simp only [findLoop, hnext, hp, Bool.false_eq_true, if_false]
      rw [hloop]
      have hrest := @ih { it with index := it.index + 1 } hstep
        (show it.index + 1 + fuel = it.count by omega)
      rcases hrest with ⟨hnone, hall⟩ | ⟨i, d, hsome, hle, h⟩
      · refine Or.inl ⟨hnone, fun i d hle hlt hd => ?_⟩
        rcases Nat.eq_or_lt_of_le hle with rfl | hlt'
        · rw [hd.unique hitem, hp]
        · exact hall i d hlt' hlt hd
      · exact Or.inr ⟨i, d, hsome, Nat.le_of_succ_le hle, h⟩

end SubnetIter

/-! ## The parts of a network -/

section

variable {overflowChecks : Bool} {c : Cidr} {newPrefix : Nat}

theorem Cidr.subnets_of_lt (overflowChecks : Bool) (hle : c.prefixLen ≤ newPrefix)
    (hmax : newPrefix ≤ c.maxPrefix) (hcount : newPrefix - c.prefixLen < 128) :
    ∃ it, c.subnets overflowChecks newPrefix = some (.ok it) ∧ it.base = c.addr ∧
      it.newPrefix = newPrefix ∧ it.index = 0 ∧ it.count = 2 ^ (newPrefix - c.prefixLen) := by
  have hshl := shl_of_lt overflowChecks 1 hcount
  unfold subnets
  rw [dif_neg (Nat.not_lt.mpr hmax), dif_neg (Nat.not_lt.mpr hle)]
  split
  next hnone => rw [hshl] at hnone; cases hnone
  next count hsome =>
    refine ⟨_, rfl, rfl, rfl, rfl, ?_⟩
    show count.toNat = 2 ^ (newPrefix - c.prefixLen)
    rw [hshl] at hsome
    rw [← Option.some.inj hsome, BitVec.toNat_shiftLeft, Nat.shiftLeft_eq]
    rw [show (1 : BitVec 128).toNat = 1 from rfl, Nat.one_mul]
    exact Nat.mod_eq_of_lt (Nat.pow_lt_pow_right (by decide) hcount)

theorem Cidr.size_eq_mul (hle : c.prefixLen ≤ newPrefix) (hmax : newPrefix ≤ c.maxPrefix) :
    c.size = 2 ^ (newPrefix - c.prefixLen) * 2 ^ (c.maxPrefix - newPrefix) := by
  rw [Cidr.size, ← pow_add]
  congr 1
  omega

theorem SubnetIter.toNat_item {it : SubnetIter} (hbase : it.base = c.addr)
    (hbits : it.newPrefix = newPrefix) (hle : c.prefixLen ≤ newPrefix) {i : Nat}
    (hi : i < 2 ^ (newPrefix - c.prefixLen)) :
    (it.base.wrappingAdd (BitVec.ofNat 128 i <<< it.stepBits)).toNat =
      c.addr.toNat + i * 2 ^ (c.maxPrefix - newPrefix) := by
  have hmaxle := c.addr.maxPrefix_le
  have hnew : newPrefix ≤ c.maxPrefix := by
    have h := it.le_max
    rwa [hbits, hbase] at h
  have hstepBits : it.stepBits = c.maxPrefix - newPrefix := by
    rw [it.stepBits_eq, hbits, hbase]
    rfl
  have hend := c.addr_add_size_le
  have hpow : 2 ^ c.maxPrefix ≤ 2 ^ 128 := Nat.pow_le_pow_right (by decide) hmaxle
  have hone : 1 ≤ 2 ^ (c.maxPrefix - newPrefix) := Nat.one_le_two_pow
  have hlt : i * 2 ^ (c.maxPrefix - newPrefix) < c.size := by
    rw [Cidr.size_eq_mul hle hnew]
    exact Nat.mul_lt_mul_of_pos_right hi hone
  have hilt : i ≤ i * 2 ^ (c.maxPrefix - newPrefix) := Nat.le_mul_of_pos_right i hone
  have hfits : i * 2 ^ (c.maxPrefix - newPrefix) < 2 ^ 128 := by omega
  have hoff : (BitVec.ofNat 128 i <<< it.stepBits).toNat =
      i * 2 ^ (c.maxPrefix - newPrefix) := by
    rw [BitVec.toNat_shiftLeft, BitVec.toNat_ofNat, Nat.mod_eq_of_lt (hilt.trans_lt hfits),
      Nat.shiftLeft_eq, hstepBits, Nat.mod_eq_of_lt hfits]
  rw [IpAddr.toNat_wrappingAdd, hoff, hbase]
  exact Nat.mod_eq_of_lt (show _ < 2 ^ c.maxPrefix by omega)

theorem SubnetIter.isItem_iff {it : SubnetIter} (hbase : it.base = c.addr)
    (hbits : it.newPrefix = newPrefix) (hle : c.prefixLen ≤ newPrefix) (d : Cidr) :
    (∃ i < 2 ^ (newPrefix - c.prefixLen), it.IsItem i d) ↔
      d.prefixLen = newPrefix ∧ c.contains d.addr = true := by
  have hnew : newPrefix ≤ c.maxPrefix := by
    have h := it.le_max
    rwa [hbits, hbase] at h
  have hsize := Cidr.size_eq_mul hle hnew
  have hone : 1 ≤ 2 ^ (c.maxPrefix - newPrefix) := Nat.one_le_two_pow
  have haddr (i : Nat) (hi : i < 2 ^ (newPrefix - c.prefixLen)) :=
    SubnetIter.toNat_item hbase hbits hle hi
  constructor
  · rintro ⟨i, hi, hlen, hd⟩
    refine ⟨hlen.trans hbits, Cidr.contains_iff.mpr ?_⟩
    have hlt : i * 2 ^ (c.maxPrefix - newPrefix) < c.size := by
      rw [hsize]
      exact Nat.mul_lt_mul_of_pos_right hi hone
    rw [hd, haddr i hi, IpAddr.maxPrefix_wrappingAdd, hbase]
    exact ⟨rfl, Nat.le_add_right _ _, Nat.add_lt_add_left hlt _⟩
  · rintro ⟨hlen, hd⟩
    obtain ⟨hmaxd, hlo, hhi⟩ := Cidr.contains_iff.mp hd
    have hdsize : d.size = 2 ^ (c.maxPrefix - newPrefix) := by
      rw [Cidr.size, hlen]
      exact congrArg (fun m => 2 ^ (m - newPrefix)) hmaxd
    have hdvd : d.size ∣ d.addr.toNat - c.addr.toNat := by
      refine Nat.dvd_sub d.size_dvd (Dvd.dvd.trans ?_ c.size_dvd)
      rw [hdsize, hsize]
      exact Dvd.intro_left _ rfl
    obtain ⟨i, hi⟩ := hdvd
    rw [hdsize, Nat.mul_comm] at hi
    have hlt : i < 2 ^ (newPrefix - c.prefixLen) := by
      have hlt : i * 2 ^ (c.maxPrefix - newPrefix) <
          2 ^ (newPrefix - c.prefixLen) * 2 ^ (c.maxPrefix - newPrefix) := by
        rw [← hi, ← hsize]
        omega
      exact Nat.lt_of_mul_lt_mul_right hlt
    refine ⟨i, hlt, hlen.trans hbits.symm, IpAddr.eq_of_toNat_eq ?_ ?_⟩
    · rw [IpAddr.maxPrefix_wrappingAdd, hbase, hmaxd]
      rfl
    · rw [haddr i hlt, ← hi]
      omega

end

/-! ## Partitions -/

/-- Whether one of the networks has the first address of the other one. -/
def Cidr.overlaps (c d : Cidr) : Bool := c.contains d.network || d.contains c.network

/-- What the iterator yields until it ends. -/
inductive SubnetIter.Yields (overflowChecks : Bool) : SubnetIter → List Cidr → Prop
  | done {it : SubnetIter} : it.next overflowChecks = some none → Yields overflowChecks it []
  | more {it rest : SubnetIter} {c : Cidr} {cs : List Cidr} :
    it.next overflowChecks = some (some (c, rest)) → Yields overflowChecks rest cs →
      Yields overflowChecks it (c :: cs)

/-- The parts of a network with a longer prefix are found without an overflow, as many as there
should be, without a common address, and they have all its addresses. -/
def Cidr.Partitioned (c : Cidr) (newPrefix : Nat) : Prop :=
  ∃ it cs, c.subnets true newPrefix = some (.ok it) ∧ it.Yields true cs ∧
    cs.length = 2 ^ (newPrefix - c.prefixLen) ∧
    (cs.Pairwise fun a b => a.overlaps b = false) ∧
    ∀ ip, c.contains ip = true ↔ ∃ d ∈ cs, d.contains ip = true

theorem Cidr.contains_network_of_common {c d : Cidr} (hlen : c.prefixLen ≤ d.prefixLen)
    {ip : IpAddr} (hc : c.contains ip = true) (hd : d.contains ip = true) :
    c.contains d.network = true := by
  obtain ⟨hmaxc, hlow, hhigh⟩ := contains_iff.mp hc
  obtain ⟨hmaxd, hlow', hhigh'⟩ := contains_iff.mp hd
  have hmax : d.maxPrefix = c.maxPrefix := hmaxd.symm.trans hmaxc
  have hdvd : d.size ∣ c.size := by
    rw [size, size, hmax]
    exact Nat.pow_dvd_pow 2 (Nat.sub_le_sub_left hlen _)
  refine contains_iff.mpr ⟨hmax, ?_, Nat.lt_of_le_of_lt hlow' hhigh⟩
  obtain ⟨m, hm⟩ := hdvd.trans c.size_dvd
  obtain ⟨n, hn⟩ := d.size_dvd
  have hlt : d.size * m < d.size * (n + 1) := by
    rw [← hm, Nat.mul_succ, ← hn]
    exact Nat.lt_of_le_of_lt hlow hhigh'
  have hle : m ≤ n := Nat.le_of_lt_succ (Nat.lt_of_mul_lt_mul_left hlt)
  change c.addr.toNat ≤ d.addr.toNat
  rw [hm, hn]
  exact Nat.mul_le_mul_left _ hle

theorem Cidr.overlaps_iff {c d : Cidr} :
    c.overlaps d = true ↔ ∃ ip, c.contains ip = true ∧ d.contains ip = true := by
  rw [overlaps, Bool.or_eq_true]
  constructor
  · rintro (h | h)
    · exact ⟨d.network, h, d.contains_network⟩
    · exact ⟨c.network, c.contains_network, h⟩
  · rintro ⟨ip, hc, hd⟩
    obtain hle | hle := Nat.le_total c.prefixLen d.prefixLen
    · exact Or.inl (contains_network_of_common hle hc hd)
    · exact Or.inr (contains_network_of_common hle hd hc)

namespace SubnetIter

theorem yields_items (overflowChecks : Bool) {it : SubnetIter} {left : Nat}
    (hstep : it.stepBits < 128) (hleft : it.index + left = it.count) :
    ∃ cs, it.Yields overflowChecks cs ∧ cs.length = left ∧
      ∀ (i : Nat) (c : Cidr), cs[i]? = some c → it.IsItem (it.index + i) c := by
  induction left generalizing it with
  | zero =>
    have hend : it.next overflowChecks = some none := by
      rw [next, dif_pos (by omega)]
    exact ⟨[], .done hend, rfl, fun i c hi => by cases hi⟩
  | succ left ih =>
    obtain ⟨c, hnext, hitem⟩ := next_of_lt overflowChecks hstep
      (show it.index < it.count by omega)
    obtain ⟨cs, hyields, hlength, hitems⟩ := @ih { it with index := it.index + 1 } hstep
      (show it.index + 1 + left = it.count by omega)
    refine ⟨c :: cs, .more hnext hyields, congrArg (· + 1) hlength, fun i d hi => ?_⟩
    cases i with
    | zero =>
      rw [← Option.some.inj hi]
      exact hitem
    | succ i =>
      have hd := hitems i d hi
      rwa [show it.index + 1 + i = it.index + (i + 1) by omega] at hd

end SubnetIter

variable {c : Cidr} {newPrefix : Nat}

theorem Cidr.partitioned_of_lt (hle : c.prefixLen ≤ newPrefix) (hmax : newPrefix ≤ c.maxPrefix)
    (hcount : newPrefix - c.prefixLen < 128) (hstep : c.maxPrefix - newPrefix < 128) :
    c.Partitioned newPrefix := by
  obtain ⟨it, hsubnets, hbase, hbits, hindex, hitcount⟩ := subnets_of_lt true hle hmax hcount
  have hstepBits : it.stepBits = c.maxPrefix - newPrefix := by
    rw [it.stepBits_eq, hbits, hbase]
    rfl
  obtain ⟨cs, hyields, hlength, hitems⟩ :=
    SubnetIter.yields_items true (hstepBits ▸ hstep) (show it.index + it.count = it.count by omega)
  rw [hindex] at hitems
  simp only [Nat.zero_add] at hitems
  rw [hitcount] at hlength
  refine ⟨it, cs, hsubnets, hyields, hlength, ?_, fun ip => ?_⟩
  · -- parts with a common address are the same, and so are their positions
    rw [List.pairwise_iff_getElem]
    intro i j hi hj hij
    rw [← Bool.not_eq_true, overlaps_iff]
    rintro ⟨ip, hci, hcj⟩
    have hitemi := hitems i _ (List.getElem?_eq_getElem hi)
    have hitemj := hitems j _ (List.getElem?_eq_getElem hj)
    have hsame := eq_of_contains (hitemi.1.trans hitemj.1.symm) hci hcj
    have haddr := congrArg IpAddr.toNat
      (hitemi.2.symm.trans ((congrArg Cidr.addr hsame).trans hitemj.2))
    rw [SubnetIter.toNat_item hbase hbits hle (hlength ▸ hi),
      SubnetIter.toNat_item hbase hbits hle (hlength ▸ hj)] at haddr
    have hpos := Nat.two_pow_pos (c.maxPrefix - newPrefix)
    have heq := Nat.eq_of_mul_eq_mul_right hpos (Nat.add_left_cancel haddr)
    omega
  · have hmem (d : Cidr) : d ∈ cs ↔ d.prefixLen = newPrefix ∧ c.contains d.addr = true := by
      rw [← SubnetIter.isItem_iff hbase hbits hle]
      constructor
      · intro hd
        obtain ⟨i, hi, rfl⟩ := List.getElem_of_mem hd
        exact ⟨i, hlength ▸ hi, hitems i _ (List.getElem?_eq_getElem hi)⟩
      · rintro ⟨i, hi, hitem⟩
        have hi' : i < cs.length := hlength.symm ▸ hi
        rw [hitem.unique (hitems i _ (List.getElem?_eq_getElem hi'))]
        exact List.getElem_mem hi'
    constructor
    · intro hip
      have hlen : newPrefix ≤ ip.maxPrefix := (contains_iff.mp hip).1 ▸ hmax
      let d : Cidr := ⟨maskAddr ip newPrefix, newPrefix, by rwa [maxPrefix_maskAddr],
        maskAddr_maskAddr hlen⟩
      have hd : d.contains ip = true := by
        rw [contains_iff, ← AddressBlock.div_mul_eq_iff d.size_pos d.size_dvd]
        refine ⟨(maxPrefix_maskAddr ip newPrefix).symm, ?_⟩
        change ip.toNat / 2 ^ ((maskAddr ip newPrefix).maxPrefix - newPrefix) * _ =
          (maskAddr ip newPrefix).toNat
        rw [toNat_maskAddr hlen, size, maxPrefix]
        rw [maxPrefix_maskAddr]
      exact ⟨d, (hmem d).mpr ⟨rfl, contains_network_of_common hle hip hd⟩, hd⟩
    · rintro ⟨d, hd, hdip⟩
      obtain ⟨hlen, hdc⟩ := (hmem d).mp hd
      exact contains_of_contains_network (hlen.symm ▸ hle) hdc hdip

/-- **Parts of a network.**  They are found without an overflow and partition it except where all
addresses of the longer kind are to be cut into one part or into single addresses; and networks
overlap if and only if they have an address in common. -/
theorem Cidr.partitioned_iff (hle : c.prefixLen ≤ newPrefix) (hmax : newPrefix ≤ c.maxPrefix) :
    (c.Partitioned newPrefix ↔
      ¬ (c.maxPrefix = 128 ∧ c.prefixLen = 0 ∧ (newPrefix = 0 ∨ newPrefix = 128))) ∧
      ∀ a b : Cidr, a.overlaps b = true ↔ ∃ ip, a.contains ip = true ∧ b.contains ip = true := by
  have hwidth : c.maxPrefix = 32 ∨ c.maxPrefix = 128 := by
    unfold maxPrefix
    cases c.addr
    · exact Or.inl rfl
    · exact Or.inr rfl
  refine ⟨⟨?_, fun h => ?_⟩, fun a b => overlaps_iff⟩
  · rintro ⟨it, cs, hsubnets, hyields, -⟩ ⟨hlong, hzero, rfl | rfl⟩
    · -- the step is a shift by the whole width
      obtain ⟨it', hsubnets', hbase, hbits, hindex, hcount⟩ :=
        subnets_of_lt true hle hmax (by omega)
      obtain rfl : it' = it := Except.ok.inj (Option.some.inj (hsubnets'.symm.trans hsubnets))
      have hstep : it'.stepBits = 128 := by
        rw [it'.stepBits_eq, hbits, hbase]
        exact hlong
      have hnext : it'.next true = none := by
        unfold SubnetIter.next
        rw [dif_neg (by rw [hindex, hcount]; exact Nat.not_le.mpr (Nat.two_pow_pos _))]
        split
        next => rfl
        next offset hsome =>
          rw [hstep] at hsome
          cases hsome
      cases hyields with
      | done hend => rw [hnext] at hend; cases hend
      | more hmore _ => rw [hnext] at hmore; cases hmore
    · -- so is the count
      unfold subnets at hsubnets
      rw [dif_neg (Nat.not_lt.mpr hmax), dif_neg (Nat.not_lt.mpr hle)] at hsubnets
      split at hsubnets
      next => cases hsubnets
      next count hcount =>
        rw [hzero] at hcount
        cases hcount
  · refine partitioned_of_lt hle hmax ?_ ?_
    · omega
    · omega

theorem partitioned_iff_pods :
    ((⟨.v4 0x0A2A0000, 16, by decide, by decide⟩ : Cidr).Partitioned 24 ↔
      ¬ (Cidr.maxPrefix ⟨.v4 0x0A2A0000, 16, by decide, by decide⟩ = 128 ∧
        (⟨.v4 0x0A2A0000, 16, by decide, by decide⟩ : Cidr).prefixLen = 0 ∧ (24 = 0 ∨ 24 = 128))) ∧
      ∀ a b : Cidr, a.overlaps b = true ↔ ∃ ip, a.contains ip = true ∧ b.contains ip = true :=
  Cidr.partitioned_iff (by decide) (by decide)

/-- All addresses of the longer kind, cut into single ones: the count is shifted out of its type. -/
theorem count_overflows :
    Cidr.subnets true ⟨.v6 0, 0, by decide, by decide⟩ 128 = none ∧
      ¬ (⟨.v6 0, 0, by decide, by decide⟩ : Cidr).Partitioned 128 := by
  have hnone : Cidr.subnets true ⟨.v6 0, 0, by decide, by decide⟩ 128 = none := by decide
  refine ⟨hnone, ?_⟩
  rintro ⟨it, cs, hsubnets, -⟩
  rw [hnone] at hsubnets
  cases hsubnets

end CaveHome.Flannel
