import Mathlib.Data.Nat.Bitwise

/-!
# Blocks of addresses

Addresses of `w` bits that agree on their first `p` bits form a block of `2 ^ (w - p)` addresses.
A block is found from any of its addresses by clearing the other bits.
-/

namespace CaveHome.AddressBlock

/-- The first `p` of `w` bits. -/
def mask (w p : Nat) : BitVec w :=
  if p = 0 then 0 else if w ≤ p then BitVec.allOnes w else BitVec.allOnes w <<< (w - p)

variable {w p : Nat}

theorem and_mask (h : p ≤ w) (x : BitVec w) : x &&& mask w p = (x >>> (w - p)) <<< (w - p) := by
  apply BitVec.eq_of_getLsbD_eq
  intro i hi
  unfold mask
  split_ifs with h0 hw
  · simp [hi, h0]
  · have hp : w - p = 0 := by omega
    simp [hi, hp]
  · by_cases hlow : i < w - p
    · simp [hi, hlow]
    · have hsub : w - p + (i - (w - p)) = i := by omega
      simp [hi, hlow, hsub]

theorem toNat_and_mask (h : p ≤ w) (x : BitVec w) :
    (x &&& mask w p).toNat = x.toNat / 2 ^ (w - p) * 2 ^ (w - p) := by
  have hlt : x.toNat / 2 ^ (w - p) * 2 ^ (w - p) < 2 ^ w :=
    lt_of_le_of_lt (Nat.div_mul_le_self _ _) x.isLt
  rw [and_mask h, BitVec.toNat_shiftLeft, BitVec.toNat_ushiftRight, Nat.shiftRight_eq_div_pow,
    Nat.shiftLeft_eq, Nat.mod_eq_of_lt hlt]

theorem and_mask_eq_iff (h : p ≤ w) (x y : BitVec w) :
    x &&& mask w p = y ↔ x.toNat / 2 ^ (w - p) * 2 ^ (w - p) = y.toNat := by
  rw [← BitVec.toNat_inj, toNat_and_mask h]

theorem div_mul_eq_iff {size net a : Nat} (hsize : 0 < size) (hnet : size ∣ net) :
    a / size * size = net ↔ net ≤ a ∧ a < net + size := by
  obtain ⟨k, rfl⟩ := hnet
  have hdiv := Nat.div_add_mod a size
  have hmod := Nat.mod_lt a hsize
  constructor
  · intro h
    rw [Nat.mul_comm] at h
    omega
  · rintro ⟨hle, hlt⟩
    have hk : a / size = k := by
      apply Nat.div_eq_of_lt_le
      · rwa [Nat.mul_comm]
      · rw [Nat.succ_mul, Nat.mul_comm]
        exact hlt
    rw [hk, Nat.mul_comm]

theorem eq_of_mem_of_mem {size net net' a : Nat} (hnet : size ∣ net) (hnet' : size ∣ net')
    (h : net ≤ a ∧ a < net + size) (h' : net' ≤ a ∧ a < net' + size) : net = net' := by
  have hsize : 0 < size := by omega
  rw [← (div_mul_eq_iff hsize hnet).mpr h, ← (div_mul_eq_iff hsize hnet').mpr h']

theorem le_and_add_le {size small net sub : Nat} (hsmall : small ∣ size) (hnet : small ∣ net)
    (hsub : small ∣ sub) (hmem : net ≤ sub ∧ sub < net + size) :
    net ≤ sub ∧ sub + small ≤ net + size := by
  obtain ⟨a, rfl⟩ := hsmall
  obtain ⟨b, rfl⟩ := hnet
  obtain ⟨c, rfl⟩ := hsub
  refine ⟨hmem.1, ?_⟩
  have hlt : small * c < small * (b + a) := by rw [Nat.mul_add]; exact hmem.2
  have hle : c + 1 ≤ b + a := Nat.lt_of_mul_lt_mul_left hlt
  calc small * c + small = small * (c + 1) := (Nat.mul_succ small c).symm
    _ ≤ small * (b + a) := Nat.mul_le_mul_left small hle
    _ = small * b + small * a := Nat.mul_add small b a

end CaveHome.AddressBlock
