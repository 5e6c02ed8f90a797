import Mathlib.Data.Nat.Digits.Lemmas

/-!
# Digits

The digits of a number in a base: a fixed number of them, with the least significant one first, and
what reading and changing one of them does to the number; then as many as it is written with.
-/

namespace CaveHome.Radix

/-- The lowest `w` digits of a number. -/
def lowDigits (b : Nat) : Nat → Nat → List Nat
  | 0, _ => []
  | w + 1, n => n % b :: lowDigits b w (n / b)

@[simp] theorem length_lowDigits (b w n : Nat) : (lowDigits b w n).length = w := by
  induction w generalizing n with
  | zero => rfl
  | succ w ih => rw [lowDigits, List.length_cons, ih]

theorem ofDigits_lowDigits (b w n : Nat) : Nat.ofDigits b (lowDigits b w n) = n % b ^ w := by
  induction w generalizing n with
  | zero => rw [lowDigits, Nat.ofDigits_nil, pow_zero, Nat.mod_one]
  | succ w ih =>
    rw [lowDigits, Nat.ofDigits_cons, ih, Nat.pow_succ', Nat.mod_mul]

theorem ofDigits_lowDigits_of_lt {b w n : Nat} (h : n < b ^ w) :
    Nat.ofDigits b (lowDigits b w n) = n := by
  rw [ofDigits_lowDigits, Nat.mod_eq_of_lt h]

section Digits

variable {b : Nat} {ds : List Nat}

theorem lowDigits_ofDigits (h : ∀ d ∈ ds, d < b) :
    lowDigits b ds.length (Nat.ofDigits b ds) = ds := by
  induction ds with
  | nil => rfl
  | cons d ds ih =>
    have hd : d < b := h d List.mem_cons_self
    have hmod : (d + b * Nat.ofDigits b ds) % b = d := by
      rw [Nat.add_mul_mod_self_left, Nat.mod_eq_of_lt hd]
    have hdiv : (d + b * Nat.ofDigits b ds) / b = Nat.ofDigits b ds := by
      rw [Nat.add_mul_div_left d _ (by omega), Nat.div_eq_of_lt hd, Nat.zero_add]
    rw [List.length_cons, lowDigits, Nat.ofDigits_cons, hmod, hdiv,
      ih fun d hd => h d (List.mem_cons_of_mem _ hd)]

theorem ofDigits_lt (h : ∀ d ∈ ds, d < b) : Nat.ofDigits b ds < b ^ ds.length := by
  induction ds with
  | nil => simp
  | cons d ds ih =>
    have hd : d < b := h d List.mem_cons_self
    have hrest := ih fun d hd => h d (List.mem_cons_of_mem _ hd)
    rw [Nat.ofDigits_cons, List.length_cons, Nat.pow_succ']
    calc d + b * Nat.ofDigits b ds < b * (Nat.ofDigits b ds + 1) := by rw [Nat.mul_succ]; omega
      _ ≤ b * b ^ ds.length := Nat.mul_le_mul_left b hrest

theorem ofDigits_div_mod (h : ∀ d ∈ ds, d < b) (k : Nat) :
    Nat.ofDigits b ds / b ^ k % b = ds.getD k 0 := by
  induction ds generalizing k with
  | nil => simp
  | cons d ds ih =>
    have hd : d < b := h d List.mem_cons_self
    rw [Nat.ofDigits_cons]
    cases k with
    | zero => rw [pow_zero, Nat.div_one, Nat.add_mul_mod_self_left, Nat.mod_eq_of_lt hd]; rfl
    | succ k =>
      rw [Nat.pow_succ', ← Nat.div_div_eq_div_mul, Nat.add_mul_div_left d _ (by omega),
        Nat.div_eq_of_lt hd, Nat.zero_add, ih fun d hd => h d (List.mem_cons_of_mem _ hd)]
      rfl

theorem ofDigits_set_add (d : Nat) {k : Nat} (hk : k < ds.length) :
    Nat.ofDigits b (ds.set k (ds.getD k 0 + d)) = Nat.ofDigits b ds + d * b ^ k := by
  induction ds generalizing k with
  | nil => simp at hk
  | cons x ds ih =>
    cases k with
    | zero =>
      rw [List.set_cons_zero, Nat.ofDigits_cons, Nat.ofDigits_cons, List.getD_cons_zero]
      rw [pow_zero, Nat.mul_one]
      omega
    | succ k =>
      have hk' : k < ds.length := Nat.lt_of_succ_lt_succ hk
      rw [List.set_cons_succ, List.getD_cons_succ, Nat.ofDigits_cons, Nat.ofDigits_cons, ih hk',
        Nat.mul_add, ← Nat.add_assoc, Nat.pow_succ']
      ring

end Digits

end CaveHome.Radix

/-!
## Written numbers

The digits of a number in a base, the most significant one first and without zeros in front, and the
number that a list of digits stands for.
-/

namespace CaveHome.Positional

/-- The digits that a number is written with. -/
def written (b n : ℕ) : List ℕ := if n = 0 then [0] else (Nat.digits b n).reverse

/-- The number that digits stand for. -/
def read (b : ℕ) (ds : List ℕ) : ℕ := ds.foldl (fun n d => n * b + d) 0

/-- No zero stands in front of another digit. -/
structure Canonical (b : ℕ) (ds : List ℕ) : Prop where
  ne_nil : ds ≠ []
  lt : ∀ d ∈ ds, d < b
  head : ds.head? = some 0 → ds.length = 1

theorem read_eq_ofDigits (b : ℕ) (ds : List ℕ) : read b ds = Nat.ofDigits b ds.reverse := by
  rw [Nat.ofDigits_eq_foldr, List.foldr_reverse, read]
  congr 1
  funext n d
  simp [Nat.add_comm, Nat.mul_comm]

theorem read_written (b n : ℕ) : read b (written b n) = n := by
  unfold written
  split
  next h => rw [h]; exact Nat.zero_mul b
  next => rw [read_eq_ofDigits, List.reverse_reverse, Nat.ofDigits_digits]

section Base

variable {b : ℕ} (hb : 1 < b)
include hb

theorem canonical_written (n : ℕ) : Canonical b (written b n) := by
  unfold written
  split
  next =>
    refine ⟨List.cons_ne_nil _ _, fun d hd => ?_, fun _ => rfl⟩
    rw [List.mem_singleton.mp hd]
    exact Nat.zero_lt_of_lt hb
  next h =>
    have hne : Nat.digits b n ≠ [] := Nat.digits_ne_nil_iff_ne_zero.mpr h
    refine ⟨List.reverse_ne_nil_iff.mpr hne, fun d hd => ?_, fun hhead => ?_⟩
    · exact Nat.digits_lt_base hb (List.mem_reverse.mp hd)
    · rw [List.head?_reverse, List.getLast?_eq_some_getLast hne] at hhead
      exact absurd (Option.some.inj hhead) (Nat.getLast_digit_ne_zero b h)

theorem written_read {ds : List ℕ} (h : Canonical b ds) : written b (read b ds) = ds := by
  obtain ⟨hne, hlt, hhead⟩ := h
  obtain ⟨d, rest, rfl⟩ := List.exists_cons_of_ne_nil hne
  by_cases hd : d = 0
  · subst hd
    obtain rfl := List.length_eq_zero_iff.mp (Nat.succ.inj (hhead rfl))
    have hzero : read b [0] = 0 := by rw [read, List.foldl_cons, Nat.zero_mul]; rfl
    rw [hzero, written, if_pos rfl]
  · have hdigits : Nat.digits b (read b (d :: rest)) = (d :: rest).reverse := by
      rw [read_eq_ofDigits]
      refine Nat.digits_ofDigits b hb _ (fun l hl => hlt l (List.mem_reverse.mp hl)) fun h => ?_
      rw [List.getLast_reverse]
      exact hd
    have hzero : read b (d :: rest) ≠ 0 := by
      rw [← Nat.digits_ne_nil_iff_ne_zero (b := b), hdigits]
      exact List.reverse_ne_nil_iff.mpr hne
    rw [written, if_neg hzero, hdigits, List.reverse_reverse]

theorem toDigits_eq (n : ℕ) : Nat.toDigits b n = (written b n).map Nat.digitChar := by
  induction n using Nat.strongRecOn with
  | ind n ih =>
    rw [Nat.toDigits_eq_if hb]
    split
    next hlt =>
      unfold written
      split
      next hzero => rw [hzero]; rfl
      next hzero => rw [Nat.digits_of_lt b n hzero hlt]; rfl
    next hle =>
      have hpos : 0 < n := by omega
      have hdiv : n / b ≠ 0 := Nat.div_ne_zero_iff.mpr ⟨by omega, by omega⟩
      rw [ih (n / b) (Nat.div_lt_self hpos hb), written, if_neg hdiv, written,
        if_neg (Nat.pos_iff_ne_zero.mp hpos), Nat.digits_def' hb hpos, List.reverse_cons,
        List.map_append, List.map_singleton]

end Base

end CaveHome.Positional

namespace CaveHome.Radix

theorem shiftLeft_div_or_mod (n k : Nat) : (n / 2 ^ k) <<< k ||| n % 2 ^ k = n := by
  rw [← Nat.shiftLeft_add_eq_or_of_lt (Nat.mod_lt _ (Nat.two_pow_pos k)), Nat.shiftLeft_eq,
    Nat.div_add_mod']

theorem uint16_halves (x : UInt16) :
    (x >>> 8).toUInt8.toUInt16 <<< 8 ||| x.toUInt8.toUInt16 = x := by
  have hx : x.toNat < 65536 := x.toNat_lt
  have hhigh : (x.toNat / 2 ^ 8 % 256) <<< 8 % 65536 = (x.toNat / 2 ^ 8) <<< 8 := by
    rw [Nat.shiftLeft_eq, Nat.shiftLeft_eq]
    omega
  rw [← UInt16.toNat_inj]
  simp only [UInt16.toNat_or, UInt16.toNat_shiftLeft, UInt8.toNat_toUInt16, UInt16.toNat_toUInt8,
    UInt16.toNat_shiftRight, UInt16.reduceToNat, Nat.reduceMod, Nat.shiftRight_eq_div_pow]
  rw [hhigh]
  exact shiftLeft_div_or_mod x.toNat 8

theorem uint32_halves (x : UInt32) :
    (x >>> 16).toUInt16.toUInt32 <<< 16 ||| x.toUInt16.toUInt32 = x := by
  have hx : x.toNat < 4294967296 := x.toNat_lt
  have hhigh : (x.toNat / 2 ^ 16 % 65536) <<< 16 % 4294967296 = (x.toNat / 2 ^ 16) <<< 16 := by
    rw [Nat.shiftLeft_eq, Nat.shiftLeft_eq]
    omega
  rw [← UInt32.toNat_inj]
  simp only [UInt32.toNat_or, UInt32.toNat_shiftLeft, UInt16.toNat_toUInt32, UInt32.toNat_toUInt16,
    UInt32.toNat_shiftRight, UInt32.reduceToNat, Nat.reduceMod, Nat.shiftRight_eq_div_pow]
  rw [hhigh]
  exact shiftLeft_div_or_mod x.toNat 16

end CaveHome.Radix
