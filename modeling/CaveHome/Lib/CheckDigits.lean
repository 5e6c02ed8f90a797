import Mathlib.Algebra.Group.Basic
import Mathlib.Data.List.Basic

/-!
# Check digits over a group

The product of the values of a word, where the value of a letter depends on its place.  Changing a
letter changes the product when the values at its place are different, and so does exchanging two
neighbours when their values in the two orders have different products.
-/

namespace CaveHome.CheckDigits

variable {G α : Type*} [Group G]

/-- The product of the values of the letters, from place `i` on. -/
def weighted (value : ℕ → α → G) : ℕ → List α → G
  | _, [] => 1
  | i, a :: l => value i a * weighted value (i + 1) l

variable {value : ℕ → α → G}

theorem weighted_append (i : ℕ) (l l' : List α) :
    weighted value i (l ++ l') = weighted value i l * weighted value (i + l.length) l' := by
  induction l generalizing i with
  | nil => rw [List.nil_append, weighted, one_mul, List.length_nil, Nat.add_zero]
  | cons a l ih =>
    rw [List.cons_append, weighted, weighted, ih, mul_assoc, List.length_cons,
      Nat.add_right_comm, Nat.add_assoc]

theorem weighted_change_iff {i : ℕ} {front back : List α} {a b : α}
    (h : Function.Injective (value (i + front.length))) :
    weighted value i (front ++ a :: back) = weighted value i (front ++ b :: back) ↔ a = b := by
  rw [weighted_append, weighted_append, weighted, weighted, mul_left_cancel_iff,
    mul_right_cancel_iff, h.eq_iff]

theorem weighted_swap_iff {i k : ℕ} {front back : List α} {a b : α} (hk : k = i + front.length) :
    weighted value i (front ++ a :: b :: back) = weighted value i (front ++ b :: a :: back) ↔
      value k a * value (k + 1) b = value k b * value (k + 1) a := by
  subst hk
  rw [weighted_append, weighted_append, mul_left_cancel_iff]
  simp only [weighted]
  rw [← mul_assoc, ← mul_assoc, mul_right_cancel_iff]

end CaveHome.CheckDigits
