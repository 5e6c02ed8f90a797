import CaveHome.Lib.MachineData

/-!
# Taking back with saturation

Numbers are taken from a signed 64-bit number one after the other, each time stopping at the ends of
the range.  What is left is the exact difference, moved into an interval that depends on the numbers
only.
-/

namespace I64

/-- A signed 64-bit number. -/
def Fits (x : Int) : Prop := minValue ≤ x ∧ x ≤ maxValue

instance (x : Int) : Decidable (Fits x) := inferInstanceAs (Decidable (_ ∧ _))

theorem fits_wrappingAdd (a b : Int) : Fits (wrappingAdd a b) := by
  unfold Fits wrappingAdd minValue maxValue
  omega

theorem fits_saturatingSub (a b : Int) : Fits (saturatingSub a b) := by
  unfold Fits saturatingSub minValue maxValue
  omega

theorem saturatingSub_zero {a : Int} (h : Fits a) : saturatingSub a 0 = a :=
  (saturatingSub_eq (by rw [Int.sub_zero]; exact h.1) (by rw [Int.sub_zero]; exact h.2)).trans
    (Int.sub_zero a)

/-- Take the numbers back, one after the other. -/
def takeBack (a : Int) (qs : List Int) : Int := qs.foldl saturatingSub a

theorem takeBack_nil (a : Int) : takeBack a [] = a := rfl

theorem takeBack_cons (a q : Int) (qs : List Int) :
    takeBack a (q :: qs) = takeBack (saturatingSub a q) qs := rfl

theorem fits_takeBack {a : Int} (h : Fits a) (qs : List Int) : Fits (takeBack a qs) := by
  induction qs generalizing a with
  | nil => exact h
  | cons q qs ih => exact ih (fits_saturatingSub a q)

theorem takeBack_of_nonneg {a : Int} (h : Fits a) {qs : List Int} (hqs : ∀ q ∈ qs, 0 ≤ q) :
    takeBack a qs = max minValue (a - qs.sum) := by
  induction qs generalizing a with
  | nil =>
    rw [takeBack_nil, List.sum_nil, Int.sub_zero]
    exact (max_eq_right h.1).symm
  | cons q qs ih =>
    have hq : 0 ≤ q := hqs q List.mem_cons_self
    have hrest : 0 ≤ qs.sum := List.sum_nonneg fun x hx => hqs x (List.mem_cons_of_mem q hx)
    obtain ⟨hmin, hmax⟩ := h
    rw [takeBack_cons, ih (fits_saturatingSub a q) fun x hx => hqs x (List.mem_cons_of_mem q hx),
      List.sum_cons, saturatingSub]
    omega

/-- The smallest and the largest number that taking these numbers back can lead to. -/
def bounds : List Int → Int × Int
  | [] => (minValue, maxValue)
  | _ :: qs =>
    let (low, high) := bounds qs
    (max low (min high (minValue - qs.sum)), max low (min high (maxValue - qs.sum)))

theorem bounds_ordered (qs : List Int) : (bounds qs).1 ≤ (bounds qs).2 := by
  induction qs with
  | nil => decide
  | cons q qs ih =>
    have hrange : minValue ≤ maxValue := by decide
    simp only [bounds]
    omega

theorem takeBack_eq {a : Int} (h : Fits a) (qs : List Int) :
    takeBack a qs = max (bounds qs).1 (min (bounds qs).2 (a - qs.sum)) := by
  induction qs generalizing a with
  | nil =>
    obtain ⟨hmin, hmax⟩ := h
    rw [takeBack_nil, List.sum_nil, Int.sub_zero, bounds]
    omega
  | cons q qs ih =>
    have hordered := bounds_ordered qs
    have hrange : minValue ≤ maxValue := by decide
    rw [takeBack_cons, ih (fits_saturatingSub a q), List.sum_cons, saturatingSub]
    simp only [bounds]
    generalize (bounds qs).1 = low at hordered ⊢
    generalize (bounds qs).2 = high at hordered ⊢
    generalize qs.sum = sum
    rw [max_def, min_def]
    split_ifs <;> omega

/-! ## Adding with wrap-around and taking back -/

theorem bounds_in_range (qs : List Int) : minValue ≤ (bounds qs).1 ∧ (bounds qs).2 ≤ maxValue := by
  induction qs with
  | nil => exact ⟨le_rfl, le_rfl⟩
  | cons q qs ih =>
    have hordered := bounds_ordered qs
    simp only [bounds]
    omega

theorem fits_wrap (x : Int) : Fits (wrap x) := by
  unfold Fits wrap minValue maxValue
  omega

theorem wrappingAdd_wrap (x q : Int) : wrappingAdd (wrap x) q = wrap (x + q) := by
  unfold wrappingAdd wrap
  omega

/-- Numbers that are added to a total can be taken back from it. -/
def Returnable (x : Int) (qs : List Int) : Prop :=
  (Fits (x + qs.sum) ∧ (bounds qs).1 ≤ x ∧ x ≤ (bounds qs).2) ∨
    (maxValue < x + qs.sum ∧ x = (bounds qs).1) ∨ (x + qs.sum < minValue ∧ x = (bounds qs).2)

instance (x : Int) (qs : List Int) : Decidable (Returnable x qs) :=
  inferInstanceAs (Decidable (_ ∨ _))

theorem takeBack_wrap_eq_iff {x : Int} (h : Fits x) (qs : List Int) :
    takeBack (wrap (x + qs.sum)) qs = x ↔ Returnable x qs := by
  have hordered := bounds_ordered qs
  obtain ⟨hlow, hhigh⟩ := bounds_in_range qs
  obtain ⟨hmin, hmax⟩ := h
  rw [takeBack_eq (fits_wrap _), Returnable, Fits]
  -- within the range nothing wraps, past an end the result is the opposite bound
  by_cases hbelow : x + qs.sum < minValue
  · have hfar : maxValue < wrap (x + qs.sum) - qs.sum := by
      unfold wrap minValue maxValue at *
      omega
    omega
  by_cases habove : maxValue < x + qs.sum
  · have hfar : wrap (x + qs.sum) - qs.sum < minValue := by
      unfold wrap minValue maxValue at *
      omega
    omega
  · rw [wrap_eq (not_lt.mp hbelow) (not_lt.mp habove)]
    omega

end I64
