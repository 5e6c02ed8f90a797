import CaveHome.Lib.BTreeMap

/-!
# Maps of maps

Entries under two keys, in a map of maps.  An inner map that becomes empty is taken out, so that
two such maps are equal when lookups cannot tell them apart.
-/

namespace CaveHome

abbrev NestedMap (κ ι ν : Type*) := BTreeMap κ (BTreeMap ι ν)

namespace NestedMap

variable {κ ι ν : Type*} [LinearOrder κ] [LinearOrder ι]

def get (k : κ) (i : ι) (m : NestedMap κ ι ν) : Option ν :=
  (BTreeMap.get k m).bind (BTreeMap.get i)

def insert (k : κ) (i : ι) (v : ν) (m : NestedMap κ ι ν) : NestedMap κ ι ν :=
  BTreeMap.insert k (BTreeMap.insert i v ((BTreeMap.get k m).getD [])) m

def remove (k : κ) (i : ι) (m : NestedMap κ ι ν) : NestedMap κ ι ν :=
  match BTreeMap.get k m with
  | none => m
  | some inner =>
    if (BTreeMap.remove i inner).isEmpty then BTreeMap.remove k m
    else BTreeMap.insert k (BTreeMap.remove i inner) m

/-- Both levels are in order, and no inner map is empty. -/
structure WellFormed (m : NestedMap κ ι ν) : Prop where
  sorted : BTreeMap.Sorted m
  inner_sorted : ∀ k inner, BTreeMap.get k m = some inner → BTreeMap.Sorted inner
  inner_ne_nil : ∀ k inner, BTreeMap.get k m = some inner → inner ≠ []

@[simp]
theorem get_nil (k : κ) (i : ι) : get k i ([] : NestedMap κ ι ν) = none := rfl

theorem get_insert (k : κ) (i : ι) (v : ν) (m : NestedMap κ ι ν) (k' : κ) (i' : ι) :
    get k' i' (insert k i v m) = if k' = k ∧ i' = i then some v else get k' i' m := by
  unfold get insert
  rw [BTreeMap.get_insert]
  by_cases hk : k' = k
  · subst hk
    rw [if_pos rfl, Option.bind_some, BTreeMap.get_insert]
    by_cases hi : i' = i
    · rw [if_pos hi, if_pos ⟨rfl, hi⟩]
    · rw [if_neg hi, if_neg fun h => hi h.2]
      cases BTreeMap.get k' m <;> rfl
  · rw [if_neg hk, if_neg fun h => hk h.1]

theorem get_remove (k : κ) (i : ι) (m : NestedMap κ ι ν) (k' : κ) (i' : ι) :
    get k' i' (remove k i m) = if k' = k ∧ i' = i then none else get k' i' m := by
  unfold get remove
  cases hinner : BTreeMap.get k m with
  | none =>
    by_cases h : k' = k ∧ i' = i
    · rw [if_pos h, h.1]
      simp [hinner]
    · rw [if_neg h]
  | some inner =>
    by_cases hk : k' = k
    · subst hk
      have hremoved : BTreeMap.get i' (BTreeMap.remove i inner) =
          if k' = k' ∧ i' = i then none else (BTreeMap.get k' m).bind (BTreeMap.get i') := by
        rw [BTreeMap.get_remove, hinner, Option.bind_some]
        simp
      rw [← hremoved]
      dsimp only
      split
      · rename_i hempty
        rw [List.isEmpty_iff.1 hempty, BTreeMap.get_remove, if_pos rfl]
        rfl
      · rw [BTreeMap.get_insert_self, Option.bind_some]
    · rw [if_neg fun h => hk h.1]
      dsimp only
      split
      · rw [BTreeMap.get_remove_ne hk]
      · rw [BTreeMap.get_insert_ne hk]

/-! ## Well-formed maps -/

theorem wellFormed_nil : WellFormed ([] : NestedMap κ ι ν) where
  sorted := BTreeMap.sorted_nil
  inner_sorted := by simp
  inner_ne_nil := by simp

variable {m m' : NestedMap κ ι ν}

theorem WellFormed.insert (h : WellFormed m) (k : κ) (i : ι) (v : ν) :
    WellFormed (NestedMap.insert k i v m) := by
  have hinner : BTreeMap.Sorted ((BTreeMap.get k m).getD []) := by
    cases hget : BTreeMap.get k m with
    | none => exact BTreeMap.sorted_nil
    | some inner => exact h.inner_sorted k inner hget
  refine ⟨h.sorted.insert _ _, fun k' inner hget => ?_, fun k' inner hget => ?_⟩
  · rw [NestedMap.insert, BTreeMap.get_insert] at hget
    split at hget
    · cases hget
      exact hinner.insert i v
    · exact h.inner_sorted k' inner hget
  · rw [NestedMap.insert, BTreeMap.get_insert] at hget
    split at hget
    · cases hget
      intro hnil
      have hsome := BTreeMap.get_insert_self i v ((BTreeMap.get k m).getD [])
      rw [hnil] at hsome
      cases hsome
    · exact h.inner_ne_nil k' inner hget

theorem WellFormed.remove (h : WellFormed m) (k : κ) (i : ι) :
    WellFormed (NestedMap.remove k i m) := by
  unfold NestedMap.remove
  cases hinner : BTreeMap.get k m with
  | none => exact h
  | some inner =>
    dsimp only
    split
    · refine ⟨h.sorted.remove k, fun k' inner' hget => ?_, fun k' inner' hget => ?_⟩
      all_goals
        rw [BTreeMap.get_remove] at hget
        split at hget
        · cases hget
      · exact h.inner_sorted k' inner' hget
      · exact h.inner_ne_nil k' inner' hget
    · rename_i hne
      refine ⟨h.sorted.insert _ _, fun k' inner' hget => ?_, fun k' inner' hget => ?_⟩
      all_goals
        rw [BTreeMap.get_insert] at hget
        split at hget
      · cases hget
        exact (h.inner_sorted k inner hinner).remove i
      · exact h.inner_sorted k' inner' hget
      · cases hget
        exact fun hnil => hne (List.isEmpty_iff.2 hnil)
      · exact h.inner_ne_nil k' inner' hget

theorem WellFormed.ext (h : WellFormed m) (h' : WellFormed m') (hget : ∀ k i, get k i m = get k i m') :
    m = m' := by
  -- an inner map that is only in one of the two would have an entry
  have hnone : ∀ {m m' : NestedMap κ ι ν}, WellFormed m → (∀ k i, get k i m = get k i m') →
      ∀ k, BTreeMap.get k m' = none → BTreeMap.get k m = none := by
    intro m m' h hget k hk
    cases hinner : BTreeMap.get k m with
    | none => rfl
    | some inner =>
      obtain ⟨e, rest, heq⟩ := List.exists_cons_of_ne_nil (h.inner_ne_nil k inner hinner)
      have hentry := hget k e.1
      simp [get, hinner, hk, heq, BTreeMap.get] at hentry
  apply h.sorted.ext h'.sorted
  intro k
  cases hinner : BTreeMap.get k m with
  | none => exact (hnone h' (fun k i => (hget k i).symm) k hinner).symm
  | some inner =>
    cases hinner' : BTreeMap.get k m' with
    | none =>
      rw [hnone h hget k hinner'] at hinner
      cases hinner
    | some inner' =>
      congr 1
      apply (h.inner_sorted k inner hinner).ext (h'.inner_sorted k inner' hinner')
      intro i
      simpa [get, hinner, hinner'] using hget k i

theorem WellFormed.insert_eq_self (h : WellFormed m) {k : κ} {i : ι} {v : ν}
    (hget : get k i m = some v) : NestedMap.insert k i v m = m := by
  apply (h.insert k i v).ext h
  intro k' i'
  rw [get_insert]
  split
  · rename_i heq
    rw [heq.1, heq.2, hget]
  · rfl

theorem WellFormed.remove_eq_self (h : WellFormed m) {k : κ} {i : ι} (hget : get k i m = none) :
    NestedMap.remove k i m = m := by
  apply (h.remove k i).ext h
  intro k' i'
  rw [get_remove]
  split
  · rename_i heq
    rw [heq.1, heq.2, hget]
  · rfl

section

variable {k k' : κ} {i i' : ι}

theorem WellFormed.insert_comm (h : WellFormed m) (hne : ¬(k = k' ∧ i = i')) (v v' : ν) :
    NestedMap.insert k i v (NestedMap.insert k' i' v' m) =
      NestedMap.insert k' i' v' (NestedMap.insert k i v m) := by
  apply ((h.insert k' i' v').insert k i v).ext ((h.insert k i v).insert k' i' v')
  intro k₀ i₀
  simp only [get_insert]
  by_cases hk : k₀ = k ∧ i₀ = i
  · rw [if_pos hk, if_neg (hk.1 ▸ hk.2 ▸ hne), if_pos hk]
  · rw [if_neg hk, if_neg hk]

theorem WellFormed.insert_remove_comm (h : WellFormed m) (hne : ¬(k = k' ∧ i = i')) (v : ν) :
    NestedMap.insert k i v (NestedMap.remove k' i' m) =
      NestedMap.remove k' i' (NestedMap.insert k i v m) := by
  apply ((h.remove k' i').insert k i v).ext ((h.insert k i v).remove k' i')
  intro k₀ i₀
  simp only [get_insert, get_remove]
  by_cases hk : k₀ = k ∧ i₀ = i
  · rw [if_pos hk, if_neg (hk.1 ▸ hk.2 ▸ hne), if_pos hk]
  · rw [if_neg hk, if_neg hk]

theorem WellFormed.remove_comm (h : WellFormed m) (k k' : κ) (i i' : ι) :
    NestedMap.remove k i (NestedMap.remove k' i' m) =
      NestedMap.remove k' i' (NestedMap.remove k i m) := by
  apply ((h.remove k' i').remove k i).ext ((h.remove k i).remove k' i')
  intro k₀ i₀
  simp only [get_remove]
  by_cases hk : k₀ = k ∧ i₀ = i
  · rw [if_pos hk, if_pos hk, ite_self]
  · rw [if_neg hk, if_neg hk]

end

theorem WellFormed.mem_iff (h : WellFormed m) {k : κ} {i : ι} {v : ν} :
    (∃ inner, (k, inner) ∈ m ∧ (i, v) ∈ inner) ↔ get k i m = some v := by
  simp only [get, Option.bind_eq_some_iff, h.sorted.mem_iff]
  constructor
  · rintro ⟨inner, hinner, hv⟩
    exact ⟨inner, hinner, ((h.inner_sorted k inner hinner).mem_iff).1 hv⟩
  · rintro ⟨inner, hinner, hv⟩
    exact ⟨inner, hinner, ((h.inner_sorted k inner hinner).mem_iff).2 hv⟩

end NestedMap

end CaveHome
