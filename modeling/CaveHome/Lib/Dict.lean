import Mathlib.Data.List.AList
import Mathlib.Data.List.Nodup

/-!
# Hash maps

A hash map is an association list without repeated keys.  Its order stands for the iteration order
of the map, which callers may not rely on.  What is kept of every entry is stated with `All`.
-/

namespace CaveHome

abbrev Dict (κ ν : Type*) := AList (fun _ : κ => ν)

namespace Dict

variable {κ ν : Type*} [DecidableEq κ] {m m' : Dict κ ν} {P : κ → ν → Prop}

/-- Every entry of the map satisfies `P`. -/
def All (P : κ → ν → Prop) (m : Dict κ ν) : Prop := ∀ k v, m.lookup k = some v → P k v

/-- The two maps differ in their iteration order only. -/
def Reordered (m m' : Dict κ ν) : Prop := m.entries.Perm m'.entries

theorem Reordered.lookup_eq (h : Reordered m m') (k : κ) : m'.lookup k = m.lookup k :=
  (AList.perm_lookup h).symm

theorem All.of_lookup_eq (h : All P m) (he : ∀ k, m'.lookup k = m.lookup k) : All P m' := by
  intro k v hk
  exact h k v ((he k).symm.trans hk)

theorem all_empty : All P (∅ : Dict κ ν) := by
  intro k v hk
  simp at hk

theorem All.insert (h : All P m) {k : κ} {v : ν} (hv : P k v) : All P (AList.insert k v m) := by
  intro k' v' hk'
  by_cases he : k' = k
  · subst he
    rw [AList.lookup_insert, Option.some.injEq] at hk'
    exact hk' ▸ hv
  · rw [AList.lookup_insert_ne he] at hk'
    exact h k' v' hk'

theorem All.erase (h : All P m) (k : κ) : All P (AList.erase k m) := by
  intro k' v' hk'
  by_cases he : k' = k
  · subst he
    simp at hk'
  · rw [AList.lookup_erase_ne he] at hk'
    exact h k' v' hk'

theorem mem_entries_iff {e : Sigma fun _ : κ => ν} : e ∈ m.entries ↔ m.lookup e.1 = some e.2 :=
  AList.mem_lookup_iff.symm

theorem lookup_insert_if (m : Dict κ ν) (k k' : κ) (v : ν) :
    (AList.insert k v m).lookup k' = if k = k' then some v else m.lookup k' := by
  by_cases h : k = k'
  · rw [if_pos h, ← h, AList.lookup_insert]
  · rw [if_neg h, AList.lookup_insert_ne (Ne.symm h)]

theorem lookup_erase_if (m : Dict κ ν) (k k' : κ) :
    (AList.erase k m).lookup k' = if k = k' then none else m.lookup k' := by
  by_cases h : k = k'
  · rw [if_pos h, ← h, AList.lookup_erase]
  · rw [if_neg h, AList.lookup_erase_ne (Ne.symm h)]

theorem entries_perm_cons_erase {k : κ} {v : ν} (h : m.lookup k = some v) :
    m.entries.Perm (⟨k, v⟩ :: (m.erase k).entries) := by
  have hmem : k ∈ m.entries.keys := AList.mem_keys.mp (AList.lookup_isSome.mp (by rw [h]; rfl))
  obtain ⟨v', l₁, l₂, -, hentries, herase⟩ := List.exists_of_kerase hmem
  have hv : m.lookup k = some v' := (mem_entries_iff (e := ⟨k, v'⟩)).mp (by rw [hentries]; simp)
  obtain rfl := Option.some.inj (hv.symm.trans h)
  rw [show (m.erase k).entries = l₁ ++ l₂ from herase, hentries]
  exact List.perm_middle

end Dict

/-!
## Counting the entries of a map

How many entries of a map satisfy a predicate depends only on what lookups find, and a change of one
entry changes the count by what changes for that entry.
-/

namespace Dict

variable {κ ν : Type*}

/-- How many values of the map satisfy `p`. -/
def countValues (p : ν → Bool) (m : Dict κ ν) : Nat := m.entries.countP fun e => p e.2

variable {p : ν → Bool} {m m' : Dict κ ν}

theorem Reordered.countValues_eq (h : Reordered m m') : countValues p m' = countValues p m :=
  (h.countP_eq _).symm

variable [DecidableEq κ]

theorem countValues_split (k : κ) :
    countValues p m = countValues p (m.erase k) + if (m.lookup k).any p then 1 else 0 := by
  cases hk : m.lookup k with
  | none =>
    have hentries : (m.erase k).entries = m.entries :=
      List.kerase_of_notMem_keys (AList.lookup_eq_none.mp hk)
    rw [countValues, countValues, hentries]
    rfl
  | some v => exact ((entries_perm_cons_erase hk).countP_eq _).trans List.countP_cons

omit [DecidableEq κ] in
theorem nodup_countedKeys : ((m.entries.filter fun e => p e.2).map Sigma.fst).Nodup :=
  List.Nodup.sublist (List.filter_sublist.map _) m.nodupKeys

theorem mem_countedKeys {k : κ} :
    k ∈ (m.entries.filter fun e => p e.2).map Sigma.fst ↔ (m.lookup k).any p = true := by
  simp only [List.mem_map, List.mem_filter, mem_entries_iff, Option.any_eq_true]
  constructor
  · rintro ⟨⟨k, v⟩, ⟨hv, hp⟩, rfl⟩
    exact ⟨v, hv, hp⟩
  · rintro ⟨v, hv, hp⟩
    exact ⟨⟨k, v⟩, ⟨hv, hp⟩, rfl⟩

theorem countValues_congr (h : ∀ k, (m'.lookup k).any p = (m.lookup k).any p) :
    countValues p m' = countValues p m := by
  have hkeys : ((m'.entries.filter fun e => p e.2).map Sigma.fst).Perm
      ((m.entries.filter fun e => p e.2).map Sigma.fst) := by
    refine (List.perm_ext_iff_of_nodup nodup_countedKeys nodup_countedKeys).mpr fun k => ?_
    rw [mem_countedKeys, mem_countedKeys, h]
  have hlen := hkeys.length_eq
  rwa [List.length_map, List.length_map, ← List.countP_eq_length_filter,
    ← List.countP_eq_length_filter] at hlen

theorem countValues_of_ne (k : κ) (h : ∀ k', k' ≠ k → (m'.lookup k').any p = (m.lookup k').any p) :
    (countValues p m' + if (m.lookup k).any p then 1 else 0) =
      countValues p m + if (m'.lookup k).any p then 1 else 0 := by
  have hrest : countValues p (m'.erase k) = countValues p (m.erase k) := by
    refine countValues_congr fun k' => ?_
    by_cases hk : k' = k
    · rw [hk, AList.lookup_erase, AList.lookup_erase]
    · rw [AList.lookup_erase_ne hk, AList.lookup_erase_ne hk]
      exact h k' hk
  rw [countValues_split (m := m') k, countValues_split (m := m) k, hrest]
  omega

end Dict

end CaveHome
