import CaveHome.Lib.Dict
import Mathlib.Data.Finset.Basic

/-!
# An index of the keys of a map by a group of their values

The index lists for every group the keys whose values belong to it, and drops a group with its
last key.
-/

namespace CaveHome

/-- The keys of every group. -/
abbrev GroupIndex (γ κ : Type*) := Dict γ (Finset κ)

namespace GroupIndex

variable {γ κ ν : Type*} [DecidableEq γ] [DecidableEq κ]

/-- The keys listed for a group. -/
def listed (idx : GroupIndex γ κ) (g : γ) : Finset κ := (idx.lookup g).getD ∅

/-- List a key for a group. -/
def add (g : γ) (k : κ) (idx : GroupIndex γ κ) : GroupIndex γ κ :=
  idx.insert g (insert k (idx.listed g))

/-- Take a key out of a group, and the group out of the index once it is empty. -/
def drop (g : γ) (k : κ) (idx : GroupIndex γ κ) : GroupIndex γ κ :=
  match idx.lookup g with
  | none => idx
  | some s => if s.erase k = ∅ then idx.erase g else idx.insert g (s.erase k)

/-- The index lists exactly the keys of the map, each for the group of its value, and holds no
empty group. -/
structure Indexes (group : ν → γ) (idx : GroupIndex γ κ) (m : Dict κ ν) : Prop where
  mem_listed : ∀ g k, k ∈ idx.listed g ↔ ∃ v, m.lookup k = some v ∧ group v = g
  nonempty : ∀ g s, idx.lookup g = some s → s.Nonempty

variable {group : ν → γ} {idx : GroupIndex γ κ} {m : Dict κ ν} {g : γ} {k : κ} {v : ν}

theorem listed_add (g' : γ) :
    (idx.add g k).listed g' = if g = g' then insert k (idx.listed g) else idx.listed g' := by
  unfold listed add
  rw [Dict.lookup_insert_if]
  split
  · rfl
  · rfl

theorem listed_drop (g' : γ) :
    (idx.drop g k).listed g' = if g = g' then (idx.listed g).erase k else idx.listed g' := by
  unfold listed drop
  cases hg : idx.lookup g with
  | none =>
    show (idx.lookup g').getD ∅ = _
    split
    next h => rw [← h, hg]; rfl
    next => rfl
  | some s =>
    show (AList.lookup g' (if s.erase k = ∅ then idx.erase g else idx.insert g (s.erase k))).getD ∅
      = _
    by_cases he : s.erase k = ∅
    · rw [if_pos he, Dict.lookup_erase_if]
      split
      · exact he.symm
      · rfl
    · rw [if_neg he, Dict.lookup_insert_if]
      split
      · rfl
      · rfl

theorem indexes_empty : Indexes group (∅ : GroupIndex γ κ) (∅ : Dict κ ν) where
  mem_listed := by simp [listed]
  nonempty := by simp

theorem Indexes.insert (h : Indexes group idx m)
    (hold : ∀ old, m.lookup k = some old → group old = group v) :
    Indexes group (idx.add (group v) k) (AList.insert k v m) where
  mem_listed := by
    intro g k'
    rw [listed_add, Dict.lookup_insert_if]
    by_cases hk : k = k'
    · subst hk
      by_cases hg : group v = g
      · simp [hg]
      · have hnot : ¬∃ old, m.lookup k = some old ∧ group old = g := by
          rintro ⟨old, hlook, hgroup⟩
          exact hg ((hold old hlook).symm.trans hgroup)
        simp [hg, h.mem_listed, hnot]
    · by_cases hg : group v = g
      · subst hg
        simp [hk, Ne.symm hk, h.mem_listed]
      · simp [hg, hk, h.mem_listed]
  nonempty := by
    intro g s hs
    rw [add, Dict.lookup_insert_if] at hs
    split at hs
    · rw [← Option.some.inj hs]
      exact Finset.insert_nonempty _ _
    · exact h.nonempty g s hs

theorem Indexes.erase (h : Indexes group idx m) (hk : m.lookup k = some v) :
    Indexes group (idx.drop (group v) k) (AList.erase k m) where
  mem_listed := by
    intro g k'
    rw [listed_drop, Dict.lookup_erase_if]
    by_cases he : k = k'
    · subst he
      by_cases hg : group v = g
      · simp [hg]
      · simp [hg, h.mem_listed, hk]
    · by_cases hg : group v = g
      · subst hg
        simp [he, Ne.symm he, h.mem_listed]
      · simp [hg, he, h.mem_listed]
  nonempty := by
    intro g s hs
    unfold drop at hs
    split at hs
    next => exact h.nonempty g s hs
    next t ht =>
      split at hs
      next =>
        rw [Dict.lookup_erase_if] at hs
        split at hs
        · cases hs
        · exact h.nonempty g s hs
      next hne =>
        rw [Dict.lookup_insert_if] at hs
        split at hs
        · rw [← Option.some.inj hs]
          exact Finset.nonempty_iff_ne_empty.mpr hne
        · exact h.nonempty g s hs

end GroupIndex

end CaveHome
