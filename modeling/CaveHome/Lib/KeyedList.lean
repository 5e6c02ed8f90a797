import Mathlib.Data.List.Nodup
import Mathlib.Data.List.Perm.Basic

/-!
# Lists with distinct keys

A list in which no key occurs twice is searched like a map: what a search by key finds is exactly
what the list holds under that key.
-/

namespace CaveHome.KeyedList

variable {α κ : Type*} [DecidableEq κ] {key : α → κ} {l : List α}

theorem find?_eq_some_iff (h : (l.map key).Nodup) (k : κ) (x : α) :
    l.find? (fun y => key y = k) = some x ↔ x ∈ l ∧ key x = k := by
  constructor
  · intro hx
    exact ⟨List.mem_of_find?_eq_some hx, by simpa using List.find?_some hx⟩
  · rintro ⟨hx, rfl⟩
    obtain ⟨y, hy⟩ : ∃ y, l.find? (fun y => key y = key x) = some y :=
      Option.isSome_iff_exists.1 (List.find?_isSome.2 ⟨x, hx, by simp⟩)
    have hkey : key y = key x := by simpa using List.find?_some hy
    have hyx : y = x := List.inj_on_of_nodup_map h (List.mem_of_find?_eq_some hy) hx hkey
    rw [hy, hyx]

theorem find?_eq_none_iff (k : κ) :
    l.find? (fun y => key y = k) = none ↔ ∀ x ∈ l, key x ≠ k := by
  simp [List.find?_eq_none]

theorem eq_toList_iff (h : l.Nodup) (o : Option α) : l = o.toList ↔ ∀ x, x ∈ l ↔ o = some x := by
  constructor
  · rintro rfl x
    exact Option.mem_toList
  · intro hmem
    have hperm : l.Perm o.toList := by
      apply (List.perm_ext_iff_of_nodup h (by cases o <;> simp)).2
      intro x
      rw [hmem x]
      exact Option.mem_toList.symm
    cases o with
    | none => exact List.perm_nil.1 hperm
    | some x => exact List.perm_singleton.1 hperm

theorem flatMap_eq_of_unique {γ δ : Type*} {l : List γ} {f : γ → List δ} (hl : l.Nodup) {a : γ}
    (ha : a ∈ l) (h : ∀ b ∈ l, b ≠ a → f b = []) : l.flatMap f = f a := by
  obtain ⟨l₁, l₂, rfl⟩ := List.append_of_mem ha
  have hnodup := List.nodup_middle.1 hl
  have hne : ∀ b ∈ l₁ ++ l₂, b ≠ a := by
    rintro b hb rfl
    exact (List.nodup_cons.1 hnodup).1 hb
  have hbefore : l₁.flatMap f = [] := List.flatMap_eq_nil_iff.2 fun b hb =>
    h b (by simp [hb]) (hne b (by simp [hb]))
  have hafter : l₂.flatMap f = [] := List.flatMap_eq_nil_iff.2 fun b hb =>
    h b (by simp [hb]) (hne b (by simp [hb]))
  rw [List.flatMap_append, List.flatMap_cons, hbefore, hafter, List.nil_append, List.append_nil]

end CaveHome.KeyedList
