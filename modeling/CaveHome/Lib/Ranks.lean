import Mathlib.Data.Set.Card

/-!
# Places in an ordered list

A list that is in order and holds the first elements of a set: the place of an element in the list
is the number of elements of the set that come before it, and so the first elements of the list are
those with fewer elements before them.
-/

namespace CaveHome.Ranks

variable {α : Type*} [LinearOrder α] {S : Set α} {l : List α}

/-- The list is in order, and what else is in the set comes after all of it. -/
structure Initial (S : Set α) (l : List α) : Prop where
  sorted : l.Pairwise (· < ·)
  mem : ∀ a ∈ l, a ∈ S
  lt : ∀ a ∈ S, a ∉ l → ∀ b ∈ l, b < a

/-- The elements of a set before an element. -/
def before (S : Set α) (a : α) : Set α := {b | b ∈ S ∧ b < a}

theorem ncard_list {l : List α} (h : l.Nodup) : {a | a ∈ l}.ncard = l.length := by
  classical
  have hset : {a | a ∈ l} = (l.toFinset : Set α) := by
    ext a
    simp
  rw [hset, Set.ncard_coe_finset, List.toFinset_card_of_nodup h]

theorem Initial.nodup (h : Initial S l) : l.Nodup := h.sorted.imp fun hlt => hlt.ne

theorem Initial.before_eq {front rest : List α} {a : α} (h : Initial S (front ++ a :: rest)) :
    before S a = {b | b ∈ front} := by
  obtain ⟨-, hrest, hcross⟩ := List.pairwise_append.mp h.sorted
  ext b
  constructor
  · rintro ⟨hb, hlt⟩
    by_cases hmem : b ∈ front ++ a :: rest
    · obtain hfront | hb := List.mem_append.mp hmem
      · exact hfront
      · obtain rfl | hb := List.mem_cons.mp hb
        · exact absurd hlt (lt_irrefl b)
        · exact absurd hlt ((List.pairwise_cons.mp hrest).1 b hb).not_gt
    · exact absurd hlt (h.lt b hb hmem a (by simp)).not_gt
  · intro hb
    exact ⟨h.mem b (List.mem_append_left _ hb), hcross b hb a List.mem_cons_self⟩

theorem Initial.ncard_before {front rest : List α} {a : α}
    (h : Initial S (front ++ a :: rest)) : (before S a).ncard = front.length := by
  rw [h.before_eq]
  exact ncard_list (List.nodup_append.mp h.nodup).1

theorem Initial.ncard_before_lt (h : Initial S l) {a : α} (ha : a ∈ l) :
    (before S a).ncard < l.length := by
  obtain ⟨front, rest, rfl⟩ := List.append_of_mem ha
  rw [h.ncard_before, List.length_append, List.length_cons]
  omega

theorem Initial.length_le_ncard_before [Finite α] (h : Initial S l) {a : α} (ha : a ∈ S)
    (hnot : a ∉ l) : l.length ≤ (before S a).ncard := by
  rw [← ncard_list h.nodup]
  exact Set.ncard_le_ncard (fun b hb => ⟨h.mem b hb, h.lt a ha hnot b hb⟩) (Set.toFinite _)

theorem Initial.mem_take_iff [Finite α] (h : Initial S l) {q : ℕ} (hq : q ≤ l.length) {a : α} :
    a ∈ l.take q ↔ a ∈ S ∧ (before S a).ncard < q := by
  by_cases ha : a ∈ l
  · obtain ⟨front, rest, rfl⟩ := List.append_of_mem ha
    have hfront : a ∉ front := fun hmem =>
      (List.nodup_append.mp h.nodup).2.2 a hmem a List.mem_cons_self rfl
    rw [h.ncard_before]
    by_cases hlt : front.length < q
    · refine iff_of_true ?_ ⟨h.mem a ha, hlt⟩
      obtain ⟨k, rfl⟩ : ∃ k, q = front.length + (k + 1) := ⟨q - front.length - 1, by omega⟩
      rw [List.take_length_add_append]
      exact List.mem_append_right _ List.mem_cons_self
    · refine iff_of_false (fun hmem => hfront ?_) fun h => hlt h.2
      rw [List.take_append_of_le_length (Nat.not_lt.mp hlt)] at hmem
      exact List.mem_of_mem_take hmem
  · refine iff_of_false (fun hmem => ha (List.mem_of_mem_take hmem)) ?_
    rintro ⟨hS, hlt⟩
    have hle := h.length_le_ncard_before hS ha
    omega

/-- Drop all but the first of equal elements in a row. -/
def dedup {α : Type*} [DecidableEq α] : List α → List α
  | a :: b :: l => if a = b then dedup (b :: l) else a :: dedup (b :: l)
  | l => l

theorem mem_dedup {α : Type*} [DecidableEq α] {a : α} {l : List α} : a ∈ dedup l ↔ a ∈ l := by
  induction l with
  | nil => rfl
  | cons b l ih =>
    cases l with
    | nil => rfl
    | cons c l =>
      rw [dedup]
      split
      next h =>
        rw [ih, h]
        exact ⟨List.mem_cons_of_mem c, fun ha =>
          (List.mem_cons.mp ha).elim (fun ha => ha ▸ List.mem_cons_self) id⟩
      next => rw [List.mem_cons, ih, ← List.mem_cons]

theorem pairwise_dedup {α : Type*} [PartialOrder α] [DecidableEq α] {l : List α}
    (h : l.Pairwise (· ≤ ·)) :
    (dedup l).Pairwise (· < ·) := by
  induction l with
  | nil => exact List.Pairwise.nil
  | cons b l ih =>
    obtain ⟨hb, hl⟩ := List.pairwise_cons.mp h
    cases l with
    | nil => exact List.pairwise_singleton _ _
    | cons c l =>
      rw [dedup]
      split
      next => exact ih hl
      next hne =>
        refine List.pairwise_cons.mpr ⟨fun a ha => ?_, ih hl⟩
        have hbc : b < c := lt_of_le_of_ne (hb c List.mem_cons_self) hne
        obtain rfl | ha := List.mem_cons.mp (mem_dedup.mp ha)
        · exact hbc
        · exact hbc.trans_le ((List.pairwise_cons.mp hl).1 a ha)

end CaveHome.Ranks
