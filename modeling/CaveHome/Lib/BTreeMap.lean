import Mathlib.Data.List.Basic
import Mathlib.Data.List.Induction
import Mathlib.Order.Lattice

/-!
# Ordered maps and sets

A map that is kept in the order of its keys, as the list of its entries.  What a lookup finds after
a change does not depend on the order.  A set is the list of its members in order.
-/

namespace CaveHome

abbrev BTreeMap (κ ν : Type*) := List (κ × ν)

namespace BTreeMap

variable {κ ν : Type*} [LinearOrder κ]

def get (key : κ) : BTreeMap κ ν → Option ν
  | [] => none
  | (k, v) :: m => if key = k then some v else get key m

def insert (key : κ) (value : ν) : BTreeMap κ ν → BTreeMap κ ν
  | [] => [(key, value)]
  | (k, v) :: m =>
    if key < k then (key, value) :: (k, v) :: m
    else if key = k then (key, value) :: m
    else (k, v) :: insert key value m

def remove (key : κ) (m : BTreeMap κ ν) : BTreeMap κ ν := m.filter fun e => e.1 ≠ key

@[simp]
theorem get_nil (key : κ) : get key ([] : BTreeMap κ ν) = none := rfl

theorem get_insert (key k : κ) (value : ν) (m : BTreeMap κ ν) :
    get k (insert key value m) = if k = key then some value else get k m := by
  induction m with
  | nil => rfl
  | cons e m ih =>
    rw [insert]
    split
    · rfl
    · split
      next _ h =>
        rw [get, get, ← h]
        split <;> rfl
      next _ h =>
        rw [get, get, ih]
        by_cases hk : k = key
        · rw [if_pos hk, if_pos hk, if_neg (hk ▸ h)]
        · rw [if_neg hk, if_neg hk]

example : get 2 (insert 2 "b" [(1, "a"), (3, "c")]) = some "b" := by decide

@[simp]
theorem get_insert_self (key : κ) (value : ν) (m : BTreeMap κ ν) :
    get key (insert key value m) = some value := by
  rw [get_insert, if_pos rfl]

theorem get_insert_ne {key k : κ} (h : k ≠ key) (value : ν) (m : BTreeMap κ ν) :
    get k (insert key value m) = get k m := by
  rw [get_insert, if_neg h]

theorem get_remove (key k : κ) (m : BTreeMap κ ν) :
    get k (remove key m) = if k = key then none else get k m := by
  induction m with
  | nil => simp [remove]
  | cons e m ih =>
    obtain ⟨k', v⟩ := e
    rw [remove] at ih ⊢
    by_cases hk' : k' = key
    · rw [List.filter_cons_of_neg (by simpa using hk'), ih, get, hk']
      by_cases hk : k = key
      · rw [if_pos hk, if_pos hk]
      · rw [if_neg hk, if_neg hk, if_neg hk]
    · rw [List.filter_cons_of_pos (by simpa using hk'), get, get, ih]
      by_cases hk : k = key
      · rw [if_pos hk, if_pos hk, if_neg (hk ▸ Ne.symm hk')]
      · rw [if_neg hk, if_neg hk]

theorem get_remove_ne {key k : κ} (h : k ≠ key) (m : BTreeMap κ ν) :
    get k (remove key m) = get k m := by
  rw [get_remove, if_neg h]

/-! ## Maps in order -/

/-- The keys of the entries grow. -/
def Sorted (m : BTreeMap κ ν) : Prop := m.Pairwise fun a b => a.1 < b.1

variable {m : BTreeMap κ ν} {key k : κ} {value v : ν}

theorem sorted_nil : Sorted ([] : BTreeMap κ ν) := List.Pairwise.nil

theorem mem_of_mem_insert {e : κ × ν} (he : e ∈ insert key value m) : e = (key, value) ∨ e ∈ m := by
  induction m with
  | nil => exact Or.inl (List.mem_singleton.mp he)
  | cons a m ih =>
    rw [insert] at he
    split at he
    · exact List.mem_cons.mp he
    · split at he
      · rcases List.mem_cons.mp he with h | h
        · exact Or.inl h
        · exact Or.inr (List.mem_cons_of_mem a h)
      · rcases List.mem_cons.mp he with h | h
        · exact Or.inr (h ▸ List.mem_cons_self)
        · exact (ih h).imp_right (List.mem_cons_of_mem a)

theorem insert_last (h : ∀ e ∈ m, e.1 < key) : insert key value m = m ++ [(key, value)] := by
  induction m with
  | nil => rfl
  | cons e m ih =>
    have he := h e List.mem_cons_self
    rw [insert, if_neg he.not_gt, if_neg he.ne', ih fun a ha => h a (List.mem_cons_of_mem e ha)]
    rfl

theorem Sorted.insert (h : Sorted m) (key : κ) (value : ν) : Sorted (BTreeMap.insert key value m) := by
  induction m with
  | nil => exact List.pairwise_singleton _ _
  | cons e m ih =>
    obtain ⟨hhead, htail⟩ := List.pairwise_cons.mp h
    rw [BTreeMap.insert]
    split
    next hlt =>
      refine List.pairwise_cons.mpr ⟨fun b hb => ?_, h⟩
      rcases List.mem_cons.mp hb with rfl | hb
      · exact hlt
      · exact hlt.trans (hhead b hb)
    next hge =>
      split
      next heq => exact List.pairwise_cons.mpr ⟨fun b hb => heq ▸ hhead b hb, htail⟩
      next hne =>
        refine List.pairwise_cons.mpr ⟨fun b hb => ?_, ih htail⟩
        rcases mem_of_mem_insert hb with rfl | hb
        · exact lt_of_le_of_ne (not_lt.mp hge) (Ne.symm hne)
        · exact hhead b hb

theorem Sorted.remove (h : Sorted m) (key : κ) : Sorted (remove key m) := List.Pairwise.filter _ h

theorem Sorted.mem_iff (h : Sorted m) : (key, value) ∈ m ↔ get key m = some value := by
  induction m with
  | nil => simp
  | cons e m ih =>
    obtain ⟨k, v⟩ := e
    obtain ⟨hhead, htail⟩ := List.pairwise_cons.mp h
    rw [List.mem_cons, ih htail, get]
    split
    next heq =>
      subst heq
      have hnone : get key m ≠ some value := fun hget =>
        absurd (hhead _ ((ih htail).mpr hget)) (lt_irrefl key)
      simp [hnone, eq_comm]
    next hne => simp [hne]

theorem get_eq_none_iff : get key m = none ↔ ∀ e ∈ m, e.1 ≠ key := by
  induction m with
  | nil => simp
  | cons e m ih =>
    rw [get]
    split
    next heq => simp [heq]
    next hne => simp [ih, Ne.symm hne]

theorem remove_eq_self (h : get key m = none) : remove key m = m := by
  refine List.filter_eq_self.mpr fun e he => ?_
  simpa using get_eq_none_iff.mp h e he

theorem Sorted.perm_cons_remove (h : Sorted m) (hget : get key m = some value) :
    m.Perm ((key, value) :: BTreeMap.remove key m) := by
  induction m with
  | nil => cases hget
  | cons e m ih =>
    obtain ⟨k, v⟩ := e
    obtain ⟨hhead, htail⟩ := List.pairwise_cons.mp h
    rw [get] at hget
    split at hget
    next heq =>
      subst heq
      obtain rfl := Option.some.inj hget
      have hrest : get key m = none :=
        get_eq_none_iff.mpr fun e he => ne_of_gt (hhead e he)
      rw [BTreeMap.remove, List.filter_cons_of_neg (by simp)]
      exact List.Perm.cons _ (List.Perm.of_eq (remove_eq_self hrest).symm)
    next hne =>
      rw [BTreeMap.remove, List.filter_cons_of_pos (by simpa using Ne.symm hne)]
      exact ((ih htail hget).cons _).trans (List.Perm.swap _ _ _)

theorem remove_insert (key : κ) (value : ν) (m : BTreeMap κ ν) :
    remove key (insert key value m) = remove key m := by
  induction m with
  | nil => simp [insert, remove]
  | cons e m ih =>
    rw [insert]
    split
    · simp [remove]
    · split
      next heq => simp [remove, heq]
      next hne =>
        rw [remove] at ih ⊢
        rw [List.filter_cons, ih, remove, remove, List.filter_cons]

theorem Sorted.perm_insert (h : Sorted m) (key : κ) (value : ν) :
    (BTreeMap.insert key value m).Perm ((key, value) :: BTreeMap.remove key m) := by
  rw [← remove_insert key value m]
  exact (h.insert key value).perm_cons_remove (get_insert_self key value m)

theorem Sorted.insert_eq_self (h : Sorted m) (hget : get key m = some value) :
    BTreeMap.insert key value m = m := by
  induction m with
  | nil => cases hget
  | cons e m ih =>
    obtain ⟨k, v⟩ := e
    obtain ⟨hhead, htail⟩ := List.pairwise_cons.mp h
    rw [get] at hget
    rw [BTreeMap.insert]
    split at hget
    next heq =>
      subst heq
      obtain rfl := Option.some.inj hget
      rw [if_neg (lt_irrefl _), if_pos rfl]
    next hne =>
      have hlt : k < key := hhead _ ((Sorted.mem_iff htail).mpr hget)
      rw [if_neg (not_lt.mpr hlt.le), if_neg hne, ih htail hget]

theorem Sorted.ext {m' : BTreeMap κ ν} (h : Sorted m) (h' : Sorted m')
    (hget : ∀ k, get k m = get k m') : m = m' := by
  induction m generalizing m' with
  | nil =>
    cases m' with
    | nil => rfl
    | cons e m' =>
      have := hget e.1
      simp [get] at this
  | cons e m ih =>
    obtain ⟨hhead, htail⟩ := List.pairwise_cons.mp h
    cases m' with
    | nil =>
      have := hget e.1
      simp [get] at this
    | cons e' m' =>
      obtain ⟨hhead', htail'⟩ := List.pairwise_cons.mp h'
      have hget₁ : get e.1 (e' :: m') = some e.2 := by rw [← hget]; simp [get]
      have hget₂ : get e'.1 (e :: m) = some e'.2 := by rw [hget]; simp [get]
      have hmem : e ∈ e' :: m' := h'.mem_iff.mpr hget₁
      have hmem' : e' ∈ e :: m := h.mem_iff.mpr hget₂
      have heq : e = e' := by
        rcases List.mem_cons.mp hmem with heq | hlt
        · exact heq
        · rcases List.mem_cons.mp hmem' with heq | hlt'
          · exact heq.symm
          · exact absurd (hhead' e hlt) (lt_asymm (hhead e' hlt'))
      subst heq
      refine congrArg (e :: ·) (ih htail htail' fun k => ?_)
      by_cases hk : k = e.1
      · have hnone : ∀ {m : BTreeMap κ ν}, (∀ a ∈ m, e.1 < a.1) → get k m = none := fun hm =>
          get_eq_none_iff.mpr fun a ha => hk ▸ ne_of_gt (hm a ha)
        rw [hnone hhead, hnone hhead']
      · have := hget k
        rwa [get, get, if_neg hk, if_neg hk] at this

theorem Sorted.insert_last (h : Sorted (m ++ [(key, value)])) :
    BTreeMap.insert key value m = m ++ [(key, value)] := by
  induction m with
  | nil => rfl
  | cons e m ih =>
    obtain ⟨hhead, htail⟩ := List.pairwise_cons.mp h
    have hlt : e.1 < key := hhead (key, value) (List.mem_append_right m List.mem_cons_self)
    rw [BTreeMap.insert, if_neg (not_lt.mpr hlt.le), if_neg hlt.ne', ih htail]
    rfl

theorem Sorted.insert_comm (h : Sorted m) {key' : κ} (hne : key ≠ key') (value value' : ν) :
    BTreeMap.insert key value (BTreeMap.insert key' value' m) =
      BTreeMap.insert key' value' (BTreeMap.insert key value m) := by
  apply ((h.insert key' value').insert key value).ext ((h.insert key value).insert key' value')
  intro k
  simp only [get_insert]
  by_cases hk : k = key
  · rw [if_pos hk, if_neg (hk ▸ hne), if_pos hk]
  · rw [if_neg hk, if_neg hk]

theorem Sorted.insert_remove_comm (h : Sorted m) {key' : κ} (hne : key ≠ key') (value : ν) :
    BTreeMap.insert key value (BTreeMap.remove key' m) =
      BTreeMap.remove key' (BTreeMap.insert key value m) := by
  apply ((h.remove key').insert key value).ext ((h.insert key value).remove key')
  intro k
  simp only [get_insert, get_remove]
  by_cases hk : k = key
  · rw [if_pos hk, if_neg (hk ▸ hne), if_pos hk]
  · rw [if_neg hk, if_neg hk]

theorem remove_comm (key key' : κ) (m : BTreeMap κ ν) :
    remove key (remove key' m) = remove key' (remove key m) := by
  simp only [remove, List.filter_filter, Bool.and_comm]

theorem get_map {ω : Type*} (f : ν → ω) (m : BTreeMap κ ν) (k : κ) :
    get k (m.map fun e => (e.1, f e.2)) = (get k m).map f := by
  induction m with
  | nil => rfl
  | cons e m ih =>
    rw [List.map_cons, get, get]
    split
    · rfl
    · exact ih

/-! ## Maps of lists -/

section Values

variable {α : Type*} {m m' : BTreeMap κ (List α)}

/-- The values of a map of lists. -/
def values (m : BTreeMap κ (List α)) : List α := m.flatMap (·.2)

omit [LinearOrder κ] in
theorem values_perm (h : m.Perm m') : (values m).Perm (values m') := h.flatMap_right _

theorem values_remove (h : ∀ e ∈ m, e.1 = key → e.2 = []) : values (remove key m) = values m := by
  induction m with
  | nil => rfl
  | cons e m ih =>
    have htail := ih fun e' he' => h e' (List.mem_cons_of_mem _ he')
    rw [remove, values] at htail ⊢
    rw [List.filter_cons]
    split
    · rw [List.flatMap_cons, htail, values, values, List.flatMap_cons]
    next hkey =>
      have hempty := h e List.mem_cons_self (by simpa using hkey)
      rw [htail, values, values, List.flatMap_cons, hempty, List.nil_append]

theorem values_foldl_remove (keys : List κ) (m : BTreeMap κ (List α))
    (h : ∀ e ∈ m, e.1 ∈ keys → e.2 = []) :
    values (keys.foldl (fun m key => remove key m) m) = values m := by
  induction keys generalizing m with
  | nil => rfl
  | cons key keys ih =>
    have hhead : values (remove key m) = values m :=
      values_remove fun e he hkey => h e he (hkey ▸ List.mem_cons_self)
    have htail := ih (remove key m) fun e he hmem =>
      h e (List.mem_filter.mp he).1 (List.mem_cons_of_mem _ hmem)
    exact htail.trans hhead

theorem sorted_foldl_remove (keys : List κ) (h : Sorted m) :
    Sorted (keys.foldl (fun m key => remove key m) m) := by
  induction keys generalizing m with
  | nil => exact h
  | cons key keys ih => exact ih (h.remove key)

/-- Add an element to the list of a key. -/
def push (key : κ) (a : α) (m : BTreeMap κ (List α)) : BTreeMap κ (List α) :=
  insert key ((get key m).getD [] ++ [a]) m

theorem Sorted.push (h : Sorted m) (key : κ) (a : α) : Sorted (push key a m) := h.insert _ _

theorem Sorted.values_push (h : Sorted m) (key : κ) (a : α) :
    (values (BTreeMap.push key a m)).Perm (a :: values m) := by
  have hinsert : (values (BTreeMap.push key a m)).Perm
      (((get key m).getD [] ++ [a]) ++ values (BTreeMap.remove key m)) := by
    rw [BTreeMap.push]
    exact values_perm (h.perm_insert key _)
  refine hinsert.trans ?_
  have hold : (values m).Perm ((get key m).getD [] ++ values (BTreeMap.remove key m)) := by
    cases hget : get key m with
    | none =>
      rw [remove_eq_self hget]
      exact .rfl
    | some l => exact values_perm (h.perm_cons_remove hget)
  rw [List.append_assoc]
  exact List.perm_middle.trans (hold.symm.cons a)

/-- The elements of a list by their keys, in the order of the list. -/
def grouped (key : α → κ) (l : List α) : BTreeMap κ (List α) :=
  l.foldl (fun m a => push (key a) a m) []

theorem grouped_append_singleton (f : α → κ) (l : List α) (a : α) :
    grouped f (l ++ [a]) = push (f a) a (grouped f l) := by
  rw [grouped, List.foldl_append]
  rfl

theorem sorted_grouped (f : α → κ) (l : List α) : Sorted (grouped f l) := by
  induction l using List.reverseRecOn with
  | nil => exact sorted_nil
  | append_singleton l a ih =>
    rw [grouped_append_singleton]
    exact ih.push _ _

theorem values_grouped (f : α → κ) (l : List α) : (values (grouped f l)).Perm l := by
  induction l using List.reverseRecOn with
  | nil => exact .rfl
  | append_singleton l a ih =>
    rw [grouped_append_singleton]
    exact ((sorted_grouped f l).values_push _ a).trans
      ((ih.cons a).trans (List.perm_append_singleton a l).symm)

theorem get_grouped (f : α → κ) (l : List α) (k : κ) :
    get k (grouped f l) =
      if l.filter (fun a => f a = k) = [] then none else some (l.filter fun a => f a = k) := by
  induction l using List.reverseRecOn with
  | nil => rfl
  | append_singleton l a ih =>
    rw [grouped_append_singleton, push, get_insert, List.filter_append]
    by_cases hk : f a = k
    · subst hk
      rw [if_pos rfl, ih, List.filter_singleton, decide_eq_true rfl, cond_true]
      generalize (l.filter fun b => f b = f a) = group
      by_cases hnil : group = []
      · rw [hnil]
        rfl
      · rw [if_neg hnil, Option.getD_some, if_neg (by simp)]
    · rw [if_neg (Ne.symm hk), ih, List.filter_singleton, decide_eq_false hk, cond_false,
        List.append_nil]

end Values

end BTreeMap

/-! ## Ordered sets -/

abbrev BTreeSet (κ : Type*) := List κ

namespace BTreeSet

variable {κ : Type*} [LinearOrder κ]

def insert (key : κ) : BTreeSet κ → BTreeSet κ
  | [] => [key]
  | k :: s =>
    if key < k then key :: k :: s else if key = k then k :: s else k :: insert key s

def remove (key : κ) (s : BTreeSet κ) : BTreeSet κ := s.filter (· ≠ key)

/-- The members grow. -/
def Sorted (s : BTreeSet κ) : Prop := s.Pairwise (· < ·)

variable {s : BTreeSet κ} {key k : κ}

@[simp]
theorem mem_insert : k ∈ insert key s ↔ k = key ∨ k ∈ s := by
  induction s with
  | nil => simp [insert]
  | cons a s ih =>
    rw [insert]
    split
    · simp
    · split
      next heq => simp [heq]
      next => rw [List.mem_cons, ih, List.mem_cons, or_left_comm]

example : insert 2 [1, 3] = [1, 2, 3] := by decide

@[simp]
theorem mem_remove : k ∈ remove key s ↔ k ∈ s ∧ k ≠ key := by
  simp [remove]

theorem remove_insert (key : κ) (s : BTreeSet κ) : remove key (insert key s) = remove key s := by
  induction s with
  | nil => simp [insert, remove]
  | cons a s ih =>
    rw [insert]
    split
    next => simp [remove]
    next =>
      split
      next => rfl
      next =>
        rw [remove] at ih ⊢
        rw [List.filter_cons, ih, remove, remove, List.filter_cons]

theorem remove_eq_self (h : key ∉ s) : remove key s = s := by
  refine List.filter_eq_self.mpr fun k hk => ?_
  simpa using fun heq : k = key => h (heq ▸ hk)

theorem Sorted.insert (h : Sorted s) (key : κ) : Sorted (insert key s) := by
  induction s with
  | nil => exact List.pairwise_singleton _ _
  | cons a s ih =>
    obtain ⟨hhead, htail⟩ := List.pairwise_cons.mp h
    rw [BTreeSet.insert]
    split
    next hlt =>
      refine List.pairwise_cons.mpr ⟨fun b hb => ?_, h⟩
      rcases List.mem_cons.mp hb with rfl | hb
      · exact hlt
      · exact hlt.trans (hhead b hb)
    next hge =>
      split
      · exact h
      next hne =>
        refine List.pairwise_cons.mpr ⟨fun b hb => ?_, ih htail⟩
        rcases mem_insert.mp hb with rfl | hb
        · exact lt_of_le_of_ne (not_lt.mp hge) (Ne.symm hne)
        · exact hhead b hb

theorem Sorted.remove (h : Sorted s) (key : κ) : Sorted (remove key s) := List.Pairwise.filter _ h

end BTreeSet

end CaveHome
