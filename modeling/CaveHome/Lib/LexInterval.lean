import Mathlib.Data.List.Lex
import Mathlib.Order.Cover
import Mathlib.Order.Interval.Set.Basic
import Mathlib.Order.Lattice

/-!
# Intervals of words in the lexicographic order

The words over a linear order that begin with a given word form an interval.  Its lower end is the
word itself; its upper end is found by dropping the trailing letters that are the largest one and
replacing the letter before them by the next larger one.  When all letters are the largest one the
interval has no upper end.
-/

namespace LexInterval

variable {α : Type*} [LinearOrder α] {l m ts : List α} {a b t : α}

theorem cons_le_cons_iff : a :: l ≤ b :: m ↔ a < b ∨ a = b ∧ l ≤ m := by
  rw [← not_lt, List.cons_lt_cons_iff, ← not_lt (a := m)]
  rcases lt_trichotomy a b with h | rfl | h
  · simp [h, h.not_gt, h.ne']
  · simp
  · simp [h, h.not_gt, h.ne']

theorem not_cons_le_nil : ¬ a :: l ≤ [] := not_le.2 List.Lex.nil

theorem nil_le (l : List α) : [] ≤ l := not_lt.1 (List.not_lt_nil l)

theorem le_of_prefix (h : l <+: m) : l ≤ m := by
  induction l generalizing m with
  | nil => exact nil_le m
  | cons a l ih =>
    obtain ⟨rest, rfl⟩ := h
    exact cons_le_cons_iff.2 (Or.inr ⟨rfl, ih ⟨rest, rfl⟩⟩)

theorem append_le_append_iff {k : List α} : l ++ k ≤ l ++ m ↔ k ≤ m := by
  induction l with
  | nil => rfl
  | cons a l ih => rw [List.cons_append, List.cons_append, cons_le_cons_iff, ih]; simp

theorem append_lt_iff_of_not_prefix {k e : List α} (h : ¬ l <+: e) :
    l ++ k < e ↔ l ++ m < e := by
  induction l generalizing e with
  | nil => exact absurd List.nil_prefix h
  | cons a l ih =>
    cases e with
    | nil => simp
    | cons b e =>
      rw [List.cons_append, List.cons_append, List.cons_lt_cons_iff, List.cons_lt_cons_iff]
      refine or_congr_right (and_congr_right fun hab => ih fun hpre => h ?_)
      exact List.cons_prefix_cons.2 ⟨hab, hpre⟩

theorem prefix_iff_le_of_tops (ht : ∀ x : α, x ≤ t) (hl : ∀ x ∈ l, x = t) :
    l <+: m ↔ l ≤ m := by
  refine ⟨fun h => le_of_prefix h, fun h => ?_⟩
  induction l generalizing m with
  | nil => exact List.nil_prefix
  | cons a l ih =>
    obtain rfl := hl a List.mem_cons_self
    cases m with
    | nil => exact absurd h not_cons_le_nil
    | cons b m =>
      rcases cons_le_cons_iff.1 h with hlt | ⟨rfl, hle⟩
      · exact absurd (ht b) (not_le.2 hlt)
      · exact List.cons_prefix_cons.2
          ⟨rfl, ih (fun x hx => hl x (List.mem_cons_of_mem _ hx)) hle⟩

theorem lt_singleton_iff : m < [b] ↔ ∀ x ∈ m.head?, x < b := by
  cases m with
  | nil => simp
  | cons c m => simp [List.cons_lt_cons_iff]

theorem prefix_iff_of_tops (ht : ∀ x : α, x ≤ t) (hts : ∀ x ∈ ts, x = t) (hab : a ⋖ b) :
    l ++ a :: ts <+: m ↔ l ++ a :: ts ≤ m ∧ m < l ++ [b] := by
  induction l generalizing m with
  | nil =>
    rw [List.nil_append, List.nil_append, lt_singleton_iff]
    cases m with
    | nil => simp [not_cons_le_nil]
    | cons c m =>
      rw [List.cons_prefix_cons, cons_le_cons_iff, prefix_iff_le_of_tops ht hts]
      simp only [List.head?_cons, Option.mem_def, Option.some.injEq, forall_eq']
      constructor
      · rintro ⟨rfl, hle⟩
        exact ⟨Or.inr ⟨rfl, hle⟩, hab.lt⟩
      · rintro ⟨hac | h, hcb⟩
        · exact absurd hcb (hab.2 hac)
        · exact h
  | cons c l ih =>
    rw [List.cons_append, List.cons_append]
    cases m with
    | nil => simp [not_cons_le_nil]
    | cons d m =>
      rw [List.cons_prefix_cons, cons_le_cons_iff, List.cons_lt_cons_iff, ih]
      constructor
      · rintro ⟨rfl, hle, hlt⟩
        exact ⟨Or.inr ⟨rfl, hle⟩, Or.inr ⟨rfl, hlt⟩⟩
      · rintro ⟨hcd | ⟨rfl, hle⟩, hdc | ⟨hd, hlt⟩⟩
        · exact absurd hdc hcd.not_gt
        · exact absurd hd.symm hcd.ne
        · exact absurd rfl hdc.ne
        · exact ⟨rfl, hle, hlt⟩

theorem eq_iff_between (hb : ∀ x : α, b ≤ x) : m = l ↔ l ≤ m ∧ m < l ++ [b] := by
  induction l generalizing m with
  | nil =>
    cases m with
    | nil => simp
    | cons c m => simp [List.cons_lt_cons_iff, (hb c).not_gt]
  | cons a l ih =>
    cases m with
    | nil => simp [not_cons_le_nil]
    | cons c m =>
      rw [List.cons_append, cons_le_cons_iff, List.cons_lt_cons_iff, List.cons.injEq, ih]
      constructor
      · rintro ⟨rfl, hle, hlt⟩
        exact ⟨Or.inr ⟨rfl, hle⟩, Or.inr ⟨rfl, hlt⟩⟩
      · rintro ⟨hac | ⟨rfl, hle⟩, hca | ⟨hc, hlt⟩⟩
        · exact absurd hca hac.not_gt
        · exact absurd hc.symm hac.ne
        · exact absurd rfl hca.ne
        · exact ⟨rfl, hle, hlt⟩

section Meet

variable {β : Type*} [LinearOrder β] {lo lo' : β} {hi hi' : Option β}

/-- The elements from `lo` on that come before the upper end, if there is one. -/
def Mem (lo : β) (hi : Option β) (x : β) : Prop := lo ≤ x ∧ ∀ h ∈ hi, x < h

theorem exists_mem_iff (h : ∀ e ∈ hi, lo < e) (h' : ∀ e ∈ hi', lo' < e) :
    (∃ x, Mem lo hi x ∧ Mem lo' hi' x) ↔ (∀ e ∈ hi', lo < e) ∧ ∀ e ∈ hi, lo' < e := by
  constructor
  · rintro ⟨x, ⟨hlo, hhi⟩, hlo', hhi'⟩
    exact ⟨fun e he => hlo.trans_lt (hhi' e he), fun e he => hlo'.trans_lt (hhi e he)⟩
  · rintro ⟨h₁, h₂⟩
    -- the larger of the two lower ends is shared
    refine ⟨max lo lo', ⟨le_max_left _ _, fun e he => ?_⟩, le_max_right _ _, fun e he => ?_⟩
    · exact max_lt (h e he) (h₂ e he)
    · exact max_lt (h₁ e he) (h' e he)

end Meet

end LexInterval
