import Mathlib.Data.List.Infix

/-!
# The SQL `LIKE` operator

`%` stands for any text, `_` for any one character, and letters of the ASCII range match in either
case.
-/

namespace SqlLike

/-- Lower case in the ASCII range, where the operator ignores case. -/
def foldCase (c : Char) : Char := c.toLower

/-- Whether a text matches a pattern. -/
def like : List Char → List Char → Bool
  | [], text => text.isEmpty
  | c :: pattern, text =>
    if c = '%' then text.tails.any (like pattern)
    else match text with
      | [] => false
      | d :: rest => (c = '_' || foldCase c = foldCase d) && like pattern rest

theorem like_append {pattern text : List Char} (h : like pattern text = true) (l : List Char) :
    like (l ++ pattern) (l ++ text) = true := by
  induction l with
  | nil => exact h
  | cons c l ih =>
    rw [List.cons_append, List.cons_append, like]
    split_ifs with hc
    · exact List.any_eq_true.2 ⟨l ++ text, by simp, ih⟩
    · simp [ih]

theorem like_self (text : List Char) : like text text = true := by
  have h : like [] [] = true := rfl
  simpa using like_append h text

theorem like_percent (text : List Char) : like ['%'] text = true := by
  simp only [like, if_true]
  exact List.any_eq_true.2 ⟨[], by simp, rfl⟩

theorem count_le_of_like {x : Char} (hpercent : x ≠ '%') (hunderscore : x ≠ '_')
    (hx : ∀ d, foldCase x = foldCase d → d = x) {pattern text : List Char}
    (h : like pattern text = true) : pattern.count x ≤ text.count x := by
  induction pattern generalizing text with
  | nil => simp
  | cons c pattern ih =>
    rw [like.eq_def] at h
    dsimp only at h
    split_ifs at h with hc
    · obtain ⟨tail, htail, h⟩ := List.any_eq_true.1 h
      rw [List.count_cons_of_ne (by rw [hc]; exact hpercent.symm)]
      exact (ih h).trans (((List.mem_tails _ _).1 htail).sublist.count_le x)
    · cases text with
      | nil => cases h
      | cons d rest =>
        simp only [Bool.and_eq_true, Bool.or_eq_true, decide_eq_true_eq] at h
        obtain ⟨hcd, h⟩ := h
        have hle := ih h
        rw [List.count_cons, List.count_cons]
        by_cases hcx : c = x
        · subst hcx
          have hd := hx d (hcd.resolve_left hunderscore)
          simp [hd, hle]
        · simp only [beq_iff_eq, hcx, if_false]
          omega

end SqlLike
