import Mathlib.Algebra.BigOperators.Group.List.Basic
import Mathlib.Algebra.Order.Field.Rat
import Mathlib.Data.List.Count
import Mathlib.Data.List.Nodup
import Mathlib.Tactic.FieldSimp
import Mathlib.Tactic.Linarith
import Mathlib.Tactic.Ring

/-!
# Finite distributions

A distribution is the list of its outcomes with rational weights; an outcome may stand there more
than once.  An event has the sum of the weights of its outcomes as probability.
-/

namespace CaveHome

abbrev Dist (α : Type*) := List (ℚ × α)

namespace Dist

variable {α β : Type*}

def pure (a : α) : Dist α := [(1, a)]

def bind (d : Dist α) (f : α → Dist β) : Dist β :=
  d.flatMap fun e => (f e.2).map fun e' => (e.1 * e'.1, e'.2)

/-- A coin that falls on the one side with probability `q`; a certain outcome stands alone. -/
def coin (q : ℚ) : Dist Bool :=
  if q = 1 then pure true else if q = 0 then pure false else [(q, true), (1 - q, false)]

/-- All members of the list are equally likely. -/
def uniform (l : List α) : Dist α := l.map fun a => (1 / (l.length : ℚ), a)

def prob (d : Dist α) (p : α → Bool) : ℚ := ((d.filter fun e => p e.2).map (·.1)).sum

@[simp]
theorem pure_bind (a : α) (f : α → Dist β) : bind (pure a) f = f a := by
  simp [bind, pure]

@[simp]
theorem coin_one : coin 1 = pure true := if_pos rfl

@[simp]
theorem coin_zero : coin 0 = pure false := by
  simp [coin]

theorem mem_uniform {l : List α} {e : ℚ × α} (h : e ∈ uniform l) : e.2 ∈ l := by
  obtain ⟨a, ha, rfl⟩ := List.mem_map.1 h
  exact ha

@[simp]
theorem uniform_singleton (a : α) : uniform [a] = pure a := by
  simp [uniform, pure]

theorem prob_uniform [DecidableEq α] {l : List α} (h : l.Nodup) {a : α} (ha : a ∈ l) :
    prob (uniform l) (fun b => b = a) = 1 / l.length := by
  have hfilter : l.filter (fun b => b = a) = [a] := by
    rw [List.filter_eq, List.count_eq_one_of_mem h ha, List.replicate_one]
  rw [prob, uniform, List.filter_map, List.map_map]
  have hcomp : ((fun e : ℚ × α => decide (e.2 = a)) ∘ fun b => (1 / (l.length : ℚ), b)) =
      fun b => decide (b = a) := rfl
  rw [hcomp, hfilter]
  simp

theorem coin_bind_uniform (a : α) {l : List α} (hl : l ≠ []) :
    bind (coin (1 / ((a :: l).length : ℚ))) (fun b => if b then pure a else uniform l) =
      uniform (a :: l) := by
  have hpos : (0 : ℚ) < l.length := by
    exact_mod_cast List.length_pos_of_ne_nil hl
  have hlength : ((a :: l).length : ℚ) = l.length + 1 := by
    rw [List.length_cons, Nat.cast_add, Nat.cast_one]
  have hone : 1 / ((l.length : ℚ) + 1) ≠ 1 := by
    rw [Ne, div_eq_one_iff_eq (by linarith)]
    linarith
  have hzero : 1 / ((l.length : ℚ) + 1) ≠ 0 := one_div_ne_zero (by linarith)
  have hrest : (1 - 1 / ((l.length : ℚ) + 1)) * (1 / l.length) = 1 / (l.length + 1) := by
    field_simp
    ring
  rw [hlength, coin, if_neg hone, if_neg hzero]
  simp only [bind, List.flatMap_cons, List.flatMap_nil, List.append_nil, if_true, uniform, pure,
    List.map_cons, List.map_nil, mul_one, List.map_map, List.singleton_append, hlength,
    Bool.false_eq_true, if_false, Function.comp_def, hrest]

end Dist

end CaveHome
