import Mathlib.Algebra.Order.Field.Basic
import Mathlib.Tactic.Linarith

/-!
# Token buckets

A bucket holds tokens up to its capacity and fills at a constant rate.  A request takes a token when
there is a whole one, and otherwise changes nothing.  In every window of time at most the capacity
and what flows in are taken.
-/

namespace TokenBucket

variable {K : Type*} [Field K] [LinearOrder K]

/-- A bucket, with the tokens that flow in during a unit of time. -/
structure Bucket (K : Type*) where
  capacity : K
  rate : K

/-- What was left by the last request that took a token. -/
structure Left (K : Type*) where
  level : K
  since : K

namespace Bucket

variable (b : Bucket K)

/-- A level after some time. -/
def fill (level elapsed : K) : K := min b.capacity (level + b.rate * elapsed)

/-- What the bucket holds now. -/
def holds (s : Left K) (now : K) : K := b.fill s.level (now - s.since)

def request (s : Left K) (now : K) : Bool × Left K :=
  if 1 ≤ b.holds s now then (true, ⟨b.holds s now - 1, now⟩) else (false, s)

/-- The answers to requests one after the other, each with its time. -/
def answers (s : Left K) : List K → List (K × Bool)
  | [] => []
  | now :: times => (now, (b.request s now).1) :: answers (b.request s now).2 times

end Bucket

/-- How many requests take a token from one time to another. -/
def taken (first last : K) (answers : List (K × Bool)) : Nat :=
  answers.countP fun a => a.2 && decide (first ≤ a.1) && decide (a.1 ≤ last)

omit [Field K] in
theorem taken_cons (first last : K) (a : K × Bool) (answers : List (K × Bool)) :
    taken first last (a :: answers) = taken first last answers +
      if a.2 = true ∧ first ≤ a.1 ∧ a.1 ≤ last then 1 else 0 := by
  unfold taken
  rw [List.countP_cons]
  congr 1
  simp only [Bool.and_eq_true, decide_eq_true_eq, and_assoc]

namespace Bucket

variable {b : Bucket K} {s : Left K} {now first last : K} {times : List K}

theorem holds_le : b.holds s now ≤ b.capacity := min_le_left _ _

theorem request_of_le (h : 1 ≤ b.holds s now) :
    b.request s now = (true, ⟨b.holds s now - 1, now⟩) := if_pos h

theorem request_of_lt (h : b.holds s now < 1) : b.request s now = (false, s) :=
  if_neg (not_le.mpr h)

theorem answers_cons_of_le (h : 1 ≤ b.holds s now) :
    b.answers s (now :: times) =
      (now, true) :: b.answers ⟨b.holds s now - 1, now⟩ times := by
  rw [answers, request_of_le h]

theorem answers_cons_of_lt (h : b.holds s now < 1) :
    b.answers s (now :: times) = (now, false) :: b.answers s times := by
  rw [answers, request_of_lt h]

theorem mem_times_of_mem_answers {a : K × Bool} (h : a ∈ b.answers s times) : a.1 ∈ times := by
  induction times generalizing s with
  | nil => cases h
  | cons now times ih =>
    rcases List.mem_cons.mp h with rfl | h
    · exact List.mem_cons_self
    · exact List.mem_cons_of_mem _ (ih h)

theorem taken_eq_zero (h : ∀ now ∈ times, last < now) :
    taken first last (b.answers s times) = 0 := by
  refine List.countP_eq_zero.mpr fun a ha htaken => ?_
  have hlt := h a.1 (mem_times_of_mem_answers ha)
  simp only [Bool.and_eq_true, decide_eq_true_eq] at htaken
  exact absurd htaken.2 (not_le.mpr hlt)

variable [IsStrictOrderedRing K]

theorem fill_fill (hrate : 0 ≤ b.rate) {level e e' : K} (he : 0 ≤ e') :
    b.fill (b.fill level e) e' = b.fill level (e + e') := by
  have hflow := mul_nonneg hrate he
  unfold fill
  rw [← min_add_add_right, ← min_assoc, min_eq_left (le_add_of_nonneg_right hflow), mul_add,
    add_assoc]

theorem taken_le_level (hrate : 0 ≤ b.rate) (hlevel : 0 ≤ s.level) (hlast : s.since ≤ last)
    (hsorted : (s.since :: times).Pairwise (· ≤ ·)) :
    (taken first last (b.answers s times) : K) ≤ s.level + b.rate * (last - s.since) := by
  induction times generalizing s with
  | nil =>
    have hflow := mul_nonneg hrate (sub_nonneg.mpr hlast)
    rw [answers, taken, List.countP_nil, Nat.cast_zero]
    exact add_nonneg hlevel hflow
  | cons now times ih =>
    obtain ⟨hhead, htail⟩ := List.pairwise_cons.mp hsorted
    have hnow : s.since ≤ now := hhead now List.mem_cons_self
    by_cases hover : last < now
    · -- the window is over
      have hzero : taken first last (b.answers s (now :: times)) = 0 := by
        refine taken_eq_zero fun t ht => ?_
        rcases List.mem_cons.mp ht with rfl | ht
        · exact hover
        · exact hover.trans_le ((List.pairwise_cons.mp htail).1 t ht)
      have hflow := mul_nonneg hrate (sub_nonneg.mpr hlast)
      rw [hzero, Nat.cast_zero]
      exact add_nonneg hlevel hflow
    have hin : now ≤ last := not_lt.mp hover
    by_cases htake : 1 ≤ b.holds s now
    · have hrest := ih (s := ⟨b.holds s now - 1, now⟩) (sub_nonneg.mpr htake) hin htail
      have hholds : b.holds s now ≤ s.level + b.rate * (now - s.since) := min_le_right _ _
      have hone : ((if (true = true ∧ first ≤ now ∧ now ≤ last) then 1 else 0 : Nat) : K) ≤ 1 := by
        split <;> simp
      rw [answers_cons_of_le htake, taken_cons, Nat.cast_add]
      dsimp only at hrest hone ⊢
      linarith
    · have hskip := not_le.mp htake
      have hsorted' : (s.since :: times).Pairwise (· ≤ ·) :=
        List.pairwise_cons.mpr ⟨fun t ht => hhead t (List.mem_cons_of_mem _ ht),
          (List.pairwise_cons.mp htail).2⟩
      rw [answers_cons_of_lt hskip, taken_cons, if_neg fun hc => Bool.false_ne_true hc.1]
      exact ih hlevel hlast hsorted'

theorem taken_le (hrate : 0 ≤ b.rate) (hcapacity : 0 ≤ b.capacity) (hwindow : first ≤ last)
    (hsorted : times.Pairwise (· ≤ ·)) :
    (taken first last (b.answers s times) : K) ≤ b.capacity + b.rate * (last - first) := by
  induction times generalizing s with
  | nil =>
    have hflow := mul_nonneg hrate (sub_nonneg.mpr hwindow)
    rw [answers, taken, List.countP_nil, Nat.cast_zero]
    exact add_nonneg hcapacity hflow
  | cons now times ih =>
    obtain ⟨hhead, htail⟩ := List.pairwise_cons.mp hsorted
    by_cases htake : 1 ≤ b.holds s now
    · rw [answers_cons_of_le htake, taken_cons]
      by_cases hin : first ≤ now ∧ now ≤ last
      · -- the first token of the window
        have hrest : (taken first last (b.answers ⟨b.holds s now - 1, now⟩ times) : K) ≤
            b.holds s now - 1 + b.rate * (last - now) :=
          taken_le_level hrate (sub_nonneg.mpr htake) hin.2 hsorted
        have hholds : b.holds s now ≤ b.capacity := holds_le
        have hflow := mul_le_mul_of_nonneg_left (sub_le_sub_left hin.1 last) hrate
        rw [if_pos ⟨rfl, hin⟩, Nat.cast_add, Nat.cast_one]
        linarith
      · rw [if_neg fun hc => hin hc.2]
        exact ih htail
    · rw [answers_cons_of_lt (not_le.mp htake), taken_cons,
        if_neg fun hc => Bool.false_ne_true hc.1]
      exact ih htail

end Bucket

end TokenBucket
