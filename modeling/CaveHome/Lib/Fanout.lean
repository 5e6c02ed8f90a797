import CaveHome.Lib.Runs
import Mathlib.Data.List.Basic
import Mathlib.Data.Set.Insert

/-!
# Handing numbered items out to their receivers

Items are published one after the other and numbered in this order.  Each has a topic and an
audience.  Whoever hands an item out starts at some time and then serves the receivers one by one;
several items may be handed out at once.

Every receiver gets every item exactly once, whatever the order of the steps.  If no item of a
topic is started while an earlier one is still owed to somebody, then every receiver gets the items
of that topic in the order of their numbers.
-/

namespace CaveHome

structure Item (κ ρ : Type*) where
  topic : κ
  audience : List ρ

/-- The items so far, those that have been started, who is still to be served with which, and what
every receiver got. -/
structure Fanout (κ ρ : Type*) where
  items : List (Item κ ρ)
  started : Set ℕ
  owed : ℕ → List ρ
  received : ρ → List ℕ

namespace Fanout

variable {κ ρ : Type*} {f : Fanout κ ρ} {k : κ} {n : ℕ} {r : ρ}
  {i : Item κ ρ} {rest : List ρ}

def empty : Fanout κ ρ := ⟨[], ∅, fun _ => [], fun _ => []⟩

def publish (i : Item κ ρ) (f : Fanout κ ρ) : Fanout κ ρ :=
  { f with
    items := f.items ++ [i]
    owed := Function.update f.owed f.items.length i.audience }

def start (n : ℕ) (f : Fanout κ ρ) : Fanout κ ρ := { f with started := insert n f.started }

/-- Serve the receiver `r`, after which the others are still to be served. -/
def hand [DecidableEq ρ] (n : ℕ) (r : ρ) (rest : List ρ) (f : Fanout κ ρ) : Fanout κ ρ :=
  { f with
    owed := Function.update f.owed n rest
    received := Function.update f.received r (f.received r ++ [n]) }

def audience (f : Fanout κ ρ) (n : ℕ) : List ρ := (f.items[n]?.map Item.audience).getD []

/-- The item has the topic. -/
def About (f : Fanout κ ρ) (k : κ) (n : ℕ) : Prop := f.items[n]?.map Item.topic = some k

theorem audience_of_le (h : f.items.length ≤ n) : f.audience n = [] := by
  simp [audience, List.getElem?_eq_none h]

theorem audience_publish :
    (f.publish i).audience n = if n = f.items.length then i.audience else f.audience n := by
  unfold audience publish
  obtain hlt | rfl | hgt := Nat.lt_trichotomy n f.items.length
  · rw [if_neg hlt.ne, List.getElem?_append_left hlt]
  · simp
  · rw [if_neg hgt.ne', List.getElem?_eq_none (by simp; omega),
      List.getElem?_eq_none hgt.le]

theorem about_publish :
    (f.publish i).About k n ↔ if n = f.items.length then i.topic = k else f.About k n := by
  unfold About publish
  obtain hlt | rfl | hgt := Nat.lt_trichotomy n f.items.length
  · rw [if_neg hlt.ne, List.getElem?_append_left hlt]
  · simp
  · rw [if_neg hgt.ne', List.getElem?_eq_none (by simp; omega),
      List.getElem?_eq_none hgt.le]

/-! ## Every receiver gets every item once -/

section Once

variable [DecidableEq ρ]

/-- What is received and what is owed make up the audience, which names nobody twice. -/
structure Exact (f : Fanout κ ρ) : Prop where
  nodup : ∀ n, (f.audience n).Nodup
  count : ∀ n r, (f.received r).count n + (f.owed n).count r = (f.audience n).count r
  started_lt : ∀ n ∈ f.started, n < f.items.length

theorem Exact.lt_of_mem_received (h : Exact f) (hn : n ∈ f.received r) : n < f.items.length := by
  by_contra hge
  have hcount := h.count n r
  rw [audience_of_le (Nat.not_lt.mp hge), List.count_nil] at hcount
  have hpos := List.count_pos_iff.mpr hn
  omega

theorem Exact.mem_audience (h : Exact f) (hr : r ∈ f.owed n) : r ∈ f.audience n := by
  have hcount := h.count n r
  have hpos := List.count_pos_iff.mpr hr
  exact List.count_pos_iff.mp (by omega)

theorem Exact.not_mem_rest (h : Exact f) (ho : f.owed n = r :: rest) :
    r ∉ rest ∧ n ∉ f.received r := by
  have hcount := h.count n r
  have hle := List.nodup_iff_count.mp (h.nodup n) r
  rw [ho, List.count_cons_self] at hcount
  constructor
  · apply List.count_eq_zero.mp
    omega
  · apply List.count_eq_zero.mp
    omega

theorem Exact.nodup_received (h : Exact f) (r : ρ) : (f.received r).Nodup := by
  apply List.nodup_iff_count.mpr
  intro n
  have hcount := h.count n r
  have hle := List.nodup_iff_count.mp (h.nodup n) r
  omega

theorem Exact.mem_received_iff (h : Exact f) (ho : f.owed n = []) :
    n ∈ f.received r ↔ r ∈ f.audience n := by
  have hcount := h.count n r
  rw [ho, List.count_nil, Nat.add_zero] at hcount
  rw [← List.count_pos_iff, ← List.count_pos_iff, hcount]

theorem exact_empty : Exact (empty : Fanout κ ρ) where
  nodup := by simp [audience, empty]
  count := by simp [audience, empty]
  started_lt := by simp [empty]

theorem Exact.publish (h : Exact f) (hi : i.audience.Nodup) : Exact (f.publish i) where
  nodup := by
    intro n
    rw [audience_publish]
    split
    · exact hi
    · exact h.nodup n
  count := by
    intro n r
    rw [audience_publish]
    show (f.received r).count n + (Function.update f.owed f.items.length i.audience n).count r = _
    split
    next hn =>
      subst hn
      have hcount := h.count f.items.length r
      rw [audience_of_le le_rfl, List.count_nil] at hcount
      rw [Function.update_self]
      omega
    next hn =>
      rw [Function.update_of_ne hn]
      exact h.count n r
  started_lt := by
    intro n hn
    have hlt := h.started_lt n hn
    show n < (f.items ++ [i]).length
    rw [List.length_append]
    omega

theorem Exact.start (h : Exact f) (hn : n < f.items.length) : Exact (f.start n) where
  nodup := h.nodup
  count := h.count
  started_lt := by
    rintro m (rfl | hm)
    · exact hn
    · exact h.started_lt m hm

theorem Exact.hand (h : Exact f) (ho : f.owed n = r :: rest) : Exact (f.hand n r rest) where
  nodup := h.nodup
  count := by
    intro m q
    have hcount := h.count m q
    show (Function.update f.received r (f.received r ++ [n]) q).count m
      + (Function.update f.owed n rest m).count q = (f.audience m).count q
    by_cases hq : q = r
    · by_cases hm : m = n
      · subst hq hm
        rw [ho, List.count_cons_self] at hcount
        rw [Function.update_self, Function.update_self, List.count_append,
          List.count_singleton_self]
        omega
      · subst hq
        rw [Function.update_self, Function.update_of_ne hm, List.count_append,
          List.count_singleton, if_neg (by simpa using Ne.symm hm)]
        exact hcount
    · rw [Function.update_of_ne hq]
      by_cases hm : m = n
      · subst hm
        rw [ho, List.count_cons_of_ne (Ne.symm hq)] at hcount
        rw [Function.update_self]
        exact hcount
      · rw [Function.update_of_ne hm]
        exact hcount
  started_lt := h.started_lt

end Once

/-! ## The order of one topic -/

section Order

variable [DecidableEq κ] [DecidableEq ρ]

instance (f : Fanout κ ρ) (k : κ) : DecidablePred (f.About k) :=
  fun _ => inferInstanceAs (Decidable (_ = _))

/-- The numbers of the items of a topic that are meant for a receiver. -/
def numbers (f : Fanout κ ρ) (k : κ) (r : ρ) : List ℕ :=
  (List.range f.items.length).filter fun n => f.About k n ∧ r ∈ f.audience n

/-- What a receiver got of a topic. -/
def got (f : Fanout κ ρ) (k : κ) (r : ρ) : List ℕ := (f.received r).filter fun n => f.About k n

/-- What a receiver is still owed of a topic. -/
def pending (f : Fanout κ ρ) (k : κ) (r : ρ) : List ℕ :=
  (f.numbers k r).filter fun n => r ∈ f.owed n

/-- A receiver is owed of the topic what follows on what it got, and an item is started only when
all earlier ones are done. -/
structure Ordered (f : Fanout κ ρ) (k : κ) : Prop where
  queue : ∀ r, f.numbers k r = f.got k r ++ f.pending k r
  started : ∀ n ∈ f.started, f.About k n → ∀ m < n, f.About k m → f.owed m = []

theorem lt_of_mem_numbers (hn : n ∈ f.numbers k r) : n < f.items.length :=
  List.mem_range.mp (List.mem_filter.mp hn).1

theorem pairwise_pending : (f.pending k r).Pairwise (· < ·) :=
  (List.pairwise_lt_range.filter _).filter _

theorem numbers_publish : (f.publish i).numbers k r
    = f.numbers k r ++ if i.topic = k ∧ r ∈ i.audience then [f.items.length] else [] := by
  have hlength : (f.publish i).items.length = f.items.length + 1 := by simp [publish]
  unfold numbers
  rw [hlength, List.range_succ, List.filter_append]
  congr 1
  · apply List.filter_congr
    intro n hn
    have hne : n ≠ f.items.length := (List.mem_range.mp hn).ne
    simp only [about_publish, audience_publish, if_neg hne]
  · simp only [List.filter_singleton, about_publish, audience_publish, if_pos, Bool.cond_decide]

theorem Exact.got_publish (h : Exact f) : (f.publish i).got k r = f.got k r := by
  apply List.filter_congr
  intro n hn
  simp only [about_publish, if_neg (h.lt_of_mem_received hn).ne]

theorem pending_publish : (f.publish i).pending k r
    = f.pending k r ++ if i.topic = k ∧ r ∈ i.audience then [f.items.length] else [] := by
  unfold pending
  rw [numbers_publish, List.filter_append]
  congr 1
  · apply List.filter_congr
    intro n hn
    show decide (r ∈ Function.update f.owed f.items.length i.audience n) = _
    rw [Function.update_of_ne (lt_of_mem_numbers hn).ne]
  · split
    next hi =>
      show List.filter (fun n => decide (r ∈ Function.update f.owed f.items.length i.audience n))
        [f.items.length] = _
      rw [List.filter_singleton, Function.update_self, decide_eq_true hi.2]
      rfl
    next => rfl

theorem ordered_empty : Ordered (empty : Fanout κ ρ) k where
  queue := by simp [numbers, got, pending, empty]
  started := by simp [empty]

theorem Ordered.publish (h : Ordered f k) (he : Exact f) : Ordered (f.publish i) k where
  queue := by
    intro r
    rw [numbers_publish, he.got_publish, pending_publish, h.queue r, List.append_assoc]
  started := by
    intro n hn habout m hm hm'
    have hlt := he.started_lt n hn
    rw [about_publish, if_neg hlt.ne] at habout
    rw [about_publish, if_neg (hm.trans hlt).ne] at hm'
    show Function.update f.owed f.items.length i.audience m = []
    rw [Function.update_of_ne (hm.trans hlt).ne]
    exact h.started n hn habout m hm hm'

theorem Ordered.start (h : Ordered f k)
    (hn : f.About k n → ∀ m < n, f.About k m → f.owed m = []) : Ordered (f.start n) k where
  queue := h.queue
  started := by
    rintro m (rfl | hm)
    · exact hn
    · exact h.started m hm

theorem eq_cons_filter_ne {l : List ℕ} (hl : l.Pairwise (· < ·)) (hn : n ∈ l)
    (hmin : ∀ m ∈ l, n ≤ m) : l = n :: l.filter (· ≠ n) := by
  cases l with
  | nil => cases hn
  | cons a t =>
    have hlt := (List.pairwise_cons.mp hl).1
    obtain rfl : n = a := by
      obtain rfl | ht := List.mem_cons.mp hn
      · rfl
      · have hle := hmin a List.mem_cons_self
        have hgt := hlt n ht
        omega
    rw [List.filter_cons_of_neg (by simp), List.filter_eq_self.mpr]
    intro m hm
    have hgt := hlt m hm
    simp only [ne_eq, decide_eq_true_eq]
    omega

theorem Exact.pending_hand (h : Exact f) (ho : f.owed n = r :: rest) :
    (f.hand n r rest).pending k r = (f.pending k r).filter (· ≠ n) := by
  unfold pending
  rw [List.filter_filter]
  apply List.filter_congr
  intro m _
  show decide (r ∈ Function.update f.owed n rest m) = _
  by_cases hm : m = n
  · subst hm
    rw [Function.update_self, decide_eq_false (h.not_mem_rest ho).1]
    simp
  · rw [Function.update_of_ne hm]
    simp [hm]

theorem pending_hand_of_ne {q : ρ} (hq : q ≠ r) (ho : f.owed n = r :: rest) :
    (f.hand n r rest).pending k q = f.pending k q := by
  apply List.filter_congr
  intro m _
  show decide (q ∈ Function.update f.owed n rest m) = _
  by_cases hm : m = n
  · subst hm
    rw [Function.update_self, ho]
    simp [hq]
  · rw [Function.update_of_ne hm]

theorem Ordered.pending_eq_cons (h : Ordered f k) (he : Exact f) (hs : n ∈ f.started)
    (hk : f.About k n) (ho : f.owed n = r :: rest) :
    f.pending k r = n :: (f.hand n r rest).pending k r := by
  have howed : r ∈ f.owed n := by
    rw [ho]
    exact List.mem_cons_self
  rw [he.pending_hand ho]
  apply eq_cons_filter_ne pairwise_pending
  · apply List.mem_filter.mpr
    refine ⟨List.mem_filter.mpr ⟨List.mem_range.mpr (he.started_lt n hs), ?_⟩, by simpa using howed⟩
    exact decide_eq_true ⟨hk, he.mem_audience howed⟩
  · intro m hm
    obtain ⟨hnum, hr⟩ := List.mem_filter.mp hm
    have habout := (of_decide_eq_true (List.mem_filter.mp hnum).2).1
    by_contra hlt
    rw [h.started n hs hk m (Nat.not_le.mp hlt) habout] at hr
    simp at hr

theorem Ordered.hand (h : Ordered f k) (he : Exact f) (hs : n ∈ f.started)
    (ho : f.owed n = r :: rest) : Ordered (f.hand n r rest) k where
  queue := by
    intro q
    show f.numbers k q = (f.hand n r rest).got k q ++ _
    rw [h.queue q]
    by_cases hq : q = r
    · subst hq
      have hgot : (f.hand n q rest).got k q
          = f.got k q ++ [n].filter fun n => f.About k n := by
        show (Function.update f.received q (f.received q ++ [n]) q).filter _ = _
        rw [Function.update_self, List.filter_append]
        rfl
      rw [hgot]
      by_cases hk : f.About k n
      · rw [h.pending_eq_cons he hs hk ho]
        simp [hk]
      · have hsame : (f.hand n q rest).pending k q = f.pending k q := by
          rw [he.pending_hand ho]
          apply List.filter_eq_self.mpr
          intro m hm
          have habout := (of_decide_eq_true (List.mem_filter.mp (List.mem_filter.mp hm).1).2).1
          simp only [ne_eq, decide_eq_true_eq]
          rintro rfl
          exact hk habout
        rw [hsame]
        simp [hk]
    · rw [pending_hand_of_ne hq ho]
      congr 1
      show _ = (Function.update f.received r (f.received r ++ [n]) q).filter _
      rw [Function.update_of_ne hq]
      rfl
  started := by
    intro m hm hk m' hlt hk'
    have hdone := h.started m hm hk m' hlt hk'
    show Function.update f.owed n rest m' = []
    have hne : m' ≠ n := by
      rintro rfl
      rw [ho] at hdone
      cases hdone
    rw [Function.update_of_ne hne]
    exact hdone

theorem Ordered.got_prefix (h : Ordered f k) (r : ρ) : f.got k r <+: f.numbers k r :=
  ⟨_, (h.queue r).symm⟩

theorem Ordered.got_eq (h : Ordered f k) (ho : ∀ n, f.owed n = []) (r : ρ) :
    f.got k r = f.numbers k r := by
  rw [h.queue r, pending, List.filter_eq_nil_iff.mpr (by simp [ho]), List.append_nil]

end Order

end Fanout

end CaveHome
