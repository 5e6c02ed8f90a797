import Mathlib.Data.List.Induction
import Mathlib.Data.List.Pairwise
import Mathlib.Data.List.Sort
import Mathlib.Logic.Function.Basic
import Mathlib.Order.Basic

/-!
# Append-only logs of versioned entries

A log is a list of entries, oldest first.  Every entry has a key and a revision.  `last l k` is
the newest entry of `k`, and `lastAt l k t` the newest one written at or before revision `t`.  The
file relates the two along the ways a log changes: an entry is appended, a part of the log is
dropped, or the log is cut at a revision.  `replay` applies the entries of a log to a map, one
after the other.
-/

namespace VersionedLog

variable {ρ κ ι ν : Type*} [DecidableEq κ]

/-! ## The newest entry of a key -/

section Last

variable (key : ρ → κ)

/-- The newest entry of `k`. -/
def last (l : List ρ) (k : κ) : Option ρ := l.reverse.find? fun r => decide (key r = k)

theorem last_append (l m : List ρ) (k : κ) :
    last key (l ++ m) k = (last key m k).or (last key l k) := by
  simp [last, List.find?_append]

theorem last_concat (l : List ρ) (a : ρ) (k : κ) :
    last key (l ++ [a]) k = if key a = k then some a else last key l k := by
  unfold last
  rw [List.reverse_append, List.reverse_singleton, List.singleton_append, List.find?_cons]
  by_cases h : key a = k <;> simp [h]

variable {key} in
theorem last_eq_none_iff {l : List ρ} {k : κ} : last key l k = none ↔ ∀ r ∈ l, key r ≠ k := by
  simp [last]

variable {key} in
theorem last_mem {l : List ρ} {k : κ} {r : ρ} (h : last key l k = some r) : r ∈ l :=
  List.mem_reverse.1 (List.mem_of_find?_eq_some h)

variable {key} in
theorem last_key {l : List ρ} {k : κ} {r : ρ} (h : last key l k = some r) : key r = k := by
  simpa using List.find?_some h

variable {key} in
theorem last_eq_some_iff {l : List ρ} {k : κ} {r : ρ} :
    last key l k = some r ↔
      key r = k ∧ ∃ as bs, l = as ++ r :: bs ∧ ∀ b ∈ bs, key b ≠ k := by
  unfold last
  rw [List.find?_eq_some_iff_append]
  simp only [decide_eq_true_eq, Bool.not_eq_true', decide_eq_false_iff_not]
  refine and_congr_right fun _ => ⟨?_, ?_⟩
  · rintro ⟨as, bs, h, hb⟩
    have hl : l = bs.reverse ++ r :: as.reverse := by
      rw [← List.reverse_reverse l, h]
      simp
    exact ⟨bs.reverse, as.reverse, hl, fun b hm => hb b (List.mem_reverse.1 hm)⟩
  · rintro ⟨as, bs, rfl, hb⟩
    exact ⟨bs.reverse, as.reverse, by simp, fun b hm => hb b (List.mem_reverse.1 hm)⟩

theorem last_filter_key (l : List ρ) (p : κ → Bool) (k : κ) :
    last key (l.filter fun r => p (key r)) k = if p k = true then last key l k else none := by
  induction l using List.reverseRecOn with
  | nil => simp [last]
  | append_singleton l a ih =>
    rw [List.filter_append, last_append, ih, last_concat]
    by_cases h : key a = k
    · subst h
      by_cases hp : p (key a) = true <;> simp [hp, last]
    · by_cases hp : p (key a) = true <;> simp [hp, h, last]

theorem last_map {σ κ' : Type*} [DecidableEq κ'] (key' : σ → κ') {f : ρ → σ} {g : κ → κ'}
    (hg : Function.Injective g) (hf : ∀ r, key' (f r) = g (key r)) (l : List ρ) (k : κ) :
    last key' (l.map f) (g k) = (last key l k).map f := by
  unfold last
  rw [← List.map_reverse, List.find?_map]
  simp only [Function.comp_def, hf, hg.eq_iff]

theorem last_eq_getLast? (l : List ρ) (k : κ) :
    last key l k = (l.filter fun r => decide (key r = k)).getLast? := by
  rw [last, ← List.head?_filter, List.filter_reverse, List.head?_reverse]

end Last

/-! ## The newest entry at a revision -/

section LastAt

variable [LinearOrder ι] (key : ρ → κ) (rev : ρ → ι)

/-- The newest entry of `k` among those written at or before `t`. -/
def lastAt (l : List ρ) (k : κ) (t : ι) : Option ρ :=
  l.reverse.find? fun r => decide (key r = k) && decide (rev r ≤ t)

theorem lastAt_eq_last_filter (l : List ρ) (k : κ) (t : ι) :
    lastAt key rev l k t = last key (l.filter fun r => decide (rev r ≤ t)) k := by
  unfold lastAt last
  rw [← List.filter_reverse, List.find?_filter]
  simp [Bool.and_comm]

variable {key rev} in
theorem lastAt_eq_last {l : List ρ} {t : ι} (h : ∀ r ∈ l, rev r ≤ t) (k : κ) :
    lastAt key rev l k t = last key l k := by
  rw [lastAt_eq_last_filter, List.filter_eq_self.2 fun r hr => decide_eq_true (h r hr)]

variable {key rev} in
theorem lastAt_mem {l : List ρ} {k : κ} {t : ι} {r : ρ} (h : lastAt key rev l k t = some r) :
    r ∈ l ∧ key r = k ∧ rev r ≤ t := by
  have hs := List.find?_some h
  simp only [Bool.and_eq_true, decide_eq_true_eq] at hs
  exact ⟨List.mem_reverse.1 (List.mem_of_find?_eq_some h), hs.1, hs.2⟩

variable {key rev} in
theorem lastAt_eq_none_iff {l : List ρ} {k : κ} {t : ι} :
    lastAt key rev l k t = none ↔ ∀ r ∈ l, key r = k → ¬ rev r ≤ t := by
  simp [lastAt]

variable {key rev} in
theorem rev_le_of_lastAt {l : List ρ} (hl : l.Pairwise fun a b => rev a ≤ rev b) {k : κ} {t : ι}
    {r q : ρ} (h : lastAt key rev l k t = some r) (hq : q ∈ l) (hk : key q = k) (ht : rev q ≤ t) :
    rev q ≤ rev r := by
  rw [lastAt_eq_last_filter, last_eq_some_iff] at h
  obtain ⟨-, as, bs, hf, hb⟩ := h
  have hmem : q ∈ as ++ r :: bs := by
    rw [← hf]
    exact List.mem_filter.2 ⟨hq, decide_eq_true ht⟩
  have hsorted : (as ++ r :: bs).Pairwise fun a b => rev a ≤ rev b := by
    rw [← hf]
    exact hl.filter _
  rcases List.mem_append.1 hmem with ha | hc
  · exact (List.pairwise_append.1 hsorted).2.2 q ha r List.mem_cons_self
  · rcases List.mem_cons.1 hc with rfl | hc
    · exact le_rfl
    · exact absurd hk (hb q hc)

variable {key rev} in
theorem lastAt_eq_some_iff {l : List ρ} (hl : l.Pairwise fun a b => rev a < rev b) {k : κ} {t : ι}
    {r : ρ} : lastAt key rev l k t = some r ↔
      r ∈ l ∧ key r = k ∧ rev r ≤ t ∧ ∀ q ∈ l, key q = k → rev q ≤ t → rev q ≤ rev r := by
  have hle : l.Pairwise fun a b => rev a ≤ rev b := hl.imp le_of_lt
  constructor
  · intro h
    obtain ⟨h₁, h₂, h₃⟩ := lastAt_mem h
    exact ⟨h₁, h₂, h₃, fun q hq hk ht => rev_le_of_lastAt hle h hq hk ht⟩
  · rintro ⟨hr, rfl, ht, hmax⟩
    cases h : lastAt key rev l (key r) t with
    | none => exact absurd ht (lastAt_eq_none_iff.1 h r hr rfl)
    | some q =>
      obtain ⟨hq, hk, hqt⟩ := lastAt_mem h
      have heq : rev r = rev q :=
        le_antisymm (rev_le_of_lastAt hle h hr rfl ht) (hmax q hq hk hqt)
      by_contra hne
      have hne' : r ≠ q := fun he => hne (he ▸ rfl)
      have : Std.Symm fun a b => rev a ≠ rev b := ⟨fun _ _ h => h.symm⟩
      exact (hl.imp (S := fun a b => rev a ≠ rev b) ne_of_lt).forall hr hq hne' heq

variable {key rev} in
theorem rev_le_of_last {l : List ρ} (hl : l.Pairwise fun a b => rev a ≤ rev b) {k : κ} {r q : ρ}
    (h : last key l k = some r) (hq : q ∈ l) (hk : key q = k) : rev q ≤ rev r := by
  obtain ⟨-, as, bs, rfl, hb⟩ := last_eq_some_iff.1 h
  rcases List.mem_append.1 hq with ha | hc
  · exact (List.pairwise_append.1 hl).2.2 q ha r List.mem_cons_self
  · rcases List.mem_cons.1 hc with rfl | hc
    · exact le_rfl
    · exact absurd hk (hb q hc)

variable {rev} in
theorem filter_le_append_filter_lt {l : List ρ} (hl : l.Pairwise fun a b => rev a ≤ rev b) (t : ι) :
    (l.filter fun r => decide (rev r ≤ t)) ++ (l.filter fun r => decide (t < rev r)) = l := by
  induction l with
  | nil => rfl
  | cons a l ih =>
    obtain ⟨ha, hl⟩ := List.pairwise_cons.1 hl
    by_cases h : rev a ≤ t
    · have hn : ¬ t < rev a := not_lt.2 h
      simpa [h, hn] using ih hl
    · -- everything after `a` is above `t` as well
      have hnone : (l.filter fun r => decide (rev r ≤ t)) = [] :=
        List.filter_eq_nil_iff.2 fun r hr hle =>
          h ((ha r hr).trans (of_decide_eq_true hle))
      have hall : (l.filter fun r => decide (t < rev r)) = l :=
        List.filter_eq_self.2 fun r hr =>
          decide_eq_true (lt_of_lt_of_le (not_le.1 h) (ha r hr))
      simp [h, not_le.1 h, hnone, hall]

variable {rev} in
theorem rev_le_getLast? {l : List ρ} (hl : l.Pairwise fun a b => rev a ≤ rev b) (t : ι) {r : ρ}
    (hr : r ∈ l) : rev r ≤ (l.getLast?.map rev).getD t := by
  induction l using List.reverseRecOn with
  | nil => cases hr
  | append_singleton l a _ =>
    rw [List.getLast?_concat, Option.map_some, Option.getD_some]
    rcases List.mem_append.1 hr with hr | hr
    · exact (List.pairwise_append.1 hl).2.2 r hr a (List.mem_singleton_self a)
    · rw [List.mem_singleton.1 hr]

end LastAt

section Collect

variable (key : ρ → κ) {p : κ → Prop} [DecidablePred p] {f : List κ → ρ → List κ}

theorem foldl_collect (hf : ∀ ks r, f ks r = if p (key r) ∧ key r ∉ ks then ks ++ [key r] else ks)
    (l : List ρ) {ks : List κ} (hn : ks.Nodup) :
    (l.foldl f ks).Nodup ∧ ∀ k, k ∈ l.foldl f ks ↔ k ∈ ks ∨ p k ∧ ∃ r ∈ l, key r = k := by
  induction l generalizing ks with
  | nil => simpa using hn
  | cons a l ih =>
    rw [List.foldl_cons, hf]
    split_ifs with h
    · have hn' : (ks ++ [key a]).Nodup := List.nodup_append.2 ⟨hn, List.nodup_singleton _, by
        rintro x hx y hy rfl
        exact h.2 (List.mem_singleton.1 hy ▸ hx)⟩
      refine ⟨(ih hn').1, fun k => ((ih hn').2 k).trans ?_⟩
      constructor
      · rintro (hk | ⟨hp, r, hr, rfl⟩)
        · rcases List.mem_append.1 hk with hk | hk
          · exact Or.inl hk
          · obtain rfl := List.mem_singleton.1 hk
            exact Or.inr ⟨h.1, a, List.mem_cons_self, rfl⟩
        · exact Or.inr ⟨hp, r, List.mem_cons_of_mem _ hr, rfl⟩
      · rintro (hk | ⟨hp, r, hr, rfl⟩)
        · exact Or.inl (List.mem_append_left _ hk)
        · rcases List.mem_cons.1 hr with rfl | hr
          · exact Or.inl (List.mem_append_right _ (List.mem_singleton.2 rfl))
          · exact Or.inr ⟨hp, r, hr, rfl⟩
    · refine ⟨(ih hn).1, fun k => ((ih hn).2 k).trans (or_congr_right' fun hk => ?_)⟩
      refine and_congr_right fun hp => ⟨?_, ?_⟩
      · rintro ⟨r, hr, rfl⟩
        exact ⟨r, List.mem_cons_of_mem _ hr, rfl⟩
      · rintro ⟨r, hr, rfl⟩
        rcases List.mem_cons.1 hr with rfl | hr
        · exact absurd ⟨hp, hk⟩ h
        · exact ⟨r, hr, rfl⟩

end Collect

section

variable [LinearOrder ι] (key : ρ → κ) {rev : ρ → ι}

variable {key} in
theorem lastAt_filter {l : List ρ} {k : κ} {t : ι} {r : ρ} {p : ρ → Bool}
    (h : lastAt key rev l k t = some r) (hp : p r = true) :
    lastAt key rev (l.filter p) k t = some r := by
  rw [lastAt_eq_last_filter] at h ⊢
  obtain ⟨hk, as, bs, hl, hb⟩ := last_eq_some_iff.1 h
  rw [List.filter_filter, funext fun r => Bool.and_comm _ _, ← List.filter_filter, hl]
  refine last_eq_some_iff.2 ⟨hk, as.filter p, bs.filter p, ?_, fun b hm => ?_⟩
  · rw [List.filter_append, List.filter_cons_of_pos hp]
  · exact hb b (List.mem_of_mem_filter hm)

theorem exists_lastAt {l : List ρ} {t : ι} {r : ρ} (hr : r ∈ l) (ht : rev r ≤ t) :
    ∃ q, lastAt key rev l (key r) t = some q := by
  by_contra hne
  push Not at hne
  exact lastAt_eq_none_iff.1 (Option.eq_none_iff_forall_ne_some.2 hne) r hr rfl ht

end

theorem filter_isSuffix {R : ρ → ρ → Prop} {p : ρ → Bool} {l : List ρ} (hl : l.Pairwise R)
    (hp : ∀ a b, R a b → a ∈ l → b ∈ l → p a = true → p b = true) : l.filter p <:+ l := by
  induction l with
  | nil => exact List.suffix_rfl
  | cons a l ih =>
    obtain ⟨ha, hl⟩ := List.pairwise_cons.1 hl
    by_cases h : p a = true
    · have hall : ∀ b ∈ a :: l, p b = true := by
        intro b hb
        rcases List.mem_cons.1 hb with rfl | hb
        · exact h
        · exact hp a b (ha b hb) List.mem_cons_self (List.mem_cons_of_mem _ hb) h
      simp only [List.filter_eq_self.2 hall, List.suffix_rfl]
    · rw [List.filter_cons_of_neg h]
      refine (ih hl fun x y hR hx hy => ?_).trans (List.suffix_cons _ _)
      exact hp x y hR (List.mem_cons_of_mem _ hx) (List.mem_cons_of_mem _ hy)

section Replay

variable (key : ρ → κ) (val : ρ → Option ν)

/-- Apply the entries of `l` to the map `m` in order: an entry sets its key to its value, or
removes the key when it has none. -/
def replay (m : κ → Option ν) (l : List ρ) : κ → Option ν :=
  l.foldl (fun m r => Function.update m (key r) (val r)) m

theorem replay_apply (m : κ → Option ν) (l : List ρ) (k : κ) :
    replay key val m l k = match last key l k with
      | some r => val r
      | none => m k := by
  induction l using List.reverseRecOn with
  | nil => rfl
  | append_singleton l a ih =>
    rw [last_concat]
    unfold replay at ih ⊢
    rw [List.foldl_append, List.foldl_cons, List.foldl_nil]
    by_cases h : key a = k
    · subst h
      simp
    · rw [Function.update_of_ne (Ne.symm h), if_neg h, ih]

end Replay

end VersionedLog
