import Mathlib.Data.Option.Basic

/-!
# Runs of a partial step function

A system takes steps, each of which may be impossible in the state it is tried in.  An invariant
is proved once for one step; a condition on the states in which steps are taken can be assumed on
the way.
-/

namespace CaveHome.Runs

variable {σ α : Type*} (step : σ → α → Option σ)

/-- The state after a list of steps, when all of them are possible. -/
def run (s : σ) : List α → Option σ
  | [] => some s
  | a :: as => (step s a).bind fun t => run t as

/-- Every step of the run is taken in a state that satisfies the condition. -/
def Along (ok : σ → α → Prop) (s : σ) : List α → Prop
  | [] => True
  | a :: as => ok s a ∧ ∀ t, step s a = some t → Along ok t as

variable {step} {ok : σ → α → Prop} {Inv : σ → Prop} {s t : σ} {as bs : List α}

theorem run_cons {a : α} (h : run step s (a :: as) = some t) :
    ∃ u, step s a = some u ∧ run step u as = some t :=
  Option.bind_eq_some_iff.1 h

theorem run_append : run step s (as ++ bs) = (run step s as).bind fun u => run step u bs := by
  induction as generalizing s with
  | nil => rfl
  | cons a as ih =>
    rw [List.cons_append, run, run, Option.bind_assoc]
    congr 1
    funext u
    exact ih

theorem along_cons {a : α} (ha : ok s a) (hstep : step s a = some t) (h : Along step ok t as) :
    Along step ok s (a :: as) := by
  refine ⟨ha, fun u hu => ?_⟩
  obtain rfl := Option.some.inj (hstep.symm.trans hu)
  exact h

/-- A condition that can be decided in each state can be decided along a run. -/
instance decidableAlong [∀ s a, Decidable (ok s a)] (s : σ) :
    (as : List α) → Decidable (Along step ok s as)
  | [] => isTrue trivial
  | a :: as =>
    match h : step s a with
    | none => decidable_of_iff (ok s a) ⟨fun ha => ⟨ha, fun t ht => by simp [h] at ht⟩, And.left⟩
    | some t =>
      have := decidableAlong t as
      decidable_of_iff (ok s a ∧ Along step ok t as)
        ⟨fun ⟨ha, hrest⟩ => along_cons ha h hrest, fun hcons => ⟨hcons.1, hcons.2 t h⟩⟩

theorem along_of_forall {p : α → Prop} (h : ∀ a ∈ as, p a) : Along step (fun _ a => p a) s as := by
  induction as generalizing s with
  | nil => trivial
  | cons a as ih =>
    exact ⟨h a List.mem_cons_self, fun t _ => ih fun b hb => h b (List.mem_cons_of_mem a hb)⟩

theorem invariant_along (hstep : ∀ s a t, ok s a → Inv s → step s a = some t → Inv t)
    (hok : Along step ok s as) (hs : Inv s) (h : run step s as = some t) : Inv t := by
  induction as generalizing s with
  | nil => exact Option.some.inj h ▸ hs
  | cons a as ih =>
    obtain ⟨u, hu, hrest⟩ := run_cons h
    exact ih (hok.2 u hu) (hstep s a u hok.1 hs hu) hrest

theorem invariant (hstep : ∀ s a t, Inv s → step s a = some t → Inv t) (hs : Inv s)
    (h : run step s as = some t) : Inv t :=
  invariant_along (fun s a t _ => hstep s a t)
    (along_of_forall (p := fun _ => True) fun _ _ => trivial) hs h

end CaveHome.Runs
