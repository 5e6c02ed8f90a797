import Mathlib.Init

/-!
# Loops that end

The body of a loop fails, leaves with a result or goes on from a new state.  Where a number gets
smaller with every turn the loop ends, and any number of turns that is enough finds its result.
-/

namespace CaveHome.Rounds

/-- How one turn of a loop ends. -/
inductive Turn (σ β : Type)
  | again (s : σ)
  | leave (b : β)

variable {ε σ β : Type} {body : σ → Except ε (Turn σ β)} {size : σ → Nat} {s s' : σ}
variable {r : Except ε β} {n m : Nat}

/-- What the loop finds within so many turns. -/
def within (body : σ → Except ε (Turn σ β)) : Nat → σ → Option (Except ε β)
  | 0, _ => none
  | n + 1, s =>
    match body s with
    | .error e => some (.error e)
    | .ok (.leave b) => some (.ok b)
    | .ok (.again s') => within body n s'

/-- The number gets smaller with every turn. -/
def Decreases (body : σ → Except ε (Turn σ β)) (size : σ → Nat) : Prop :=
  ∀ s s', body s = .ok (.again s') → size s' < size s

theorem within_of_le (h : within body n s = some r) (hle : n ≤ m) : within body m s = some r := by
  induction n generalizing s m with
  | zero => cases h
  | succ n ih =>
    obtain ⟨m, rfl⟩ : ∃ k, m = k + 1 := ⟨m - 1, by omega⟩
    unfold within at h ⊢
    split
    next e he => rw [he] at h; exact h
    next b hb => rw [hb] at h; exact h
    next s' hs =>
      rw [hs] at h
      exact ih h (Nat.le_of_succ_le_succ hle)

theorem isSome_within (h : Decreases body size) (hn : size s < n) :
    (within body n s).isSome = true := by
  induction n generalizing s with
  | zero => exact absurd hn (Nat.not_lt_zero _)
  | succ n ih =>
    unfold within
    split
    next => rfl
    next => rfl
    next s' hs => exact ih (Nat.lt_of_lt_of_le (h s s' hs) (Nat.le_of_lt_succ hn))

/-- The result of a loop that ends. -/
def run (body : σ → Except ε (Turn σ β)) (size : σ → Nat) (h : Decreases body size) (s : σ) :
    Except ε β :=
  (within body (size s + 1) s).get (isSome_within h (Nat.lt_succ_self _))

section

variable {h : Decreases body size}

theorem within_run (h : Decreases body size) (s : σ) :
    within body (size s + 1) s = some (run body size h s) :=
  (Option.some_get _).symm

theorem run_eq_of_within (hr : within body n s = some r) : run body size h s = r := by
  have hrun := within_of_le (within_run h s) (Nat.le_max_left (size s + 1) n)
  have hr' := within_of_le hr (Nat.le_max_right (size s + 1) n)
  exact Option.some.inj (hrun.symm.trans hr')

theorem run_of_leave {b : β} (hs : body s = .ok (.leave b)) : run body size h s = .ok b :=
  run_eq_of_within (n := 1) (by rw [within, hs])

theorem run_of_again (hs : body s = .ok (.again s')) : run body size h s = run body size h s' :=
  run_eq_of_within (n := size s' + 2) (by rw [within, hs]; exact within_run h s')

theorem run_induction {P : σ → β → Prop} (leave : ∀ s b, body s = .ok (.leave b) → P s b)
    (again : ∀ s s' b, body s = .ok (.again s') → P s' b → P s b) {b : β}
    (hb : run body size h s = .ok b) : P s b := by
  have hwithin := within_run h s
  rw [hb] at hwithin
  clear hb
  generalize size s + 1 = n at hwithin
  induction n generalizing s with
  | zero => cases hwithin
  | succ n ih =>
    unfold within at hwithin
    split at hwithin
    next => cases hwithin
    next b' hs =>
      obtain rfl := Except.ok.inj (Option.some.inj hwithin)
      exact leave s _ hs
    next s' hs => exact again s s' b hs (ih hwithin)

end

end CaveHome.Rounds
