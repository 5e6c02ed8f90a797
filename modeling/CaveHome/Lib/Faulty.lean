import Mathlib.Data.List.Basic
import Mathlib.Tactic.Common

/-!
# Programs whose calls may fail

A program over a state calls operations on this state, and the outside decides for each call whether
it fails.  A call that fails gives an error and leaves the state as it is.  `Triple` says what holds
after a run whatever calls fail, separately for a run that returns and one that stops with an error;
`Total` says that a run without failing calls returns, and what holds then.
-/

/-- A program over a state.  Each call takes one answer from a list: an error makes it fail, `none`
lets it through.  Once the list is used up calls go through. -/
def Faulty (σ ε α : Type) : Type := List (Option ε) → σ → Except ε α × σ × List (Option ε)

namespace Faulty

variable {σ ε α β : Type}

/-! ## Programs -/

instance : Monad (Faulty σ ε) where
  pure a := fun fs s => (.ok a, s, fs)
  bind p f := fun fs s =>
    match p fs s with
    | (.error e, s', fs') => (.error e, s', fs')
    | (.ok a, s', fs') => f a fs' s'

/-- The state as the program sees it. -/
def read (f : σ → α) : Faulty σ ε α := fun fs s => (.ok (f s), s, fs)

def update (f : σ → σ) : Faulty σ ε Unit := fun fs s => (.ok (), f s, fs)

/-- Call an operation on the state. -/
def call (op : σ → Except ε α × σ) : Faulty σ ε α := fun fs s =>
  match fs with
  | some e :: fs => (.error e, s, fs)
  | none :: fs => ((op s).1, (op s).2, fs)
  | [] => ((op s).1, (op s).2, [])

/-- Go on whether the program fails or not. -/
def attempt (p : Faulty σ ε α) : Faulty σ ε (Except ε α) := fun fs s =>
  match p fs s with
  | (r, s', fs') => (.ok r, s', fs')

theorem bind_of_ok {p : Faulty σ ε α} {f : α → Faulty σ ε β} {fs fs' : List (Option ε)}
    {s s' : σ} {a : α} (h : p fs s = (.ok a, s', fs')) : (p >>= f) fs s = f a fs' s' := by
  simp only [Bind.bind]
  rw [h]

theorem bind_of_error {p : Faulty σ ε α} {f : α → Faulty σ ε β} {fs fs' : List (Option ε)}
    {s s' : σ} {e : ε} (h : p fs s = (.error e, s', fs')) :
    (p >>= f) fs s = (.error e, s', fs') := by
  simp only [Bind.bind]
  rw [h]

/-- The answer that the next call gets. -/
def next (fs : List (Option ε)) : Option ε := fs.head?.join

theorem call_of_next_none {op : σ → Except ε α × σ} {fs : List (Option ε)} {s : σ}
    (h : next fs = none) : call op fs s = ((op s).1, (op s).2, fs.tail) := by
  rcases fs with _ | ⟨_ | e, fs⟩
  · rfl
  · rfl
  · cases h

theorem call_of_next_some {op : σ → Except ε α × σ} {fs : List (Option ε)} {s : σ} {e : ε}
    (h : next fs = some e) : call op fs s = (.error e, s, fs.tail) := by
  rcases fs with _ | ⟨_ | e', fs⟩
  · cases h
  · cases h
  · cases h
    rfl

theorem attempt_of_run {p : Faulty σ ε α} {fs fs' : List (Option ε)} {s s' : σ} {r : Except ε α}
    (h : p fs s = (r, s', fs')) : p.attempt fs s = (.ok r, s', fs') := by
  unfold attempt
  rw [h]

/-! ## Whatever calls fail -/

/-- From `P` the program returns with `Q` or stops with `E`. -/
def Triple (P : σ → Prop) (p : Faulty σ ε α) (Q : α → σ → Prop) (E : σ → Prop) : Prop :=
  ∀ fs s, P s → (∀ a s' fs', p fs s = (.ok a, s', fs') → Q a s') ∧
    ∀ e s' fs', p fs s = (.error e, s', fs') → E s'

namespace Triple

variable {P P' : σ → Prop} {p : Faulty σ ε α} {Q Q' : α → σ → Prop} {E E' : σ → Prop}

theorem conseq (h : Triple P p Q E) (hP : ∀ s, P' s → P s) (hQ : ∀ a s, Q a s → Q' a s)
    (hE : ∀ s, E s → E' s) : Triple P' p Q' E' := by
  intro fs s hs
  refine ⟨fun a s' fs' hrun => hQ a s' ?_, fun e s' fs' hrun => hE s' ?_⟩
  · exact (h fs s (hP s hs)).1 a s' fs' hrun
  · exact (h fs s (hP s hs)).2 e s' fs' hrun

theorem pure {a : α} (h : ∀ s, P s → Q a s) : Triple P (Pure.pure a : Faulty σ ε α) Q E := by
  intro fs s hs
  constructor
  · rintro a' s' fs' hrun
    cases hrun
    exact h s hs
  · rintro e s' fs' hrun
    cases hrun

theorem read {f : σ → α} (h : ∀ s, P s → Q (f s) s) :
    Triple P (Faulty.read f : Faulty σ ε α) Q E := by
  intro fs s hs
  constructor
  · rintro a' s' fs' hrun
    cases hrun
    exact h s hs
  · rintro e s' fs' hrun
    cases hrun

theorem update {f : σ → σ} {Q : Unit → σ → Prop} (h : ∀ s, P s → Q () (f s)) :
    Triple P (Faulty.update f : Faulty σ ε Unit) Q E := by
  intro fs s hs
  constructor
  · rintro a' s' fs' hrun
    cases hrun
    exact h s hs
  · rintro e s' fs' hrun
    cases hrun

theorem bind {f : α → Faulty σ ε β} {R : β → σ → Prop} (hp : Triple P p Q E)
    (hf : ∀ a, Triple (Q a) (f a) R E) : Triple P (p >>= f) R E := by
  intro fs s hs
  rcases hrun : p fs s with ⟨_ | a, s₁, fs₁⟩
  · rw [bind_of_error hrun]
    refine ⟨fun b s' fs' h => ?_, fun e s' fs' h => ?_⟩
    · cases h
    · cases h
      exact (hp fs s hs).2 _ _ _ hrun
  · rw [bind_of_ok hrun]
    exact hf a fs₁ s₁ ((hp fs s hs).1 _ _ _ hrun)

theorem call {op : σ → Except ε α × σ} (hE : ∀ s, P s → E s)
    (hok : ∀ s a s', P s → op s = (.ok a, s') → Q a s')
    (herr : ∀ s e s', P s → op s = (.error e, s') → E s') : Triple P (Faulty.call op) Q E := by
  have hgo : ∀ fs₁ s, P s → (∀ a s' fs', ((op s).1, (op s).2, fs₁) = (.ok a, s', fs') → Q a s') ∧
      ∀ e s' fs', ((op s).1, (op s).2, (fs₁ : List (Option ε))) = (.error e, s', fs') → E s' := by
    intro fs₁ s hs
    rcases hop : op s with ⟨e | a, s₁⟩
    · refine ⟨fun a s' fs' h => ?_, fun e s' fs' h => ?_⟩
      · cases h
      · cases h
        exact herr s _ _ hs hop
    · refine ⟨fun a s' fs' h => ?_, fun e s' fs' h => ?_⟩
      · cases h
        exact hok s _ _ hs hop
      · cases h
  intro fs s hs
  rcases fs with _ | ⟨_ | e, fs⟩
  · exact hgo [] s hs
  · exact hgo fs s hs
  · refine ⟨fun a s' fs' h => ?_, fun e s' fs' h => ?_⟩
    · cases h
    · cases h
      exact hE s hs

theorem attempt {Q : Except ε α → σ → Prop}
    (h : Triple P p (fun a => Q (.ok a)) fun s => ∀ e, Q (.error e) s) :
    Triple P p.attempt Q E := by
  intro fs s hs
  have hrun : p.attempt fs s = (.ok (p fs s).1, (p fs s).2.1, (p fs s).2.2) := rfl
  rw [hrun]
  refine ⟨fun r s' fs' heq => ?_, fun e s' fs' heq => by cases heq⟩
  cases heq
  rcases hp : p fs s with ⟨e | a, s₁, fs₁⟩
  · exact (h fs s hs).2 _ _ _ hp e
  · exact (h fs s hs).1 _ _ _ hp

theorem after {I : σ → Prop} (h : Triple P p (fun _ => I) I) {fs : List (Option ε)} {s : σ}
    (hs : P s) : I (p fs s).2.1 := by
  rcases hrun : p fs s with ⟨e | a, s', fs'⟩
  · exact (h fs s hs).2 _ _ _ hrun
  · exact (h fs s hs).1 _ _ _ hrun

end Triple

/-- The program keeps an invariant, also where it stops with an error. -/
def Keeps (I : σ → Prop) (p : Faulty σ ε α) : Prop := Triple I p (fun _ => I) I

namespace Keeps

variable {I : σ → Prop}

theorem pure (a : α) : Keeps I (Pure.pure a : Faulty σ ε α) := Triple.pure fun _ h => h

theorem read (f : σ → α) : Keeps I (Faulty.read f : Faulty σ ε α) := Triple.read fun _ h => h

theorem update {f : σ → σ} (h : ∀ s, I s → I (f s)) :
    Keeps I (Faulty.update f : Faulty σ ε Unit) := Triple.update h

theorem bind {p : Faulty σ ε α} {f : α → Faulty σ ε β} (hp : Keeps I p)
    (hf : ∀ a, Keeps I (f a)) : Keeps I (p >>= f) := Triple.bind hp hf

theorem call {op : σ → Except ε α × σ} (h : ∀ s, I s → I (op s).2) : Keeps I (Faulty.call op) :=
  Triple.call (fun _ hs => hs) (fun s _ _ hs hop => by simpa [hop] using h s hs)
    fun s _ _ hs hop => by simpa [hop] using h s hs

theorem attempt {p : Faulty σ ε α} (h : Keeps I p) : Keeps I p.attempt :=
  Triple.attempt (h.conseq (fun _ hs => hs) (fun _ _ hs => hs) fun _ hs _ => hs)

theorem run {p : Faulty σ ε α} (h : Keeps I p) {fs : List (Option ε)} {s : σ} (hs : I s) :
    I (p fs s).2.1 :=
  Triple.after h hs

end Keeps

/-- From `P`, if no call is made to fail, the program returns with `Q`. -/
def Total (P : σ → Prop) (p : Faulty σ ε α) (Q : α → σ → Prop) : Prop :=
  ∀ s, P s → ∃ a s', p [] s = (.ok a, s', []) ∧ Q a s'

namespace Total

variable {P P' : σ → Prop} {p : Faulty σ ε α} {Q Q' : α → σ → Prop}

end Total

end Faulty
