import Mathlib.Data.List.Basic

/-!
# Framing a stream

A stream is a sequence of frames.  `look` says whether the front of a list is a whole frame, how
long the frame is and what it contains: a value, or an error if the frame is rejected.  The values
of a stream are those of its frames up to the first that is rejected or not there yet.  They do not
depend on how the stream is cut into pieces, since `look` reads no further than its frame.
-/

namespace Framing

variable {τ ε α : Type}

/-- `look` answers from the bytes of the frame alone, and a frame is not empty. -/
structure Local (look : List τ → Option (Nat × Except ε α)) : Prop where
  pos : ∀ {x n r}, look x = some (n, r) → 0 < n
  le : ∀ {x n r}, look x = some (n, r) → n ≤ x.length
  take : ∀ {x n r}, look x = some (n, r) → ∀ y, look (x.take n ++ y) = some (n, r)

def framesLoop (look : List τ → Option (Nat × Except ε α)) : Nat → List τ → List α × List τ
  | 0, x => ([], x)
  | fuel + 1, x =>
    match look x with
    | some (n, .ok a) =>
      let (as, rest) := framesLoop look fuel (x.drop n)
      (a :: as, rest)
    | _ => ([], x)

/-- The values of the accepted frames at the front of a stream, and what comes after them. -/
def frames (look : List τ → Option (Nat × Except ε α)) (x : List τ) : List α × List τ :=
  framesLoop look x.length x

variable {look : List τ → Option (Nat × Except ε α)}

theorem framesLoop_eq_frames (h : Local look) {fuel : Nat} {x : List τ} (hf : x.length ≤ fuel) :
    framesLoop look fuel x = frames look x := by
  unfold frames
  induction fuel using Nat.strongRecOn generalizing x with
  | ind fuel ih =>
    rcases fuel with _ | fuel
    · rw [Nat.le_zero.1 hf]
    · rcases hx : x.length with _ | len
      · -- an empty stream has no frame
        have hnone : look x = none := by
          cases hl : look x with
          | none => rfl
          | some r =>
            have h₁ := h.pos hl
            have h₂ := h.le hl
            omega
        simp [framesLoop, hnone]
      · cases hl : look x with
        | none => simp [framesLoop, hl]
        | some r =>
          obtain ⟨n, r⟩ := r
          cases r with
          | error e => simp [framesLoop, hl]
          | ok a =>
            have hpos := h.pos hl
            have hle : (x.drop n).length ≤ len := by
              rw [List.length_drop]
              omega
            have h₁ := ih fuel (Nat.lt_succ_self _) (x := x.drop n) (by omega)
            have h₂ := ih len (by omega) hle
            simp only [framesLoop, hl, h₁, h₂]

theorem frames_of_ok (h : Local look) {x : List τ} {n : Nat} {a : α}
    (hl : look x = some (n, .ok a)) :
    frames look x = (a :: (frames look (x.drop n)).1, (frames look (x.drop n)).2) := by
  have hpos := h.pos hl
  have hle := h.le hl
  obtain ⟨len, hlen⟩ : ∃ len, x.length = len + 1 := ⟨x.length - 1, by omega⟩
  have hdrop : (x.drop n).length ≤ len := by
    rw [List.length_drop]
    omega
  rw [← framesLoop_eq_frames h hdrop]
  simp only [frames, hlen, framesLoop, hl]

theorem frames_of_not_ok {x : List τ} (hl : ∀ n a, look x ≠ some (n, .ok a)) :
    frames look x = ([], x) := by
  unfold frames
  cases x.length with
  | zero => rfl
  | succ len =>
    cases hx : look x with
    | none => simp [framesLoop, hx]
    | some r =>
      obtain ⟨n, r⟩ := r
      cases r with
      | error e => simp [framesLoop, hx]
      | ok a => exact absurd hx (hl n a)

theorem frames_of_none {x : List τ} (hl : look x = none) : frames look x = ([], x) :=
  frames_of_not_ok fun n a hok => by simp [hl] at hok

theorem frames_of_error {x : List τ} {n : Nat} {e : ε} (hl : look x = some (n, .error e)) :
    frames look x = ([], x) :=
  frames_of_not_ok fun n a hok => by simp [hl] at hok

theorem frames_induction (h : Local look) {P : List τ → Prop}
    (stop : ∀ x, (∀ n a, look x ≠ some (n, .ok a)) → P x)
    (next : ∀ x n a, look x = some (n, .ok a) → P (x.drop n) → P x) (x : List τ) : P x := by
  induction hx : x.length using Nat.strongRecOn generalizing x with
  | ind len ih =>
    by_cases hl : ∃ n a, look x = some (n, .ok a)
    · obtain ⟨n, a, hl⟩ := hl
      have hpos := h.pos hl
      have hle := h.le hl
      refine next x n a hl (ih (x.drop n).length ?_ (x.drop n) rfl)
      rw [List.length_drop]
      omega
    · push Not at hl
      exact stop x hl

theorem look_rest (h : Local look) (x : List τ) (n : Nat) (a : α) :
    look (frames look x).2 ≠ some (n, .ok a) := by
  induction x using frames_induction h with
  | stop x hl =>
    rw [frames_of_not_ok hl]
    exact hl n a
  | next x m b hl ih =>
    rw [frames_of_ok h hl]
    exact ih

theorem rest_of_nil (h : Local look) {x : List τ} (hx : (frames look x).1 = []) :
    (frames look x).2 = x := by
  by_cases hl : ∃ n a, look x = some (n, .ok a)
  · obtain ⟨n, a, hl⟩ := hl
    rw [frames_of_ok h hl] at hx
    cases hx
  · push Not at hl
    rw [frames_of_not_ok hl]

theorem length_rest_le (h : Local look) (x : List τ) : (frames look x).2.length ≤ x.length := by
  induction x using frames_induction h with
  | stop x hl =>
    simp only [frames_of_not_ok hl, Nat.le_refl]
  | next x m b hl ih =>
    rw [frames_of_ok h hl]
    rw [List.length_drop] at ih
    exact Nat.le_trans ih (Nat.sub_le _ _)

theorem look_append (h : Local look) {x : List τ} {n : Nat} {r : Except ε α}
    (hl : look x = some (n, r)) (y : List τ) : look (x ++ y) = some (n, r) := by
  have := h.take hl (x.drop n ++ y)
  rwa [← List.append_assoc, List.take_append_drop] at this

theorem look_of_append (h : Local look) {x y : List τ} {n : Nat} {r : Except ε α}
    (hl : look (x ++ y) = some (n, r)) (hn : n ≤ x.length) : look x = some (n, r) := by
  have := h.take hl (x.drop n)
  rwa [List.take_append_of_le_length hn, List.take_append_drop] at this

theorem frames_append (h : Local look) (x y : List τ) :
    frames look (x ++ y) = ((frames look x).1 ++ (frames look ((frames look x).2 ++ y)).1,
      (frames look ((frames look x).2 ++ y)).2) := by
  induction x using frames_induction h with
  | stop x hl =>
    rw [frames_of_not_ok hl]
    rfl
  | next x n a hl ih =>
    have hle := h.le hl
    rw [frames_of_ok h (look_append h hl y), frames_of_ok h hl, List.drop_append_of_le_length hle,
      ih]
    rfl

theorem frames_append_of_error (h : Local look) {x : List τ} {n : Nat} {e : ε}
    (hl : look (frames look x).2 = some (n, .error e)) (y : List τ) :
    frames look (x ++ y) = ((frames look x).1, (frames look x).2 ++ y) := by
  rw [frames_append h, frames_of_error (look_append h hl y), List.append_nil]

theorem frames_append_of_le (h : Local look) {x y : List τ}
    (hlen : (x ++ y).length ≤ x.length + (frames look (x ++ y)).2.length) :
    frames look (x ++ y) = ((frames look x).1, (frames look x).2 ++ y) := by
  have hstop : ∀ m a, look ((frames look x).2 ++ y) ≠ some (m, .ok a) := by
    intro m a hok
    -- the frame would end within what the first piece left over
    rw [frames_append h, frames_of_ok h hok] at hlen
    have hrest := length_rest_le h (((frames look x).2 ++ y).drop m)
    have hm := h.le hok
    rw [List.length_drop] at hrest
    simp only [List.length_append] at hlen hrest hm
    have hin : m ≤ (frames look x).2.length := by omega
    exact look_rest h x m a (look_of_append h hok hin)
  rw [frames_append h, frames_of_not_ok hstop, List.append_nil]

end Framing
