import Mathlib.Data.List.Basic

/-!
# Loops that emit

A loop over a list that updates a state and emits outputs.  A call may fail to return, and then the
loop does not return.
-/

namespace CaveHome

variable {σ α ω : Type*}

/-- Call `f` on each element in turn and collect what the calls emit. -/
def emitAll (f : σ → α → Option (σ × List ω)) : σ → List α → Option (σ × List ω)
  | s, [] => some (s, [])
  | s, a :: as => do
    let (s₁, out) ← f s a
    let (s₂, outs) ← emitAll f s₁ as
    return (s₂, out ++ outs)

variable {f : σ → α → Option (σ × List ω)} {s s' : σ} {a : α} {as : List α} {outs : List ω}

theorem emitAll_nil : emitAll f s [] = some (s, []) := rfl

theorem emitAll_cons_eq_some :
    emitAll f s (a :: as) = some (s', outs) ↔
      ∃ s₁ out₁ outs₂, f s a = some (s₁, out₁) ∧ emitAll f s₁ as = some (s', outs₂) ∧
        outs = out₁ ++ outs₂ := by
  simp only [emitAll, Option.bind_eq_bind, Option.bind_eq_some_iff, Option.pure_def,
    Option.some.injEq, Prod.mk.injEq, Prod.exists]
  constructor
  · rintro ⟨s₁, out₁, hf, s₂, outs₂, hrest, rfl, rfl⟩
    exact ⟨s₁, out₁, outs₂, hf, hrest, rfl⟩
  · rintro ⟨s₁, out₁, outs₂, hf, hrest, rfl⟩
    exact ⟨s₁, out₁, hf, s', outs₂, hrest, rfl, rfl⟩

theorem emitAll_rule {I : σ → Prop} {Q : ω → Prop}
    (hcall : ∀ s a s' out, a ∈ as → I s → f s a = some (s', out) → I s' ∧ ∀ o ∈ out, Q o)
    (hI : I s) (h : emitAll f s as = some (s', outs)) : I s' ∧ ∀ o ∈ outs, Q o := by
  induction as generalizing s outs with
  | nil =>
    rw [emitAll_nil, Option.some.injEq, Prod.mk.injEq] at h
    obtain ⟨rfl, rfl⟩ := h
    exact ⟨hI, by simp⟩
  | cons a as ih =>
    obtain ⟨s₁, out₁, outs₂, hf, hrest, rfl⟩ := emitAll_cons_eq_some.mp h
    obtain ⟨hI₁, hout₁⟩ := hcall s a s₁ out₁ (by simp) hI hf
    obtain ⟨hI', houts₂⟩ := ih (fun s a s' out ha => hcall s a s' out (by simp [ha])) hI₁ hrest
    refine ⟨hI', fun o ho => ?_⟩
    exact (List.mem_append.mp ho).elim (hout₁ o) (houts₂ o)

end CaveHome
