import CaveHome.Lib.Dist

/-!
# Tables of rules

A table has named chains of rules.  A packet goes through a chain rule by rule; a rule that fires
acts on it, hands it to another chain or returns it to the caller.  Guards may be random, so the
fate of a packet is a distribution.
-/

namespace CaveHome.RuleTable

variable {ν μ β σ α : Type*}

inductive Target (ν β : Type*)
  | jump (chain : ν)
  | ret
  | act (action : β)
deriving DecidableEq

structure Rule (ν μ β : Type*) where
  chain : ν
  guards : List μ
  target : Target ν β
deriving DecidableEq

/-- What guards and actions mean: the chance that a guard holds, and the packet after an action,
which is final when no further rule is tried. -/
structure Meaning (μ β σ : Type*) where
  chance : μ → σ → ℚ
  act : β → σ → σ
  final : β → Bool

inductive Fate (σ : Type*)
  | returned (s : σ)
  | final (s : σ)
  | looping
deriving DecidableEq

/-- Go on with a packet that was returned. -/
def Fate.andThen (f : σ → Dist (Fate σ)) : Fate σ → Dist (Fate σ)
  | returned s => f s
  | final s => Dist.pure (final s)
  | looping => Dist.pure looping

/-- All guards hold; each is random on its own. -/
def Rule.chance (m : Meaning μ β σ) (r : Rule ν μ β) (s : σ) : ℚ :=
  (r.guards.map fun g => m.chance g s).prod

/-- A target that returns the packet ends the chain. -/
def runRules (m : Meaning μ β σ) (call : ν → σ → Dist (Fate σ)) :
    List (Rule ν μ β) → σ → Dist (Fate σ)
  | [], s => Dist.pure (.returned s)
  | r :: rs, s =>
    (Dist.coin (r.chance m s)).bind fun fires =>
      if fires then
        match r.target with
        | .jump c => (call c s).bind (Fate.andThen (runRules m call rs))
        | .ret => Dist.pure (.returned s)
        | .act a =>
          if m.final a then Dist.pure (.final (m.act a s)) else runRules m call rs (m.act a s)
      else runRules m call rs s

/-- The rules of a chain, in their order. -/
def chainOf [DecidableEq ν] (rules : List (Rule ν μ β)) (c : ν) : List (Rule ν μ β) :=
  rules.filter fun r => r.chain = c

/-- The fate of a packet in a chain; `depth` bounds how deep chains call each other. -/
def runChain [DecidableEq ν] (m : Meaning μ β σ) (rules : List (Rule ν μ β)) :
    Nat → ν → σ → Dist (Fate σ)
  | 0, _, _ => Dist.pure .looping
  | depth + 1, c, s => runRules m (runChain m rules depth) (chainOf rules c) s

theorem uniform_final_andThen (l : List α) (last : α → σ) (f : σ → Dist (Fate σ)) :
    (Dist.uniform (l.map fun a => .final (last a))).bind (Fate.andThen f) =
      Dist.uniform (l.map fun a => .final (last a)) := by
  unfold Dist.uniform
  generalize 1 / ((l.map fun a => Fate.final (last a)).length : ℚ) = q
  induction l with
  | nil => rfl
  | cons a l ih =>
    simp only [List.map_cons, Dist.bind, List.flatMap_cons, Fate.andThen, Dist.pure, List.map_nil,
      mul_one, List.singleton_append] at ih ⊢
    rw [ih]

/-! ## Rules that are certain -/

section

variable {m : Meaning μ β σ} {call : ν → σ → Dist (Fate σ)} {r : Rule ν μ β}
  {rs : List (Rule ν μ β)} {s : σ}

@[simp]
theorem runRules_nil : runRules m call ([] : List (Rule ν μ β)) s = Dist.pure (.returned s) := rfl

theorem runRules_skip (h : r.chance m s = 0) :
    runRules m call (r :: rs) s = runRules m call rs s := by
  rw [runRules, h, Dist.coin_zero, Dist.pure_bind]
  rfl

theorem runRules_jump {c : ν} (h : r.chance m s = 1) (ht : r.target = .jump c) :
    runRules m call (r :: rs) s = (call c s).bind (Fate.andThen (runRules m call rs)) := by
  rw [runRules, h, Dist.coin_one, Dist.pure_bind, if_pos rfl, ht]

theorem runRules_act {a : β} (h : r.chance m s = 1) (ht : r.target = .act a)
    (hfinal : m.final a = false) :
    runRules m call (r :: rs) s = runRules m call rs (m.act a s) := by
  rw [runRules, h, Dist.coin_one, Dist.pure_bind, if_pos rfl, ht]
  simp [hfinal]

theorem runRules_final {a : β} (h : r.chance m s = 1) (ht : r.target = .act a)
    (hfinal : m.final a = true) :
    runRules m call (r :: rs) s = Dist.pure (.final (m.act a s)) := by
  rw [runRules, h, Dist.coin_one, Dist.pure_bind, if_pos rfl, ht]
  simp [hfinal]

example : runRules ⟨fun b _ => if b then 1 else 0, fun n s => n + s, fun _ => false⟩
    (fun (_ : Unit) s => Dist.pure (.returned s)) [⟨(), [true], .act 2⟩, ⟨(), [false], .act 3⟩] 5 =
      Dist.pure (.returned 7) := by
  decide +kernel

theorem runRules_jump_returned {c : ν} {s' : σ} (h : r.chance m s = 1) (ht : r.target = .jump c)
    (hcall : call c s = Dist.pure (.returned s')) :
    runRules m call (r :: rs) s = runRules m call rs s' := by
  rw [runRules_jump h ht, hcall, Dist.pure_bind]
  rfl

theorem runRules_append_skip {rs' : List (Rule ν μ β)} (h : ∀ r ∈ rs, r.chance m s = 0) :
    runRules m call (rs ++ rs') s = runRules m call rs' s := by
  induction rs with
  | nil => rfl
  | cons r rs ih =>
    rw [List.cons_append, runRules_skip (h r List.mem_cons_self)]
    exact ih fun r' hr' => h r' (List.mem_cons_of_mem r hr')

/-- One rule for each member, which is told how many members are left. -/
def balance (rule : Nat → α → Rule ν μ β) : List α → List (Rule ν μ β)
  | [] => []
  | a :: l => rule (l.length + 1) a :: balance rule l

theorem runRules_balance {l : List α} {rule : Nat → α → Rule ν μ β} {chain : α → ν} {last : α → σ}
    (hchance : ∀ k a, (rule (k + 1) a).chance m s = 1 / ((k + 1 : ℕ) : ℚ))
    (htarget : ∀ k a, (rule k a).target = .jump (chain a))
    (hcall : ∀ a ∈ l, call (chain a) s = Dist.pure (.final (last a))) (hl : l ≠ []) :
    runRules m call (balance rule l) s = Dist.uniform (l.map fun a => .final (last a)) := by
  induction l with
  | nil => exact absurd rfl hl
  | cons a l ih =>
    have hthis := hcall a List.mem_cons_self
    cases l with
    | nil =>
      have hone : (rule 1 a).chance m s = 1 := by
        rw [hchance 0 a]
        simp
      rw [balance, balance, List.length_nil, Nat.zero_add, runRules_jump hone (htarget 1 a), hthis,
        Dist.pure_bind, List.map_cons, List.map_nil, Dist.uniform_singleton]
      rfl
    | cons b l =>
      have hrest := ih (fun x hx => hcall x (List.mem_cons_of_mem a hx)) (List.cons_ne_nil b l)
      have hmap : (b :: l).map (fun a => Fate.final (last a)) ≠ [] := by simp
      rw [List.map_cons, ← Dist.coin_bind_uniform _ hmap, balance, runRules, hchance]
      simp only [List.length_cons, List.length_map]
      congr 1
      funext fires
      cases fires with
      | true => simp [htarget, hthis, Fate.andThen]
      | false => exact hrest

end

end CaveHome.RuleTable
