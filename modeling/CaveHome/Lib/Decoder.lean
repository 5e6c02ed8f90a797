import CaveHome.Lib.MachineData

/-!
# Decoders and encoders

A decoder reads a value from the front of a byte string and returns the rest; an encoder returns
the bytes of a value.  `Codec` says that the two agree: decoding undoes encoding whatever follows,
and every decoded value can be encoded in no more bytes than were read for it.  The loop that
decodes until the input is empty keeps this agreement.
-/

theorem Except.bind_eq_ok_iff {ε α β : Type} {x : Except ε α} {f : α → Except ε β} {b : β} :
    (x >>= f) = .ok b ↔ ∃ a, x = .ok a ∧ f a = .ok b := by
  cases x with
  | error e => simp [bind, Except.bind]
  | ok a => simp [bind, Except.bind]

theorem Except.pure_eq_ok_iff {ε α : Type} {a b : α} :
    (pure a : Except ε α) = .ok b ↔ a = b := by
  simp [pure, Except.pure]

theorem Except.map_eq_ok_iff {ε α β : Type} {x : Except ε α} {f : α → β} {b : β} :
    f <$> x = .ok b ↔ ∃ a, x = .ok a ∧ f a = b := by
  cases x with
  | error e => simp
  | ok a => simp

/-- Reads a value from the front of a byte string. -/
abbrev Decoder (ε α : Type) := StateT Bytes (Except ε) α

namespace Decoder

variable {ε α β σ : Type}

theorem bind_eq_ok_iff {d : Decoder ε α} {k : α → Decoder ε β} {buf : Bytes} {r : β × Bytes} :
    (d >>= k) buf = .ok r ↔ ∃ a rest, d buf = .ok (a, rest) ∧ k a rest = .ok r := by
  change ((d buf).bind fun x => k x.1 x.2) = .ok r ↔ _
  cases h : d buf with
  | error e => simp [Except.bind]
  | ok x =>
    obtain ⟨a, rest⟩ := x
    simp [Except.bind]

theorem bind_of_ok {d : Decoder ε α} {k : α → Decoder ε β} {buf rest : Bytes} {a : α}
    (h : d buf = .ok (a, rest)) : (d >>= k) buf = k a rest := by
  change ((d buf).bind fun x => k x.1 x.2) = _
  rw [h]
  rfl

theorem pure_apply (a : α) (buf : Bytes) : (pure a : Decoder ε α) buf = .ok (a, buf) := rfl

theorem throw_apply (e : ε) (buf : Bytes) : (throw e : Decoder ε α) buf = .error e := rfl

theorem map_eq_ok_iff {d : Decoder ε α} {f : α → β} {buf rest : Bytes} {b : β} :
    (f <$> d) buf = .ok (b, rest) ↔ ∃ a, d buf = .ok (a, rest) ∧ f a = b := by
  change ((d buf).bind fun x => .ok (f x.1, x.2)) = .ok (b, rest) ↔ _
  cases h : d buf with
  | error e => simp [Except.bind]
  | ok x =>
    obtain ⟨a, rest'⟩ := x
    simp only [Except.bind, Except.ok.injEq, Prod.mk.injEq]
    constructor
    · rintro ⟨h₁, rfl⟩
      exact ⟨a, ⟨rfl, rfl⟩, h₁⟩
    · rintro ⟨a', ⟨rfl, rfl⟩, h₁⟩
      exact ⟨h₁, rfl⟩

theorem map_of_ok {d : Decoder ε α} {f : α → β} {buf rest : Bytes} {a : α}
    (h : d buf = .ok (a, rest)) : (f <$> d) buf = .ok (f a, rest) :=
  map_eq_ok_iff.2 ⟨a, h, rfl⟩

/-- Whether the input is used up. -/
def atEnd : Decoder ε Bool := fun buf => .ok (buf.isEmpty, buf)

/-- Raise an error unless a condition holds. -/
def require (c : Prop) [Decidable c] (e : ε) : Decoder ε Unit := if c then pure () else throw e

theorem require_bind_of {c : Prop} [Decidable c] (h : c) (e : ε) (k : Unit → Decoder ε β)
    (buf : Bytes) : (require c e >>= k) buf = k () buf := by
  rw [require, if_pos h]
  rfl

theorem require_bind_eq_ok_iff {c : Prop} [Decidable c] {e : ε} {k : Unit → Decoder ε β}
    {buf : Bytes} {r : β × Bytes} :
    (require c e >>= k) buf = .ok r ↔ c ∧ k () buf = .ok r := by
  by_cases h : c
  · simp [require_bind_of h, h]
  · rw [require, if_neg h]
    exact ⟨nofun, fun hc => absurd hc.1 h⟩

/-- Raise an error in place of a missing value. -/
def fromOption (e : ε) : Option α → Decoder ε α
  | some a => pure a
  | none => throw e

theorem fromOption_eq_ok_iff {e : ε} {o : Option α} {buf rest : Bytes} {a : α} :
    fromOption e o buf = .ok (a, rest) ↔ o = some a ∧ buf = rest := by
  cases o with
  | none => simp [fromOption, throw_apply]
  | some x => simp [fromOption, pure_apply]

/-! ## Decoding until the input is empty -/

/-- The loop `while` the input is not empty, for at most `fuel` rounds.  A round gets the state the
rounds before it left. -/
def loop (step : σ → Decoder ε (α × σ)) : Nat → σ → Decoder ε (List α)
  | 0, _ => pure []
  | fuel + 1, s => do
    if ← atEnd then return []
    let (a, s') ← step s
    return a :: (← loop step fuel s')

/-- Decode values until the input is empty.  A round consumes a byte at least, so that the length of
the input bounds the number of rounds. -/
def untilEmpty (step : σ → Decoder ε (α × σ)) (s : σ) : Decoder ε (List α) := fun buf =>
  loop step buf.length s buf

/-- Decode values until the input is empty, each without regard to those before it. -/
def many (d : Decoder ε α) : Decoder ε (List α) := untilEmpty (fun _ : Unit => (·, ()) <$> d) ()

/-- A decoder that succeeds has consumed some input. -/
def Consumes (d : Decoder ε α) : Prop :=
  ∀ {buf a rest}, d buf = .ok (a, rest) → rest.length < buf.length

theorem loop_nil (step : σ → Decoder ε (α × σ)) (fuel : Nat) (s : σ) :
    loop step fuel s [] = .ok ([], []) := by
  cases fuel with
  | zero => rfl
  | succ fuel => rfl

theorem loop_succ {step : σ → Decoder ε (α × σ)} (fuel : Nat) (s : σ) {buf : Bytes}
    (h : buf ≠ []) :
    loop step (fuel + 1) s buf = (step s >>= fun x =>
      (fun as => x.1 :: as) <$> loop step fuel x.2) buf := by
  have hend : (atEnd : Decoder ε Bool) buf = .ok (false, buf) := by
    simp [atEnd, h]
  rw [loop, bind_of_ok hend]
  rfl

theorem loop_eq_untilEmpty {step : σ → Decoder ε (α × σ)} (hc : ∀ s, Consumes (step s))
    {fuel : Nat} {buf : Bytes} (hf : buf.length ≤ fuel) (s : σ) :
    loop step fuel s buf = untilEmpty step s buf := by
  unfold untilEmpty
  induction fuel using Nat.strong_induction_on generalizing buf s with
  | _ fuel ih =>
    cases buf with
    | nil => rw [loop_nil, loop_nil]
    | cons b buf =>
      obtain ⟨m, rfl⟩ : ∃ m, fuel = m + 1 := ⟨fuel - 1, by simp only [List.length_cons] at hf; omega⟩
      rw [loop_succ m s (List.cons_ne_nil b buf), List.length_cons,
        loop_succ buf.length s (List.cons_ne_nil b buf)]
      cases hstep : step s (b :: buf) with
      | error e =>
        change ((step s (b :: buf)).bind _) = ((step s (b :: buf)).bind _)
        rw [hstep]
        rfl
      | ok x =>
        obtain ⟨⟨a, s'⟩, rest⟩ := x
        have hlt := hc s hstep
        simp only [List.length_cons] at hlt hf
        have hsame : loop step m s' rest = loop step buf.length s' rest := by
          rw [ih m (by omega) (by omega) s']
          by_cases hm : buf.length < m + 1
          · exact (ih buf.length hm (by omega) s').symm
          · omega
        rw [bind_of_ok hstep, bind_of_ok hstep]
        change ((loop step m s' rest).bind _) = ((loop step buf.length s' rest).bind _)
        rw [hsame]

theorem untilEmpty_eq {step : σ → Decoder ε (α × σ)} (hc : ∀ s, Consumes (step s)) (s : σ)
    {buf : Bytes} (h : buf ≠ []) :
    untilEmpty step s buf = (step s >>= fun x =>
      (fun as => x.1 :: as) <$> untilEmpty step x.2) buf := by
  have hl : buf.length = (buf.length - 1) + 1 := by
    have := List.length_pos_iff.2 h
    omega
  rw [untilEmpty, hl, loop_succ _ s h]
  cases hstep : step s buf with
  | error e =>
    change ((step s buf).bind _) = ((step s buf).bind _)
    rw [hstep]
    rfl
  | ok x =>
    obtain ⟨⟨a, s'⟩, rest⟩ := x
    have hlt := hc s hstep
    rw [bind_of_ok hstep, bind_of_ok hstep]
    change ((loop step _ s' rest).bind _) = ((untilEmpty step s' rest).bind _)
    rw [loop_eq_untilEmpty hc (by omega)]

end Decoder

/-! ## Agreement -/

/-- Decoding undoes encoding of the values in `P`, whatever follows; a decoded value is in `P` and
can be encoded in no more bytes than were read. -/
structure Codec {ε α : Type} (enc : α → Except ε Bytes) (dec : Decoder ε α) (P : α → Prop) :
    Prop where
  decode_encode : ∀ {a b}, P a → enc a = .ok b → ∀ rest, dec (b ++ rest) = .ok (a, rest)
  encode_decode : ∀ {buf a rest}, dec buf = .ok (a, rest) →
    P a ∧ ∃ b, enc a = .ok b ∧ b.length + rest.length ≤ buf.length

/-- The bytes of a list of values, one after the other. -/
def encodeAll {ε α : Type} (enc : α → Except ε Bytes) : List α → Except ε Bytes
  | [] => .ok []
  | a :: as => do
    let b ← enc a
    let bs ← encodeAll enc as
    return b ++ bs

namespace Codec

open Decoder

variable {ε α σ : Type} {enc : α → Except ε Bytes} {step : σ → Decoder ε (α × σ)}
variable {Q : σ → α → Prop} {next : σ → α → σ}

/-- Every value of a list satisfies `Q` in the state that the values before it lead to. -/
def Along (Q : σ → α → Prop) (next : σ → α → σ) : σ → List α → Prop
  | _, [] => True
  | s, a :: as => Q s a ∧ Along Q next (next s a) as

/-- One round of a loop agrees with an encoder. -/
structure Step (enc : α → Except ε Bytes) (step : σ → Decoder ε (α × σ)) (Q : σ → α → Prop)
    (next : σ → α → σ) : Prop where
  decode_encode : ∀ {s a b}, Q s a → enc a = .ok b →
    ∀ rest, step s (b ++ rest) = .ok ((a, next s a), rest)
  encode_decode : ∀ {s buf a s' rest}, step s buf = .ok ((a, s'), rest) →
    Q s a ∧ s' = next s a ∧ ∃ b, enc a = .ok b ∧ b.length + rest.length ≤ buf.length
  consumes : ∀ s, Consumes (step s)

theorem Step.untilEmpty_encodeAll (h : Step enc step Q next) {as : List α} {s : σ}
    (hq : Along Q next s as) {bs : Bytes} (he : encodeAll enc as = .ok bs) :
    untilEmpty step s bs = .ok (as, []) := by
  induction as generalizing s bs with
  | nil =>
    obtain rfl := Except.ok.inj he
    rfl
  | cons a as ih =>
    rw [encodeAll] at he
    obtain ⟨b, hb, he⟩ := Except.bind_eq_ok_iff.1 he
    obtain ⟨rest, hrest, he⟩ := Except.bind_eq_ok_iff.1 he
    obtain rfl := Except.pure_eq_ok_iff.1 he
    have hstep := h.decode_encode hq.1 hb rest
    have hne : b ++ rest ≠ [] := fun hnil => by
      have := h.consumes s hstep
      rw [hnil] at this
      exact Nat.not_lt_zero _ this
    rw [untilEmpty_eq h.consumes s hne, bind_of_ok hstep]
    exact map_of_ok (ih hq.2 hrest)

theorem Step.encodeAll_untilEmpty (h : Step enc step Q next) {buf rest : Bytes} {as : List α}
    {s : σ} (hd : untilEmpty step s buf = .ok (as, rest)) :
    rest = [] ∧ Along Q next s as ∧ ∃ bs, encodeAll enc as = .ok bs ∧ bs.length ≤ buf.length := by
  induction hn : buf.length using Nat.strong_induction_on generalizing buf as s with
  | _ n ih =>
    by_cases hnil : buf = []
    · subst hnil
      obtain ⟨rfl, rfl⟩ : [] = as ∧ [] = rest := by
        simpa [untilEmpty, loop_nil] using hd
      exact ⟨rfl, trivial, [], rfl, Nat.zero_le _⟩
    · rw [untilEmpty_eq h.consumes s hnil] at hd
      obtain ⟨⟨a, s'⟩, mid, hstep, hd⟩ := bind_eq_ok_iff.1 hd
      obtain ⟨as', hrun, rfl⟩ := map_eq_ok_iff.1 hd
      obtain ⟨hq, rfl, b, hb, hle⟩ := h.encode_decode hstep
      obtain ⟨hrest, halong, bs, hbs, hle'⟩ := ih mid.length (hn ▸ h.consumes s hstep) hrun rfl
      refine ⟨hrest, ⟨hq, halong⟩, b ++ bs, ?_, ?_⟩
      · simp [encodeAll, hb, hbs, bind, Except.bind, pure, Except.pure]
      · rw [List.length_append]
        omega

section Many

variable {dec : Decoder ε α} {P : α → Prop}

theorem toStep (h : Codec enc dec P) (hc : Consumes dec) :
    Step enc (fun _ : Unit => (·, ()) <$> dec) (fun _ => P) fun _ _ => () where
  decode_encode hp he rest := map_of_ok (h.decode_encode hp he rest)
  encode_decode hd := by
    obtain ⟨a, ha, hpair⟩ := map_eq_ok_iff.1 hd
    obtain ⟨rfl, rfl⟩ := Prod.mk.inj hpair
    obtain ⟨hp, hb⟩ := h.encode_decode ha
    exact ⟨hp, rfl, hb⟩
  consumes := by
    intro _ buf a rest hd
    obtain ⟨a, ha, -⟩ := map_eq_ok_iff.1 hd
    exact hc ha

theorem along_unit {as : List α} :
    Along (fun _ : Unit => P) (fun _ _ => ()) () as ↔ ∀ a ∈ as, P a := by
  induction as with
  | nil => simp [Along]
  | cons a as ih => simp [Along, ih]

theorem many_encodeAll (h : Codec enc dec P) (hc : Consumes dec) {as : List α}
    (hp : ∀ a ∈ as, P a) {bs : Bytes} (he : encodeAll enc as = .ok bs) :
    many dec bs = .ok (as, []) :=
  (h.toStep hc).untilEmpty_encodeAll (along_unit.2 hp) he

theorem encodeAll_many (h : Codec enc dec P) (hc : Consumes dec) {buf rest : Bytes} {as : List α}
    (hd : many dec buf = .ok (as, rest)) :
    rest = [] ∧ (∀ a ∈ as, P a) ∧ ∃ bs, encodeAll enc as = .ok bs ∧ bs.length ≤ buf.length := by
  obtain ⟨hrest, halong, hb⟩ := (h.toStep hc).encodeAll_untilEmpty hd
  exact ⟨hrest, along_unit.1 halong, hb⟩

end Many

end Codec
