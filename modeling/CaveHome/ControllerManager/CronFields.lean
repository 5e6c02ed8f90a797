import CaveHome.ControllerManager.CronJob

/-!
# The grammar of a cron field

A field is a list of atoms: all values, one value or a range of values, each of them with an
optional step.  The parser reads exactly these, and its mask has the bits of the values that they
denote.  Two kinds of atoms are outside of it: ranges of days of the week with an end 7, and steps
that leave 32 bits.
-/

namespace CaveHome.ControllerManager

namespace CronSchedule

/-! ## Numbers -/

def decimal (ds : List Char) : Nat := ds.foldl (fun n c => n * 10 + (c.toNat - 48)) 0

/-- Decimal digits for the number, which may have a plus sign in front. -/
def IsNumber (s : List Char) (n : Nat) : Prop :=
  ∃ ds, (s = ds ∨ s = '+' :: ds) ∧ ds ≠ [] ∧ (∀ c ∈ ds, 48 ≤ c.toNat ∧ c.toNat ≤ 57) ∧
    decimal ds = n ∧ n ≤ 4294967295

theorem digits_eq_some_iff {ds : List Char} {acc n : Nat} :
    Text.digits ds acc = some n ↔ (∀ c ∈ ds, 48 ≤ c.toNat ∧ c.toNat ≤ 57) ∧
      ds.foldl (fun n c => n * 10 + (c.toNat - 48)) acc = n := by
  induction ds generalizing acc with
  | nil => simp [Text.digits]
  | cons c ds ih =>
    rw [Text.digits, Text.digit, List.forall_mem_cons, List.foldl_cons]
    by_cases hc : 48 ≤ c.toNat ∧ c.toNat ≤ 57
    · rw [if_pos hc, Option.bind_eq_bind, Option.bind_some, ih, and_iff_right hc]
    · rw [if_neg hc]
      simp [hc]

theorem parseU32_eq_some_iff {s : List Char} {n : Nat} : parseU32 s = some n ↔ IsNumber s n := by
  have hplus : ∀ ds : List Char, ds ≠ [] → (∀ c ∈ ds, 48 ≤ c.toNat ∧ c.toNat ≤ 57) →
      ds.head? ≠ some '+' := by
    intro ds hne hall hhead
    obtain ⟨rest, rfl⟩ := List.head?_eq_some_iff.mp hhead
    have := hall '+' List.mem_cons_self
    simp at this
  let tail : List Char := if s.head? = some '+' then s.tail else s
  have hread : parseU32 s = some n ↔ tail ≠ [] ∧ Text.digits tail 0 = some n ∧ n ≤ 4294967295 := by
    rw [parseU32, Text.parseU64, String.toList_ofList]
    change Option.filter _ (if tail = [] then none else _) = _ ↔ _
    by_cases hnil : tail = []
    · simp [hnil]
    · rw [if_neg hnil]
      cases hdigits : Text.digits tail 0 with
      | none => simp
      | some m =>
        change Option.filter _ (if m ≤ 18446744073709551615 then some m else none) = _ ↔ _
        by_cases hm : m ≤ 18446744073709551615
        · rw [if_pos hm, Option.filter_eq_some_iff]
          simp only [Option.some.injEq, decide_eq_true_eq, ne_eq, hnil, not_false_eq_true, true_and]
        · rw [if_neg hm]
          simp only [Option.filter_none, reduceCtorEq, Option.some.injEq, false_iff, not_and]
          omega
  rw [hread, digits_eq_some_iff]
  constructor
  · rintro ⟨hne, ⟨hall, hval⟩, hn⟩
    refine ⟨tail, ?_, hne, hall, hval, hn⟩
    dsimp only [tail]
    split
    next hhead =>
      obtain ⟨rest, rfl⟩ := List.head?_eq_some_iff.mp hhead
      exact .inr rfl
    next => exact .inl rfl
  · rintro ⟨ds, hs, hne, hall, hval, hn⟩
    have htail : tail = ds := by
      rcases hs with rfl | rfl
      · exact if_neg (hplus s hne hall)
      · rfl
    rw [htail]
    exact ⟨hne, ⟨hall, hval⟩, hn⟩

theorem IsNumber.mem {s : List Char} {n : Nat} (h : IsNumber s n) {c : Char} (hc : c ∈ s) :
    c = '+' ∨ 48 ≤ c.toNat ∧ c.toNat ≤ 57 := by
  obtain ⟨ds, rfl | rfl, -, hall, -⟩ := h
  · exact .inr (hall c hc)
  · exact (List.mem_cons.mp hc).imp_right (hall c)

/-! ## Atoms -/

/-- The values that a step ranges over. -/
inductive Span
  | all
  | one (v : Nat)
  | range (a b : Nat)

inductive Span.Reads : List Char → Span → Prop
  | all : Reads ['*'] .all
  | one {s : List Char} {v : Nat} (h : IsNumber s v) : Reads s (.one v)
  | range {s t : List Char} {a b : Nat} (ha : IsNumber s a) (hb : IsNumber t b) :
    Reads (s ++ '-' :: t) (.range a b)

/-- A span with a step, if one is given. -/
structure Atom where
  span : Span
  step? : Option Nat

inductive Atom.Reads : List Char → Atom → Prop
  | plain {s : List Char} {span : Span} (h : span.Reads s) : Reads s ⟨span, none⟩
  | stepped {s t : List Char} {span : Span} {n : Nat} (h : span.Reads s) (hn : IsNumber t n)
    (hpos : 0 < n) : Reads (s ++ '/' :: t) ⟨span, some n⟩

def Atom.step (a : Atom) : Nat := a.step?.getD 1

/-- A range of days of the week with an end 7. -/
def Span.WeekEnd (dow : Bool) (span : Span) : Prop :=
  dow = true ∧ ∃ b c, span = .range b c ∧ (b = 7 ∨ c = 7)

section Bounds

variable (lo hi : Nat) (dow : Bool)

/-- All values are allowed; in the field of the week a single 7 is too. -/
def Span.Within : Span → Prop
  | .all => True
  | .one v => (lo ≤ v ∧ v ≤ hi) ∨ (dow ∧ v = 7)
  | .range a b => a ≤ b ∧ lo ≤ a ∧ b ≤ hi

def Span.first : Span → Nat
  | .all => lo
  | .one v => foldDow v dow
  | .range a _ => a

def Span.last : Span → Nat
  | .all => hi
  | .one v => foldDow v dow
  | .range _ b => b

/-- The values from the first to the last in steps. -/
def Atom.Denotes (a : Atom) (v : Nat) : Prop :=
  ∃ i, v = a.span.first lo dow + i * a.step ∧ v ≤ a.span.last hi dow

/-- The atoms of which nothing is said. -/
def Atom.Slips (a : Atom) : Prop :=
  a.span.WeekEnd dow ∨ 4294967295 < a.span.first lo dow + a.step

/-- The ends of a span, as the parser finds them. -/
def ends (range : List Char) : Option (Nat × Nat) :=
  if range = ['*'] then some (lo, hi)
  else
    match Text.splitOnce ['-'] range with
    | some (a, b) => do
      let a := foldDow (← parseU32 a) dow
      let b := foldDow (← parseU32 b) dow
      if a > b ∨ a < lo ∨ b > hi then none else some (a, b)
    | none => do
      let v := foldDow (← parseU32 range) dow
      if v < lo ∨ v > hi then none else some (v, v)

end Bounds

variable {lo hi : Nat} {dow : Bool} {part : List Char} {span : Span} {a : Atom}

theorem map_ends (range : List Char) (step : Nat) :
    (ends lo hi dow range).map (fun e => stepMask step e.2 64 e.1 0) =
      if range = ['*'] then some (stepMask step hi 64 lo 0)
      else
        match Text.splitOnce ['-'] range with
        | some (a, b) =>
          (parseU32 a).bind fun a => (parseU32 b).bind fun b =>
            if foldDow a dow > foldDow b dow ∨ foldDow a dow < lo ∨ foldDow b dow > hi then none
            else some (stepMask step (foldDow b dow) 64 (foldDow a dow) 0)
        | none =>
          (parseU32 range).bind fun v => if foldDow v dow < lo ∨ foldDow v dow > hi then none
            else some (stepMask step (foldDow v dow) 64 (foldDow v dow) 0) := by
  rw [ends]
  by_cases hstar : range = ['*']
  · rw [if_pos hstar, if_pos hstar]
    rfl
  rw [if_neg hstar, if_neg hstar]
  cases Text.splitOnce ['-'] range with
  | none =>
    cases parseU32 range with
    | none => rfl
    | some v => exact (apply_ite (Option.map _) _ _ _)
  | some cut =>
    obtain ⟨s, t⟩ := cut
    dsimp only
    cases parseU32 s with
    | none => rfl
    | some a =>
      cases parseU32 t with
      | none => rfl
      | some b => exact (apply_ite (Option.map _) _ _ _)

theorem parsePart_plain (h : '/' ∉ part) :
    parsePart part lo hi dow =
      (ends lo hi dow part).map fun e => stepMask 1 e.2 64 e.1 0 := by
  rw [parsePart, Text.splitOnce_of_not_mem h]
  exact (map_ends part 1).symm

theorem parsePart_stepped {s t : List Char} (h : '/' ∉ s) {n : Nat} (hn : parseU32 t = some n)
    (hpos : 0 < n) :
    parsePart (s ++ '/' :: t) lo hi dow =
      (ends lo hi dow s).map fun e => stepMask n e.2 64 e.1 0 := by
  rw [parsePart, Text.splitOnce_cut h]
  change (parseU32 t >>= fun _ => ite _ _ _) = _
  rw [hn, Option.bind_eq_bind, Option.bind_some, if_neg hpos.ne']
  exact (map_ends s n).symm

theorem exists_of_parsePart {m : Nat} (h : parsePart part lo hi dow = some m) :
    (∃ e, ends lo hi dow part = some e) ∨
      ∃ s t n e, part = s ++ '/' :: t ∧ parseU32 t = some n ∧ 0 < n ∧
        ends lo hi dow s = some e := by
  cases hcut : Text.splitOnce ['/'] part with
  | none =>
    rw [parsePart, hcut] at h
    have hmap := (map_ends part 1).trans h
    obtain ⟨e, he, -⟩ := Option.map_eq_some_iff.mp hmap
    exact .inl ⟨e, he⟩
  | some cut =>
    obtain ⟨s, t⟩ := cut
    rw [parsePart, hcut] at h
    change (parseU32 t >>= fun _ => ite _ _ _) = _ at h
    obtain ⟨n, hn, h⟩ := Option.bind_eq_some_iff.mp h
    by_cases hzero : n = 0
    · rw [if_pos hzero] at h
      cases h
    · rw [if_neg hzero] at h
      have hmap := (map_ends s n).trans h
      obtain ⟨e, he, -⟩ := Option.map_eq_some_iff.mp hmap
      exact .inr ⟨s, t, n, e, Text.eq_of_splitOnce hcut, hn, Nat.pos_of_ne_zero hzero, he⟩

/-! ## Reading the ends -/

/-- The bounds of a field: 63 at most, and those of a week where 7 is Sunday. -/
structure Bounds (lo hi : Nat) (dow : Bool) : Prop where
  le : lo ≤ hi
  lt : hi < 64
  week : dow = true → lo = 0 ∧ hi = 6

theorem IsNumber.not_mem {s : List Char} {n : Nat} (h : IsNumber s n) {c : Char}
    (hc : c = '*' ∨ c = '-' ∨ c = '/') : c ∉ s := by
  intro hmem
  rcases h.mem hmem with rfl | hdigit
  · revert hc
    decide
  · rcases hc with rfl | rfl | rfl <;> revert hdigit <;> decide

theorem Span.Reads.slash_not_mem (h : span.Reads part) : '/' ∉ part := by
  cases h with
  | all => decide
  | one h => exact h.not_mem (.inr (.inr rfl))
  | range ha hb =>
    have h₁ := ha.not_mem (c := '/') (.inr (.inr rfl))
    have h₂ := hb.not_mem (c := '/') (.inr (.inr rfl))
    simp [h₁, h₂]

theorem foldDow_eq {v : Nat} (h : ¬ (dow = true ∧ v = 7)) : foldDow v dow = v := by
  rw [foldDow, if_neg]
  simpa using h

theorem within_one_iff (hbounds : Bounds lo hi dow) {v : Nat} :
    (Span.one v).Within lo hi dow ↔ ¬ (foldDow v dow < lo ∨ foldDow v dow > hi) := by
  rw [Span.Within]
  by_cases h : dow = true ∧ v = 7
  · obtain ⟨hdow, rfl⟩ := h
    obtain ⟨rfl, rfl⟩ := hbounds.week hdow
    simp [foldDow, hdow]
  · rw [foldDow_eq h]
    simp only [h, or_false]
    omega

theorem Span.foldDow_range {b c : Nat} (h : ¬ (Span.range b c).WeekEnd dow) :
    foldDow b dow = b ∧ foldDow c dow = c := by
  constructor
  · exact foldDow_eq fun hb => h ⟨hb.1, b, c, rfl, .inl hb.2⟩
  · exact foldDow_eq fun hc => h ⟨hc.1, b, c, rfl, .inr hc.2⟩

theorem ends_of_reads (hbounds : Bounds lo hi dow) (h : span.Reads part)
    (hclean : ¬ span.WeekEnd dow) (hwithin : span.Within lo hi dow) :
    ends lo hi dow part = some (span.first lo dow, span.last hi dow) := by
  cases h with
  | all => rfl
  | @one _ v h =>
    have hstar : part ≠ ['*'] := by
      rintro rfl
      exact h.not_mem (.inl rfl) List.mem_cons_self
    rw [ends, if_neg hstar, Text.splitOnce_of_not_mem (h.not_mem (.inr (.inl rfl))),
      parseU32_eq_some_iff.mpr h]
    exact if_neg ((within_one_iff hbounds).mp hwithin)
  | @range s t b c hb hc =>
    have hstar : s ++ '-' :: t ≠ ['*'] := by
      intro heq
      have hmem : '-' ∈ ['*'] := heq ▸ List.mem_append_right s List.mem_cons_self
      exact absurd hmem (by decide)
    obtain ⟨hfoldb, hfoldc⟩ := Span.foldDow_range hclean
    rw [ends, if_neg hstar, Text.splitOnce_cut (hb.not_mem (.inr (.inl rfl)))]
    change (parseU32 s >>= fun _ => parseU32 t >>= fun _ => ite _ _ _) = _
    rw [parseU32_eq_some_iff.mpr hb, parseU32_eq_some_iff.mpr hc]
    change (if foldDow b dow > foldDow c dow ∨ foldDow b dow < lo ∨ foldDow c dow > hi then none
      else some (foldDow b dow, foldDow c dow)) = some (b, c)
    rw [hfoldb, hfoldc]
    obtain ⟨hle, hlo, hhi⟩ := hwithin
    exact if_neg (by omega)

theorem reads_of_ends (hbounds : Bounds lo hi dow) {e : Nat × Nat}
    (h : ends lo hi dow part = some e) :
    ∃ span : Span, span.Reads part ∧ (¬ span.WeekEnd dow → span.Within lo hi dow) := by
  rw [ends] at h
  split at h
  next hstar => exact ⟨.all, hstar ▸ .all, fun _ => trivial⟩
  next hstar =>
    split at h
    next s t hcut =>
      obtain ⟨b, hb, h⟩ := Option.bind_eq_some_iff.mp h
      obtain ⟨c, hc, h⟩ := Option.bind_eq_some_iff.mp h
      refine ⟨.range b c, ?_, fun hclean => ?_⟩
      · rw [Text.eq_of_splitOnce hcut]
        exact .range (parseU32_eq_some_iff.mp hb) (parseU32_eq_some_iff.mp hc)
      · obtain ⟨hfoldb, hfoldc⟩ := Span.foldDow_range hclean
        dsimp only at h
        rw [hfoldb, hfoldc] at h
        split at h
        · cases h
        next hin => exact ⟨by omega, by omega, by omega⟩
    next =>
      obtain ⟨v, hv, h⟩ := Option.bind_eq_some_iff.mp h
      refine ⟨.one v, .one (parseU32_eq_some_iff.mp hv), fun _ => ?_⟩
      dsimp only at h
      split at h
      · cases h
      next hin => exact (within_one_iff hbounds).mpr hin

/-! ## The values of an atom -/

theorem bit_eq_testBit (mask v : Nat) : bit mask v = mask.testBit v := by
  rw [bit, Nat.one_shiftLeft]
  cases hv : mask.testBit v with
  | false =>
    have hzero : mask &&& 2 ^ v = 0 := by
      refine Nat.eq_of_testBit_eq fun i => ?_
      rw [Nat.testBit_and, Nat.testBit_two_pow, Nat.zero_testBit]
      by_cases hi : v = i
      · rw [← hi, hv, Bool.false_and]
      · simp [hi]
    rw [hzero]
    rfl
  | true =>
    have hset : (mask &&& 2 ^ v).testBit v = true := by
      rw [Nat.testBit_and, hv, Nat.testBit_two_pow_self]
      rfl
    rw [bne_iff_ne]
    intro hzero
    rw [hzero, Nat.zero_testBit] at hset
    cases hset

theorem testBit_stepMask {step last fuel v mask j : Nat} (hstep : 0 < step) (hlast : last < 64)
    (hfits : v ≤ last → v + step ≤ 4294967295) (hfuel : last < v + fuel) :
    (stepMask step last fuel v mask).testBit j = true ↔
      mask.testBit j = true ∨ ∃ i, j = v + i * step ∧ j ≤ last := by
  induction fuel generalizing v mask with
  | zero =>
    have hnone : ¬ ∃ i, j = v + i * step ∧ j ≤ last := by
      rintro ⟨i, rfl, hle⟩
      omega
    simp [stepMask, hnone]
  | succ fuel ih =>
    rw [stepMask]
    split
    next hv =>
      have hnext : (v + step) % 4294967296 = v + step := by
        have := hfits hv
        omega
      rw [hnext, ih (fun h => by omega) (by omega), Nat.testBit_or, Nat.one_shiftLeft,
        Nat.testBit_two_pow, Bool.or_eq_true, decide_eq_true_eq, or_assoc]
      refine or_congr_right ⟨?_, ?_⟩
      · rintro (rfl | ⟨i, rfl, hle⟩)
        · exact ⟨0, by omega, hv⟩
        · exact ⟨i + 1, by rw [Nat.succ_mul]; omega, hle⟩
      · rintro ⟨i, rfl, hle⟩
        cases i with
        | zero => exact .inl (by omega)
        | succ i => exact .inr ⟨i, by rw [Nat.succ_mul]; omega, hle⟩
    next hv =>
      have hnone : ¬ ∃ i, j = v + i * step ∧ j ≤ last := by
        rintro ⟨i, rfl, hle⟩
        omega
      simp [hnone]

theorem Span.within_ends (hbounds : Bounds lo hi dow) (h : span.Within lo hi dow) :
    span.first lo dow ≤ span.last hi dow ∧ span.last hi dow ≤ hi := by
  cases span with
  | all => exact ⟨hbounds.le, le_rfl⟩
  | one v =>
    have hin := (within_one_iff hbounds).mp h
    exact ⟨le_rfl, by simp only [Span.last]; omega⟩
  | range b c => exact ⟨h.1, h.2.2⟩

theorem Atom.Reads.step_pos (h : a.Reads part) : 0 < a.step := by
  cases h with
  | plain _ => exact Nat.one_pos
  | stepped _ _ hpos => exact hpos

theorem parsePart_of_reads (hbounds : Bounds lo hi dow) (h : a.Reads part)
    (hclean : ¬ a.Slips lo dow) (hwithin : a.span.Within lo hi dow) :
    ∃ m, parsePart part lo hi dow = some m ∧ ∀ v, m.testBit v = true ↔ a.Denotes lo hi dow v := by
  obtain ⟨hweek, hstep⟩ := not_or.mp hclean
  obtain ⟨hle, hlast⟩ := Span.within_ends hbounds hwithin
  have hparse : parsePart part lo hi dow =
      some (stepMask a.step (a.span.last hi dow) 64 (a.span.first lo dow) 0) := by
    cases h with
    | plain h =>
      rw [parsePart_plain h.slash_not_mem, ends_of_reads hbounds h hweek hwithin]
      rfl
    | stepped h hn hpos =>
      rw [parsePart_stepped h.slash_not_mem (parseU32_eq_some_iff.mpr hn) hpos,
        ends_of_reads hbounds h hweek hwithin]
      rfl
  refine ⟨_, hparse, fun v => ?_⟩
  have hlt := hbounds.lt
  rw [testBit_stepMask h.step_pos (by omega) (fun _ => not_lt.mp hstep) (by omega),
    Nat.zero_testBit]
  exact or_iff_right Bool.false_ne_true

theorem reads_of_parsePart (hbounds : Bounds lo hi dow) {m : Nat}
    (h : parsePart part lo hi dow = some m) :
    ∃ a : Atom, a.Reads part ∧ (¬ a.Slips lo dow → a.span.Within lo hi dow) := by
  rcases exists_of_parsePart h with ⟨e, he⟩ | ⟨s, t, n, e, rfl, hn, hpos, he⟩
  · obtain ⟨span, hreads, hwithin⟩ := reads_of_ends hbounds he
    exact ⟨⟨span, none⟩, .plain hreads, fun hclean => hwithin fun hweek => hclean (.inl hweek)⟩
  · obtain ⟨span, hreads, hwithin⟩ := reads_of_ends hbounds he
    exact ⟨⟨span, some n⟩, .stepped hreads (parseU32_eq_some_iff.mp hn) hpos,
      fun hclean => hwithin fun hweek => hclean (.inl hweek)⟩

theorem Atom.Denotes.fits (hbounds : Bounds lo hi dow) (hclean : ¬ a.Slips lo dow)
    (hwithin : a.span.Within lo hi dow) {v : Nat} (hv : a.Denotes lo hi dow v) :
    v + a.step ≤ 4294967295 := by
  obtain ⟨i, rfl, hle⟩ := hv
  have hlast := (Span.within_ends hbounds hwithin).2
  have hlt := hbounds.lt
  have hfirst := not_lt.mp (not_or.mp hclean).2
  cases i with
  | zero => simpa using hfirst
  | succ i =>
    rw [Nat.succ_mul] at hle ⊢
    omega

/-! ## Fields -/

/-- The mask with the bits of one more part. -/
def addPart (field : List Char) (lo hi : Nat) (dow : Bool) (mask : Nat) (part : List Char) :
    Except CronError Nat :=
  match parsePart part lo hi dow with
  | some m => .ok (mask ||| m)
  | none => .error (.field (String.ofList field))

theorem parseField_eq (field : List Char) :
    parseField field lo hi dow =
      ((field.splitOn ',').foldlM (addPart field lo hi dow) 0).bind fun mask =>
        if mask = 0 then .error (.field (String.ofList field)) else .ok mask := rfl

theorem foldlM_addPart (field : List Char) (parts : List (List Char)) (mask : Nat) :
    ((∃ m, parts.foldlM (addPart field lo hi dow) mask = .ok m) ↔
        ∀ part ∈ parts, (parsePart part lo hi dow).isSome) ∧
      ∀ m, parts.foldlM (addPart field lo hi dow) mask = .ok m → ∀ v,
        m.testBit v = true ↔ mask.testBit v = true ∨
          ∃ part ∈ parts, ∃ p, parsePart part lo hi dow = some p ∧ p.testBit v = true := by
  induction parts generalizing mask with
  | nil =>
    refine ⟨⟨fun _ part hpart => absurd hpart List.not_mem_nil, fun _ => ⟨mask, rfl⟩⟩, ?_⟩
    intro m hm v
    obtain rfl := Except.ok.inj hm
    simp
  | cons part parts ih =>
    rw [List.foldlM_cons, addPart]
    cases hpart : parsePart part lo hi dow with
    | none =>
      refine ⟨⟨?_, fun hall => ?_⟩, ?_⟩
      · rintro ⟨m, hm⟩
        cases hm
      · have := hall part List.mem_cons_self
        rw [hpart] at this
        cases this
      · intro m hm
        cases hm
    | some p =>
      obtain ⟨hsome, hbits⟩ := ih (mask ||| p)
      change ((∃ m, parts.foldlM (addPart field lo hi dow) (mask ||| p) = .ok m) ↔ _) ∧
        ∀ m, parts.foldlM (addPart field lo hi dow) (mask ||| p) = .ok m → _
      refine ⟨?_, fun m hm v => ?_⟩
      · rw [hsome, List.forall_mem_cons, hpart]
        exact (and_iff_right rfl).symm
      · rw [hbits m hm v, Nat.testBit_or, Bool.or_eq_true, or_assoc]
        refine or_congr_right ?_
        simp [hpart]

/-- The bounds of the five fields. -/
def fieldBounds : List (Nat × Nat × Bool) :=
  [(0, 59, false), (0, 23, false), (1, 31, false), (1, 12, false), (0, 6, true)]

theorem bounds_of_mem (h : (lo, hi, dow) ∈ fieldBounds) : Bounds lo hi dow := by
  have hall : ∀ b ∈ fieldBounds,
      b.1 ≤ b.2.1 ∧ b.2.1 < 64 ∧ (b.2.2 = true → b.1 = 0 ∧ b.2.1 = 6) := by
    decide
  obtain ⟨hle, hlt, hweek⟩ := hall _ h
  exact ⟨hle, hlt, hweek⟩

/-- The parser accepts a field exactly if each of its parts is an atom within the bounds, its mask
has the bits of their values, and no addition leaves 32 bits; for fields without ranges of days of
the week that end with 7, and without steps out of 32 bits. -/
theorem parseField_exact (field : List Char) (lo hi : Nat) (dow : Bool)
    (hbounds : (lo, hi, dow) ∈ fieldBounds)
    (hclean : ∀ part ∈ field.splitOn ',', ∀ a : Atom, a.Reads part → ¬ a.Slips lo dow) :
    ((∃ mask, parseField field lo hi dow = .ok mask) ↔
        ∀ part ∈ field.splitOn ',', ∃ a : Atom, a.Reads part ∧ a.span.Within lo hi dow) ∧
      (∀ mask, parseField field lo hi dow = .ok mask → ∀ v, bit mask v ↔
        ∃ part ∈ field.splitOn ',', ∃ a : Atom, a.Reads part ∧ a.span.Within lo hi dow ∧
          a.Denotes lo hi dow v) ∧
      ∀ part ∈ field.splitOn ',', ∀ a : Atom, a.Reads part → a.span.Within lo hi dow →
        ∀ v, a.Denotes lo hi dow v → v + a.step ≤ 4294967295 := by
  replace hbounds := bounds_of_mem hbounds
  obtain ⟨hsome, hbits⟩ := foldlM_addPart field
    (field.splitOn ',') 0
  have hpart : ∀ part ∈ field.splitOn ',', ∀ p, parsePart part lo hi dow = some p →
      ∃ a : Atom, a.Reads part ∧ a.span.Within lo hi dow := by
    intro part hmem p hp
    obtain ⟨a, hreads, hwithin⟩ := reads_of_parsePart hbounds hp
    exact ⟨a, hreads, hwithin (hclean part hmem a hreads)⟩
  have hvalues : ∀ part ∈ field.splitOn ',', ∀ p, parsePart part lo hi dow = some p →
      ∀ a : Atom, a.Reads part → a.span.Within lo hi dow →
        ∀ v, p.testBit v = true ↔ a.Denotes lo hi dow v := by
    intro part hmem p hp a hreads hwithin
    obtain ⟨p', hp', hiff⟩ :=
      parsePart_of_reads hbounds hreads (hclean part hmem a hreads) hwithin
    obtain rfl := Option.some.inj (hp.symm.trans hp')
    exact hiff
  have hmask : ∀ m, (field.splitOn ',').foldlM (addPart field lo hi dow) 0 = .ok m → ∀ v,
      m.testBit v = true ↔ ∃ part ∈ field.splitOn ',', ∃ a : Atom, a.Reads part ∧
        a.span.Within lo hi dow ∧ a.Denotes lo hi dow v := by
    intro m hm v
    rw [hbits m hm v, Nat.zero_testBit, or_iff_right Bool.false_ne_true]
    constructor
    · rintro ⟨part, hmem, p, hp, hv⟩
      obtain ⟨a, hreads, hwithin⟩ := hpart part hmem p hp
      exact ⟨part, hmem, a, hreads, hwithin, (hvalues part hmem p hp a hreads hwithin v).mp hv⟩
    · rintro ⟨part, hmem, a, hreads, hwithin, hv⟩
      obtain ⟨p, hp, hiff⟩ :=
        parsePart_of_reads hbounds hreads (hclean part hmem a hreads) hwithin
      exact ⟨part, hmem, p, hp, (hiff v).mpr hv⟩
  refine ⟨⟨?_, fun hall => ?_⟩, fun mask hok v => ?_, fun part hmem a hreads hwithin v hv => ?_⟩
  · rintro ⟨mask, hok⟩ part hmem
    rw [parseField_eq] at hok
    cases hfold : (field.splitOn ',').foldlM (addPart field lo hi dow) 0 with
    | error e =>
      rw [hfold] at hok
      cases hok
    | ok m =>
      obtain ⟨p, hp⟩ := Option.isSome_iff_exists.mp (hsome.mp ⟨m, hfold⟩ part hmem)
      exact hpart part hmem p hp
  · have hreads : ∀ part ∈ field.splitOn ',', (parsePart part lo hi dow).isSome := by
      intro part hmem
      obtain ⟨a, hreads, hwithin⟩ := hall part hmem
      obtain ⟨p, hp, -⟩ := parsePart_of_reads hbounds hreads (hclean part hmem a hreads) hwithin
      exact Option.isSome_of_eq_some hp
    obtain ⟨m, hm⟩ := hsome.mpr hreads
    -- the first value of the first part is set
    obtain ⟨part, hmem⟩ := List.exists_mem_of_ne_nil _ (List.splitOn_ne_nil ',' field)
    obtain ⟨a, ha, hwithin⟩ := hall part hmem
    have hfirst : a.Denotes lo hi dow (a.span.first lo dow) :=
      ⟨0, by omega, (Span.within_ends hbounds hwithin).1⟩
    have hset := (hmask m hm _).mpr ⟨part, hmem, a, ha, hwithin, hfirst⟩
    have hne : m ≠ 0 := by
      rintro rfl
      rw [Nat.zero_testBit] at hset
      cases hset
    refine ⟨m, ?_⟩
    rw [parseField_eq, hm]
    exact if_neg hne
  · rw [parseField_eq] at hok
    cases hfold : (field.splitOn ',').foldlM (addPart field lo hi dow) 0 with
    | error e =>
      rw [hfold] at hok
      cases hok
    | ok m =>
      rw [hfold] at hok
      change (if m = 0 then Except.error _ else Except.ok m) = _ at hok
      split at hok
      · cases hok
      · obtain rfl := Except.ok.inj hok
        rw [bit_eq_testBit]
        exact hmask m hfold v
  · exact hv.fits hbounds (hclean part hmem a hreads) hwithin

theorem parseField_exact_sunday :
    (∃ mask, parseField ['7'] 0 6 true = .ok mask) ∧ parseField ['7'] 0 6 true = .ok 1 := by
  have hseven : ∀ a : Atom, a.Reads ['7'] → a = ⟨.one 7, none⟩ := by
    intro a h
    generalize hs : ['7'] = s at h
    cases h with
    | plain h =>
      cases h with
      | all => cases hs
      | @one _ v h =>
        subst hs
        have hv := parseU32_eq_some_iff.mpr h
        have hseven : parseU32 ['7'] = some 7 := by decide
        rw [Option.some.inj (hv.symm.trans hseven)]
      | @range s t b c _ _ =>
        have hmem : '-' ∈ ['7'] := hs ▸ List.mem_append_right s List.mem_cons_self
        exact absurd hmem (by decide)
    | @stepped s t span n _ _ _ =>
      have hmem : '/' ∈ ['7'] := hs ▸ List.mem_append_right s List.mem_cons_self
      exact absurd hmem (by decide)
  have hparts : (['7'] : List Char).splitOn ',' = [['7']] := by decide
  refine ⟨(parseField_exact ['7'] 0 6 true (by decide) ?_).1.mpr ?_, by decide⟩
  · rw [hparts]
    intro part hmem a ha
    rw [List.mem_singleton.mp hmem] at ha
    rw [hseven a ha]
    rintro (⟨-, b, c, heq, -⟩ | hstep)
    · cases heq
    · revert hstep
      decide
  · rw [hparts]
    intro part hmem
    rw [List.mem_singleton.mp hmem]
    refine ⟨⟨.one 7, none⟩, .plain (.one (parseU32_eq_some_iff.mp (by decide))), ?_⟩
    exact .inr ⟨rfl, rfl⟩

/-- A single value with a step is accepted, for the value alone. -/
theorem parseField_five :
    parseField ['5', '/', '2'] 0 59 false = .ok (2 ^ 5) ∧
      (['5', '/', '2'] : List Char).splitOn ',' = [['5', '/', '2']] ∧
      ∀ a : Atom, a.Reads ['5', '/', '2'] → ∃ v n, a = ⟨.one v, some n⟩ := by
  refine ⟨by decide, by decide, fun a h => ?_⟩
  generalize hs : ['5', '/', '2'] = s at h
  cases h with
  | plain h =>
    exact absurd (hs ▸ List.mem_cons_of_mem _ List.mem_cons_self) h.slash_not_mem
  | @stepped s t span n h hn hpos =>
    have hdash : ∀ {b c : List Char}, s ≠ b ++ '-' :: c := by
      rintro b c rfl
      have hmem : '-' ∈ ['5', '/', '2'] := by
        rw [hs]
        simp
      exact absurd hmem (by decide)
    cases h with
    | all => cases hs
    | one h => exact ⟨_, n, rfl⟩
    | range _ _ => exact absurd rfl hdash

end CronSchedule

end CaveHome.ControllerManager
