import CaveHome.Calendar.Candidates
import CaveHome.Lib.Decoder

/-!
# The text of a rule

Which rules are read from text, and when a text is cut inside a character: a day of the week of
which the last two bytes do not begin at a character, after parts and days that are all well formed.
-/

namespace CaveHome.Calendar

/-! ## Outcomes -/

namespace Outcome

variable {α β : Type}

instance [DecidableEq α] : DecidableEq (Outcome α) :=
  inferInstanceAs (DecidableEq (Option (Except IcalError α)))

theorem bind_eq_pure_iff {x : Outcome α} {f : α → Outcome β} {b : β} :
    x >>= f = pure b ↔ ∃ a, x = pure a ∧ f a = pure b := by
  constructor
  · intro h
    rcases x with _ | (e | a)
    · cases h
    · cases h
    · exact ⟨a, rfl, h⟩
  · rintro ⟨a, rfl, h⟩
    rwa [pure_bind]

theorem bind_eq_none_iff {x : Outcome α} {f : α → Outcome β} :
    (x >>= f).run = none ↔ x.run = none ∨ ∃ a, x = pure a ∧ (f a).run = none := by
  rcases x with _ | (e | a)
  · exact iff_of_true rfl (.inl rfl)
  · refine iff_of_false (fun h => ?_) ?_
    · cases h
    · rintro (h | ⟨a, h, -⟩)
      · cases h
      · cases h
  · constructor
    · exact fun h => .inr ⟨a, rfl, h⟩
    · rintro (h | ⟨a', h, hnone⟩)
      · cases h
      · cases h
        exact hnone

theorem trichotomy (x : Outcome α) : x.run = none ∨ (∃ e, x = throw e) ∨ ∃ a, x = pure a := by
  rcases x with _ | (e | a)
  · exact .inl rfl
  · exact .inr (.inl ⟨e, rfl⟩)
  · exact .inr (.inr ⟨a, rfl⟩)

/-- Going through a list comes to an element that is bad, past elements that are all good. -/
def Reaches (good bad : α → Prop) : List α → Prop
  | [] => False
  | a :: l => bad a ∨ good a ∧ Reaches good bad l

variable {good bad : α → Prop}

theorem foldlM_eq_none_iff {f : β → α → Outcome β}
    (hgood : ∀ b a, (∃ b', f b a = pure b') ↔ good a) (hbad : ∀ b a, (f b a).run = none ↔ bad a)
    (l : List α) (b : β) : (l.foldlM f b).run = none ↔ Reaches good bad l := by
  induction l generalizing b with
  | nil =>
    refine iff_of_false (fun h => ?_) id
    cases h
  | cons a l ih =>
    rw [List.foldlM_cons, bind_eq_none_iff, hbad, Reaches, ← hgood b]
    refine or_congr_right ⟨?_, ?_⟩
    · rintro ⟨b', hb', hnone⟩
      exact ⟨⟨b', hb'⟩, (ih b').mp hnone⟩
    · rintro ⟨⟨b', hb'⟩, hreaches⟩
      exact ⟨b', hb', (ih b').mpr hreaches⟩

theorem foldlM_invariant {f : β → α → Outcome β} {P : β → Prop}
    (hstep : ∀ b a b', P b → f b a = pure b' → P b') {l : List α} {b b' : β} (hb : P b)
    (h : l.foldlM f b = pure b') : P b' := by
  induction l generalizing b with
  | nil =>
    cases h
    exact hb
  | cons a l ih =>
    rw [List.foldlM_cons, bind_eq_pure_iff] at h
    obtain ⟨c, hc, hrest⟩ := h
    exact ih (hstep b a c hb hc) hrest

theorem mapM_eq_none_iff {f : α → Outcome β} (hgood : ∀ a, (∃ b, f a = pure b) ↔ good a)
    (hbad : ∀ a, (f a).run = none ↔ bad a) (l : List α) :
    (l.mapM f).run = none ↔ Reaches good bad l := by
  induction l with
  | nil =>
    refine iff_of_false (fun h => ?_) id
    cases h
  | cons a l ih =>
    rw [List.mapM_cons, bind_eq_none_iff, hbad, Reaches, ← hgood a]
    refine or_congr_right ⟨?_, ?_⟩
    · rintro ⟨b, hb, hnone⟩
      rw [bind_eq_none_iff] at hnone
      rcases hnone with hnone | ⟨bs, -, hpure⟩
      · exact ⟨⟨b, hb⟩, ih.mp hnone⟩
      · cases hpure
    · rintro ⟨⟨b, hb⟩, hreaches⟩
      exact ⟨b, hb, bind_eq_none_iff.mpr (.inl (ih.mpr hreaches))⟩

theorem mapM_eq_pure {f : α → Outcome β} {l : List α} {bs : List β} (h : l.mapM f = pure bs) :
    (∀ b ∈ bs, ∃ a ∈ l, f a = pure b) ∧ ∀ a ∈ l, ∃ b, f a = pure b := by
  induction l generalizing bs with
  | nil =>
    cases h
    simp
  | cons a l ih =>
    rw [List.mapM_cons, bind_eq_pure_iff] at h
    obtain ⟨b, hb, h⟩ := h
    rw [bind_eq_pure_iff] at h
    obtain ⟨bs', hbs', hcons⟩ := h
    cases hcons
    obtain ⟨hmem, hall⟩ := ih hbs'
    refine ⟨List.forall_mem_cons.mpr ⟨⟨a, List.mem_cons_self, hb⟩, fun c hc => ?_⟩,
      List.forall_mem_cons.mpr ⟨⟨b, hb⟩, hall⟩⟩
    obtain ⟨a', ha', hc'⟩ := hmem c hc
    exact ⟨a', List.mem_cons_of_mem _ ha', hc'⟩

theorem mapM_isOk_iff {f : α → Outcome β} {l : List α} :
    (∃ bs, l.mapM f = pure bs) ↔ ∀ a ∈ l, ∃ b, f a = pure b := by
  constructor
  · rintro ⟨bs, h⟩
    exact (mapM_eq_pure h).2
  intro h
  induction l with
  | nil => exact ⟨[], rfl⟩
  | cons a l ih =>
    obtain ⟨⟨b, hb⟩, hl⟩ := List.forall_mem_cons.mp h
    obtain ⟨bs, hbs⟩ := ih hl
    exact ⟨b :: bs, by rw [List.mapM_cons, hb, pure_bind, hbs, pure_bind]⟩

end Outcome

/-! ## Characters that are cut -/

theorem splitAt_eq_some_iff {n : Nat} {s a b : List Char} :
    splitAt n s = some (a, b) ↔ a ++ b = s ∧ byteLen a = n := by
  induction s generalizing n a with
  | nil =>
    cases n with
    | zero =>
      rw [splitAt, Option.some.injEq, Prod.mk.injEq, List.append_eq_nil_iff]
      constructor
      · rintro ⟨rfl, rfl⟩
        exact ⟨⟨rfl, rfl⟩, rfl⟩
      · rintro ⟨⟨rfl, rfl⟩, -⟩
        exact ⟨rfl, rfl⟩
    | succ n =>
      refine iff_of_false (by simp [splitAt]) ?_
      rintro ⟨hnil, hlen⟩
      rw [(List.append_eq_nil_iff.mp hnil).1] at hlen
      cases hlen
  | cons c s ih =>
    have hpos := c.utf8Size_pos
    cases n with
    | zero =>
      rw [splitAt, Option.some.injEq, Prod.mk.injEq]
      constructor
      · rintro ⟨rfl, rfl⟩
        exact ⟨rfl, rfl⟩
      · rintro ⟨happend, hlen⟩
        cases a with
        | nil => exact ⟨rfl, happend.symm⟩
        | cons d a =>
          have hd := d.utf8Size_pos
          simp only [byteLen, List.map_cons, List.sum_cons] at hlen
          omega
    | succ n =>
      rw [splitAt]
      constructor
      · intro h
        split at h
        next hle =>
          obtain ⟨⟨a', b'⟩, hrest, heq⟩ := Option.map_eq_some_iff.mp h
          cases heq
          obtain ⟨happend, hlen⟩ := ih.mp hrest
          simp only [byteLen] at hlen
          refine ⟨by rw [List.cons_append, happend], ?_⟩
          simp only [byteLen, List.map_cons, List.sum_cons]
          omega
        next => cases h
      · rintro ⟨happend, hlen⟩
        cases a with
        | nil => cases hlen
        | cons d a =>
          obtain ⟨rfl, htail⟩ := List.cons.inj happend
          simp only [byteLen, List.map_cons, List.sum_cons] at hlen
          have hrest := ih.mpr ⟨htail, (by simp only [byteLen]; omega :
            byteLen a = n + 1 - d.utf8Size)⟩
          rw [if_pos (by omega), hrest]
          rfl

/-- The last two bytes of the text are not whole characters. -/
def CutsChar (tok : List Char) : Prop :=
  2 ≤ byteLen (Text.trim tok) ∧ ∀ num code, num ++ code = Text.trim tok → byteLen code ≠ 2

theorem byteLen_append (a b : List Char) : byteLen (a ++ b) = byteLen a + byteLen b := by
  rw [byteLen, List.map_append, List.sum_append]
  rfl

theorem parseByday_eq_none_iff {tok : List Char} : parseByday tok = none ↔ CutsChar tok := by
  unfold parseByday CutsChar
  dsimp only
  by_cases hlen : byteLen (Text.trim tok) < 2
  · rw [if_pos hlen]
    exact iff_of_false (by simp) fun h => absurd h.1 (not_le.mpr hlen)
  rw [if_neg hlen, and_iff_right (not_lt.mp hlen)]
  cases hsplit : splitAt (byteLen (Text.trim tok) - 2) (Text.trim tok) with
  | none =>
    refine iff_of_true rfl fun num code happend htwo => ?_
    have hsum := byteLen_append num code
    rw [happend, htwo] at hsum
    have hsome := splitAt_eq_some_iff.mpr ⟨happend, (by omega :
      byteLen num = byteLen (Text.trim tok) - 2)⟩
    rw [hsplit] at hsome
    cases hsome
  | some p =>
    obtain ⟨num, code⟩ := p
    obtain ⟨happend, hnum⟩ := splitAt_eq_some_iff.mp hsplit
    have hsum := byteLen_append num code
    rw [happend] at hsum
    refine iff_of_false ?_ fun h => h num code happend (by omega)
    rw [Option.bind_eq_bind, Option.bind_some]
    cases Weekday.fromIcalCode code with
    | none => simp
    | some weekday =>
      dsimp only
      split <;> simp

/-! ## Parts of a rule -/

def GoodDay (tok : List Char) : Prop := ∃ bd, parseByday tok = some (some bd)

def GoodMonthDay (tok : List Char) : Prop :=
  ∃ n, parseI8 (Text.trim tok) = some n ∧ n ≠ 0 ∧ -31 ≤ n ∧ n ≤ 31

def GoodMonth (tok : List Char) : Prop :=
  ∃ m, parseU8 (Text.trim tok) = some m ∧ m ≠ 0 ∧ m ≤ 12

/-- The value is one that the part with this key may have. -/
def GoodValue (key : String) (val : List Char) : Prop :=
  match key with
  | "FREQ" => ∃ f, Freq.parse val = some f
  | "INTERVAL" => ∃ n, parseU32 (Text.trim val) = some n ∧ n ≠ 0
  | "COUNT" => ∃ c, parseU32 (Text.trim val) = some c
  | "UNTIL" => ∃ d, parseDateValue (Text.trim val) = .ok d
  | "BYDAY" => ∀ tok ∈ tokens val, GoodDay tok
  | "BYMONTHDAY" => ∀ tok ∈ tokens val, GoodMonthDay tok
  | "BYMONTH" => ∀ tok ∈ tokens val, GoodMonth tok
  | "WKST" => ∃ w, Weekday.fromIcalCode (Text.trim val) = some w
  | _ => True

/-- A part that is well formed. -/
def GoodPart (part : List Char) : Prop :=
  ∃ key val, Text.splitOnce ['='] part = some (key, val) ∧
    GoodValue (toAsciiUppercase (Text.trim key)) val

/-- A list of weekdays in which a day is cut inside a character, after days that are well formed. -/
def CutsPart (part : List Char) : Prop :=
  ∃ key val, Text.splitOnce ['='] part = some (key, val) ∧
    toAsciiUppercase (Text.trim key) = "BYDAY" ∧ Outcome.Reaches GoodDay CutsChar (tokens val)

/-- What holds of what has been read of a rule. -/
structure Parts.WellFormed (acc : Parts) : Prop where
  interval : 1 ≤ acc.interval ∧ acc.interval ≤ 4294967295
  ordinals : ∀ bd ∈ acc.byDay, ∀ k ∈ bd.ordinal, -128 ≤ k ∧ k ≤ 127
  monthDays : ∀ n ∈ acc.byMonthDay, n ≠ 0 ∧ -31 ≤ n ∧ n ≤ 31
  months : ∀ m ∈ acc.byMonth, 1 ≤ m ∧ m ≤ 12
  limit : ∀ u, acc.limit = .until u → 0 ≤ u.year.1 ∧ u.year.1 ≤ 9999

theorem bydayToken_eq_pure_iff {bad : IcalError} {tok : List Char} {bd : ByDay} :
    bydayToken bad tok = pure bd ↔ parseByday tok = some (some bd) := by
  unfold bydayToken
  rcases parseByday tok with _ | (_ | bd')
  · exact iff_of_false (fun h => by cases h) (fun h => by cases h)
  · exact iff_of_false (fun h => by cases h) (fun h => by cases h)
  · constructor
    · intro h
      cases h
      rfl
    · intro h
      cases h
      rfl

theorem bydayToken_eq_none_iff {bad : IcalError} {tok : List Char} :
    (bydayToken bad tok).run = none ↔ CutsChar tok := by
  rw [← parseByday_eq_none_iff]
  exact Option.map_eq_none_iff

theorem monthDayToken_eq_pure_iff {bad : IcalError} {tok : List Char} {n : Int} :
    monthDayToken bad tok = pure n ↔
      parseI8 (Text.trim tok) = some n ∧ n ≠ 0 ∧ -31 ≤ n ∧ n ≤ 31 := by
  unfold monthDayToken
  cases parseI8 (Text.trim tok) with
  | none => exact iff_of_false (fun h => by cases h) (by simp)
  | some m =>
    dsimp only
    rw [Option.some.injEq]
    split
    next hbad =>
      refine iff_of_false (fun h => by cases h) ?_
      rintro ⟨rfl, hgood⟩
      omega
    next hgood =>
      constructor
      · intro h
        cases h
        exact ⟨rfl, by omega⟩
      · rintro ⟨rfl, -⟩
        rfl

theorem monthToken_eq_pure_iff {bad : IcalError} {tok : List Char} {m : Nat} :
    monthToken bad tok = pure m ↔ parseU8 (Text.trim tok) = some m ∧ m ≠ 0 ∧ m ≤ 12 := by
  unfold monthToken
  cases parseU8 (Text.trim tok) with
  | none => exact iff_of_false (fun h => by cases h) (by simp)
  | some n =>
    dsimp only
    rw [Option.some.injEq]
    split
    next hbad =>
      refine iff_of_false (fun h => by cases h) ?_
      rintro ⟨rfl, hgood⟩
      omega
    next hgood =>
      constructor
      · intro h
        cases h
        exact ⟨rfl, by omega⟩
      · rintro ⟨rfl, -⟩
        rfl

theorem monthDayToken_ne_none {bad : IcalError} (tok : List Char) :
    (monthDayToken bad tok).run = none ↔ False := by
  refine iff_false_intro fun h => ?_
  unfold monthDayToken at h
  split at h
  · cases h
  · split at h <;> cases h

theorem monthToken_ne_none {bad : IcalError} (tok : List Char) :
    (monthToken bad tok).run = none ↔ False := by
  refine iff_false_intro fun h => ?_
  unfold monthToken at h
  split at h
  · cases h
  · split at h <;> cases h

theorem mem_of_parseByday {tok : List Char} {bd : ByDay} (h : parseByday tok = some (some bd)) :
    ∀ k ∈ bd.ordinal, -128 ≤ k ∧ k ≤ 127 := by
  unfold parseByday at h
  dsimp only at h
  split at h
  · cases h
  obtain ⟨⟨num, code⟩, -, h⟩ := Option.bind_eq_some_iff.mp h
  dsimp only at h
  split at h
  · cases h
  split at h
  · cases h
    intro k hk
    cases hk
  · obtain ⟨n, hn, rfl⟩ := Option.map_eq_some_iff.mp (Option.some.inj h)
    intro k hk
    obtain rfl : n = k := Option.mem_some_iff.mp hk
    exact of_decide_eq_true (Option.filter_eq_some_iff.mp hn).2

theorem year_of_parseYmd {bad : IcalError} {s : List Char} {d : Date}
    (h : parseYmd bad s = .ok d) : 0 ≤ d.year.1 ∧ d.year.1 ≤ 9999 := by
  unfold parseYmd at h
  split at h
  · cases h
  next hgood =>
  obtain ⟨hlen, hdigits⟩ := not_or.mp hgood
  rw [not_not] at hlen hdigits
  obtain ⟨year, hyear, h⟩ := Except.bind_eq_ok_iff.mp h
  obtain ⟨month, -, h⟩ := Except.bind_eq_ok_iff.mp h
  obtain ⟨day, -, h⟩ := Except.bind_eq_ok_iff.mp h
  have hsome : (Text.parseI32 (String.ofList (s.take 4))).bind checkI32 = some year := by
    cases hread : (Text.parseI32 (String.ofList (s.take 4))).bind checkI32 with
    | none => rw [hread] at hyear; cases hyear
    | some y => rw [hread] at hyear; cases hyear; rfl
  obtain ⟨n, hn, hcheck⟩ := Option.bind_eq_some_iff.mp hsome
  have hminus : (s.take 4).head? ≠ some '-' := by
    intro hhead
    have hmem := List.mem_of_mem_take (List.mem_of_head? hhead)
    exact absurd (List.all_eq_true.mp hdigits '-' hmem) (by decide)
  have hmem := Text.mem_of_parseI32 hminus hn
  rw [List.length_take, hlen, ← checkI32_eq_some_iff.mp hcheck] at hmem
  have hdate : d.year = year := by
    cases hnew : Date.new year month day with
    | error e => rw [hnew] at h; cases h
    | ok date =>
      rw [hnew] at h
      cases h
      exact (Date.toOption_new_eq_some_iff.mp (congrArg Except.toOption hnew)).1
  rw [hdate]
  norm_num at hmem
  omega

theorem year_of_parseDateValue {s : List Char} {d : DateValue} (h : parseDateValue s = .ok d) :
    0 ≤ d.date.year.1 ∧ d.date.year.1 ≤ 9999 := by
  unfold parseDateValue at h
  dsimp only at h
  split at h
  next datepart timepart hsplit =>
    obtain ⟨date, hdate, h⟩ := Except.bind_eq_ok_iff.mp h
    have hmem := year_of_parseYmd hdate
    generalize (if timepart.getLast? = some 'Z' then timepart.dropLast else timepart) = t at h
    split at h
    · cases h
    obtain ⟨hour, -, h⟩ := Except.bind_eq_ok_iff.mp h
    obtain ⟨minute, -, h⟩ := Except.bind_eq_ok_iff.mp h
    obtain ⟨second, -, h⟩ := Except.bind_eq_ok_iff.mp h
    obtain ⟨dt, hdt, h⟩ := Except.bind_eq_ok_iff.mp h
    cases h
    have hsame : dt.date = date := by
      unfold DateTime.new at hdt
      split at hdt
      · cases hdt
      · cases hdt
        rfl
    rwa [DateValue.date, hsame]
  next =>
    obtain ⟨date, hdate, h⟩ := Except.bind_eq_ok_iff.mp h
    cases h
    exact year_of_parseYmd hdate

/-! ## Reading a part -/

/-- What reading a part does: it goes on, fails or panics. -/
inductive PartRead (bad : IcalError) (acc : Parts) (part : List Char) : Prop
  | good (h : GoodPart part) (hcut : ¬ CutsPart part) (acc' : Parts)
      (hread : parsePart bad acc part = pure acc') (hwf : acc.WellFormed → acc'.WellFormed)
  | fails (h : ¬ GoodPart part) (hcut : ¬ CutsPart part) (e : IcalError)
      (hread : parsePart bad acc part = throw e)
  | cuts (h : ¬ GoodPart part) (hcut : CutsPart part) (hread : (parsePart bad acc part).run = none)

section PartRead

variable {bad : IcalError} {acc : Parts} {part val : List Char}

theorem partRead_option {γ : Type} {x : Option γ} {add : γ → Parts}
    (hread : parsePart bad acc part = x.elim (throw bad) fun a => pure (add a))
    (hgood : GoodPart part ↔ ∃ a, x = some a) (hcuts : ¬ CutsPart part)
    (hwf : ∀ a, x = some a → acc.WellFormed → (add a).WellFormed) : PartRead bad acc part := by
  cases x with
  | none =>
    refine .fails (fun h => ?_) hcuts bad hread
    obtain ⟨a, ha⟩ := hgood.mp h
    cases ha
  | some a => exact .good (hgood.mpr ⟨a, rfl⟩) hcuts (add a) hread (hwf a rfl)

theorem partRead_list {γ : Type} {token : List Char → Outcome γ} {good cut : List Char → Prop}
    {add : List γ → Parts}
    (hread : parsePart bad acc part = (tokens val).mapM token >>= fun xs => pure (add xs))
    (hpure : ∀ tok, (∃ a, token tok = pure a) ↔ good tok)
    (hnone : ∀ tok, (token tok).run = none ↔ cut tok)
    (hgood : GoodPart part ↔ ∀ tok ∈ tokens val, good tok)
    (hcuts : CutsPart part ↔ Outcome.Reaches good cut (tokens val))
    (hwf : ∀ xs, (∀ a ∈ xs, ∃ tok, token tok = pure a) → acc.WellFormed → (add xs).WellFormed) :
    PartRead bad acc part := by
  have hall : (∃ xs, (tokens val).mapM token = pure xs) ↔ GoodPart part := by
    rw [Outcome.mapM_isOk_iff, hgood]
    exact forall₂_congr fun tok _ => hpure tok
  have hrun : ((tokens val).mapM token).run = none ↔ CutsPart part := by
    rw [hcuts]
    exact Outcome.mapM_eq_none_iff hpure hnone _
  rcases Outcome.trichotomy ((tokens val).mapM token) with heq | ⟨e, heq⟩ | ⟨xs, heq⟩
  · refine .cuts (fun h => ?_) (hrun.mp heq) ?_
    · obtain ⟨xs, hxs⟩ := hall.mpr h
      rw [hxs] at heq
      cases heq
    · rw [hread, Outcome.bind_eq_none_iff]
      exact .inl heq
  · refine .fails (fun h => ?_) (fun h => ?_) e ?_
    · obtain ⟨xs, hxs⟩ := hall.mpr h
      rw [hxs] at heq
      cases heq
    · have hnot := hrun.mpr h
      rw [heq] at hnot
      cases hnot
    · rw [hread, heq]
      rfl
  · refine .good (hall.mp ⟨xs, heq⟩) (fun h => ?_) (add xs) ?_ (hwf xs fun a ha => ?_)
    · have hnot := hrun.mpr h
      rw [heq] at hnot
      cases hnot
    · rw [hread, heq, pure_bind]
    · obtain ⟨tok, -, htok⟩ := (Outcome.mapM_eq_pure heq).1 a ha
      exact ⟨tok, htok⟩

theorem not_reaches_false {γ : Type} {good : γ → Prop} (l : List γ) :
    ¬ Outcome.Reaches good (fun _ => False) l := by
  induction l with
  | nil => exact id
  | cons a l ih =>
    rintro (h | ⟨-, h⟩)
    · exact h
    · exact ih h

end PartRead

theorem parsePart_spec (bad : IcalError) (acc : Parts) (part : List Char) :
    PartRead bad acc part := by
  cases hsplit : Text.splitOnce ['='] part with
  | none =>
    refine .fails ?_ ?_ bad ?_
    · rintro ⟨key, val, hsome, -⟩
      rw [hsplit] at hsome
      cases hsome
    · rintro ⟨key, val, hsome, -⟩
      rw [hsplit] at hsome
      cases hsome
    · unfold parsePart
      rw [hsplit]
  | some p =>
    obtain ⟨key, val⟩ := p
    have hgood : GoodPart part ↔ GoodValue (toAsciiUppercase (Text.trim key)) val := by
      unfold GoodPart
      rw [hsplit]
      simp
    have hcuts : CutsPart part ↔ toAsciiUppercase (Text.trim key) = "BYDAY" ∧
        Outcome.Reaches GoodDay CutsChar (tokens val) := by
      unfold CutsPart
      rw [hsplit]
      simp
    have hread : parsePart bad acc part = parsePart bad acc part := rfl
    conv at hread =>
      rhs
      unfold parsePart
      rw [hsplit]
    dsimp only at hread
    generalize toAsciiUppercase (Text.trim key) = k at hgood hcuts hread
    have hno : k ≠ "BYDAY" → ¬ CutsPart part := fun hk h => hk (hcuts.mp h).1
    have hno' : k ≠ "BYDAY" → ∀ good : List Char → Prop,
        (CutsPart part ↔ Outcome.Reaches good (fun _ => False) (tokens val)) :=
      fun hk good => iff_of_false (hno hk) (not_reaches_false _)
    split at hread
    · -- FREQ
      exact partRead_option hread hgood (hno (by decide)) fun f _ h => { h with }
    · -- INTERVAL
      cases hval : parseU32 (Text.trim val) with
      | none =>
        rw [hval] at hread
        refine .fails (fun h => ?_) (hno (by decide)) bad hread
        obtain ⟨n, hn, -⟩ := hgood.mp h
        rw [hval] at hn
        cases hn
      | some n =>
        rw [hval, Option.elim_some] at hread
        split at hread
        next hzero =>
          refine .fails (fun h => ?_) (hno (by decide)) bad hread
          obtain ⟨m, hm, hne⟩ := hgood.mp h
          rw [hval] at hm
          exact hne (Option.some.inj hm ▸ hzero)
        next hne =>
          have hle : n ≤ 4294967295 := of_decide_eq_true (Option.filter_eq_some_iff.mp hval).2
          exact .good (hgood.mpr ⟨n, hval, hne⟩) (hno (by decide)) _ hread fun h =>
            { h with interval := ⟨Nat.pos_of_ne_zero hne, hle⟩ }
    · -- COUNT
      exact partRead_option hread hgood (hno (by decide)) fun c _ h =>
        { h with limit := fun u hu => by cases hu }
    · -- UNTIL
      cases hval : parseDateValue (Text.trim val) with
      | error e =>
        rw [hval] at hread
        refine .fails (fun h => ?_) (hno (by decide)) e hread
        obtain ⟨d, hd⟩ := hgood.mp h
        rw [hval] at hd
        cases hd
      | ok d =>
        rw [hval] at hread
        refine .good (hgood.mpr ⟨d, hval⟩) (hno (by decide)) _ hread fun h =>
          { h with limit := fun u hu => ?_ }
        cases hu
        exact year_of_parseDateValue hval
    · -- BYDAY
      refine partRead_list hread (fun tok => exists_congr fun bd => bydayToken_eq_pure_iff)
        (fun tok => bydayToken_eq_none_iff) hgood (hcuts.trans (and_iff_right rfl)) ?_
      intro days hdays h
      refine { h with ordinals := List.forall_mem_append.mpr ⟨h.ordinals, fun bd hbd => ?_⟩ }
      obtain ⟨tok, htok⟩ := hdays bd hbd
      exact mem_of_parseByday (bydayToken_eq_pure_iff.mp htok)
    · -- BYMONTHDAY
      refine partRead_list hread (fun tok => exists_congr fun n => monthDayToken_eq_pure_iff)
        monthDayToken_ne_none hgood (hno' (by decide) _) ?_
      intro days hdays h
      refine { h with monthDays := List.forall_mem_append.mpr ⟨h.monthDays, fun n hn => ?_⟩ }
      obtain ⟨tok, htok⟩ := hdays n hn
      exact (monthDayToken_eq_pure_iff.mp htok).2
    · -- BYMONTH
      refine partRead_list hread (fun tok => exists_congr fun m => monthToken_eq_pure_iff)
        monthToken_ne_none hgood (hno' (by decide) _) ?_
      intro months hmonths h
      refine { h with months := List.forall_mem_append.mpr ⟨h.months, fun m hm => ?_⟩ }
      obtain ⟨tok, htok⟩ := hmonths m hm
      obtain ⟨-, hzero, hle⟩ := monthToken_eq_pure_iff.mp htok
      exact ⟨Nat.pos_of_ne_zero hzero, hle⟩
    · -- WKST
      exact partRead_option hread hgood (hno (by decide)) fun w _ h => { h with }
    next hfreq hinterval hcount huntil hbyday hbymonthday hbymonth hwkst =>
      refine .good (hgood.mpr ?_) (hno hbyday) acc hread id
      unfold GoodValue
      split
      all_goals first | exact trivial | contradiction

/-! ## Reading a rule -/

theorem Parts.wellFormed_none : Parts.none.WellFormed where
  interval := by decide
  ordinals := fun bd hbd => absurd hbd List.not_mem_nil
  monthDays := fun n hn => absurd hn List.not_mem_nil
  months := fun m hm => absurd hm List.not_mem_nil
  limit := fun u hu => by cases hu

/-- The pieces of a text between the semicolons that are not empty. -/
def partsOf (value : String) : List (List Char) := (value.toList.splitOn ';').filter (· ≠ [])

theorem parse_wellFormed {value : String} {rule : RRule} (h : RRule.parse value = pure rule) :
    rule.WellFormed := by
  obtain ⟨acc, hacc, h⟩ := Outcome.bind_eq_pure_iff.mp h
  have hwf : acc.WellFormed := by
    refine Outcome.foldlM_invariant (fun acc part acc' hwf hread => ?_) Parts.wellFormed_none hacc
    cases parsePart_spec (.badDateValue value) acc part with
    | good _ _ acc'' hread' hwf' =>
      rw [hread] at hread'
      cases hread'
      exact hwf' hwf
    | fails _ _ e hread' =>
      rw [hread] at hread'
      cases hread'
    | cuts _ _ hread' =>
      rw [hread] at hread'
      cases hread'
  split at h
  · cases h
  · cases h
    exact { hwf with }

theorem parse_eq_none_iff {value : String} :
    (RRule.parse value).run = none ↔ Outcome.Reaches GoodPart CutsPart (partsOf value) := by
  have hloop : ((partsOf value).foldlM (parsePart (.badDateValue value)) Parts.none).run = none ↔
      Outcome.Reaches GoodPart CutsPart (partsOf value) := by
    refine Outcome.foldlM_eq_none_iff (fun acc part => ?_) (fun acc part => ?_) _ _
    · cases parsePart_spec (.badDateValue value) acc part with
      | good hgood _ acc' hread _ => exact iff_of_true ⟨acc', hread⟩ hgood
      | fails hbad _ e hread =>
        refine iff_of_false ?_ hbad
        rintro ⟨acc', hacc'⟩
        rw [hread] at hacc'
        cases hacc'
      | cuts hbad _ hread =>
        refine iff_of_false ?_ hbad
        rintro ⟨acc', hacc'⟩
        rw [hacc'] at hread
        cases hread
    · cases parsePart_spec (.badDateValue value) acc part with
      | good _ hcut acc' hread _ =>
        refine iff_of_false (fun h => ?_) hcut
        rw [hread] at h
        cases h
      | fails _ hcut e hread =>
        refine iff_of_false (fun h => ?_) hcut
        rw [hread] at h
        cases h
      | cuts _ hcut hread => exact iff_of_true hread hcut
  rw [← hloop]
  unfold RRule.parse
  rw [Outcome.bind_eq_none_iff]
  refine or_iff_left ?_
  rintro ⟨acc, -, hnone⟩
  split at hnone <;> cases hnone

end CaveHome.Calendar
