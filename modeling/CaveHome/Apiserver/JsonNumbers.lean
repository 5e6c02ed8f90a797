import CaveHome.Apiserver.JsonStrings

/-!
# The numbers of the readers

A number is a numeral that denotes and starts with a minus or a digit.  One reader cuts it out of
the text part by part, the other as a run of what numerals are made of, which must not end with its
point.
-/

/-! ## The ends of a numeral -/

namespace Numeral

/-- It starts with a minus or a digit. -/
def Leads (n : Numeral) : Prop := n.sign ≠ some 0x2B ∧ (n.sign = none → n.int ≠ [])

/-- Its point comes last. -/
def PointLast (n : Numeral) : Prop := n.frac = some [] ∧ n.exp = none

theorem toNat_lt_of_isPart {b : UInt8} (h : isPart b = true) : b.toNat < 128 := by
  simp only [isPart, isDigit, Bool.or_eq_true, Bool.and_eq_true, decide_eq_true_eq,
    beq_iff_eq] at h
  rcases h with ((((h | rfl) | rfl) | rfl) | rfl) | rfl
  · have hle := UInt8.le_iff_toNat_le.mp h.2
    change b.toNat ≤ 57 at hle
    omega
  all_goals decide

theorem Leads.head {n : Numeral} (h : n.Leads) :
    ∃ c b, n.text = c :: b ∧ (c = 0x2D ∨ (0x30 ≤ c ∧ c ≤ 0x39)) := by
  obtain ⟨hplus, hint⟩ := h
  rw [text]
  cases hsign : n.sign with
  | some c =>
    have hc : c = 0x2D := (n.sign_eq c hsign).resolve_left fun h => hplus (hsign.trans (h ▸ rfl))
    exact ⟨c, _, rfl, .inl hc⟩
  | none =>
    obtain ⟨d, ds, hd⟩ := List.exists_cons_of_ne_nil (hint hsign)
    have hdigit := n.int_digits d (hd ▸ List.mem_cons_self)
    rw [isDigit, Bool.and_eq_true, decide_eq_true_eq, decide_eq_true_eq] at hdigit
    rw [hd]
    exact ⟨d, _, rfl, .inr hdigit⟩

theorem leads_of_head {n : Numeral} {c : UInt8} {b : Bytes} (h : n.text = c :: b)
    (hc : c = 0x2D ∨ isDigit c = true) : n.Leads := by
  constructor
  · intro hsign
    rw [text, hsign] at h
    obtain rfl := (List.cons.inj h).1
    revert hc
    decide
  · intro hsign hint
    rw [text, hsign, hint, fracText, expText] at h
    cases hfrac : n.frac with
    | some ds =>
      rw [hfrac] at h
      obtain rfl := (List.cons.inj h).1
      revert hc
      decide
    | none =>
      rw [hfrac] at h
      cases hexp : n.exp with
      | none =>
        rw [hexp] at h
        cases h
      | some e =>
        rw [hexp] at h
        obtain rfl := (List.cons.inj h).1
        revert hc
        obtain hmark | hmark := e.mark_eq <;> rw [hmark] <;> decide

theorem getLast?_digits {ds : Bytes} (hne : ds ≠ []) (hds : ∀ c ∈ ds, isDigit c = true)
    (w : Bytes) : (w ++ ds).getLast?.any (!isDigit ·) = false := by
  rw [List.getLast?_append_of_ne_nil w hne, List.getLast?_eq_some_getLast hne, Option.any_some,
    hds _ (List.getLast_mem hne)]
  rfl

theorem getLast?_text {n : Numeral} (h : n.Denotes) :
    n.text.getLast?.any (!isDigit ·) = true ↔ n.PointLast := by
  obtain ⟨hdigits, hexp⟩ := h
  rw [text, fracText, expText, PointLast]
  cases he : n.exp with
  | some e =>
    rw [he] at hexp
    have hne : e.digits ≠ [] := by simpa using hexp
    have hlast := getLast?_digits hne e.all_digits
      (n.sign.toList ++ (n.int ++ (n.frac.elim [] (0x2E :: ·) ++ e.mark :: e.sign.toList)))
    simp only [List.append_assoc, List.cons_append] at hlast
    simp only [Option.elim_some, Exponent.text, hlast, Bool.false_eq_true, reduceCtorEq, and_false]
  | none =>
    rw [Option.elim_none, List.append_nil]
    cases hfrac : n.frac with
    | none =>
      rw [hfrac] at hdigits
      have hne : n.int ≠ [] := by simpa using hdigits
      have hlast := getLast?_digits hne n.int_digits n.sign.toList
      simp only [Option.elim_none, List.append_nil, hlast, Bool.false_eq_true, reduceCtorEq,
        false_and]
    | some ds =>
      cases ds with
      | nil =>
        rw [Option.elim_some, ← List.append_assoc, List.getLast?_concat]
        exact iff_of_true rfl ⟨rfl, rfl⟩
      | cons d ds =>
        have hlast := getLast?_digits (List.cons_ne_nil d ds) (n.frac_digits _ hfrac)
          (n.sign.toList ++ (n.int ++ [0x2E]))
        simp only [List.append_assoc, List.cons_append, List.nil_append] at hlast
        simp only [Option.elim_some, hlast, Bool.false_eq_true, Option.some.injEq, reduceCtorEq,
          false_and]

end Numeral

namespace CaveHome.Apiserver

open JsonText

variable {ν : Type}

theorem exists_ofString {b : Bytes} (h : ∀ c ∈ b, c.toNat < 128) :
    Bytes.ofString (String.ofList (b.map fun c => Char.ofNat c.toNat)) = b := by
  have hvalid : ∀ c ∈ b, (Char.ofNat c.toNat).toNat = c.toNat := by
    intro c hc
    rw [Char.ofNat, dif_pos (.inl ((h c hc).trans (by decide)))]
    rfl
  rw [Bytes.ofString_ofList, List.map_map]
  · refine (List.map_congr_left fun c hc => ?_).trans (List.map_id b)
    rw [Function.comp_apply, hvalid c hc]
    exact UInt8.ofNat_toNat
  · intro c hc
    obtain ⟨d, hd, rfl⟩ := List.mem_map.mp hc
    rw [hvalid d hd]
    exact h d hd

theorem toList_of_ofString {s : String} {b : Bytes} (hs : Bytes.ofString s = b)
    (h : ∀ c ∈ b, c.toNat < 128) : s.toList = b.map fun c => Char.ofNat c.toNat := by
  rw [Bytes.ofString_injective (hs.trans (exists_ofString h).symm), String.toList_ofList]

/-! ## What the readers take for numbers -/

/-- A numeral in front of a text, and the double that it is read as. -/
def NumberToken [Float64 ν] (accepts : Numeral → Prop) (b : Bytes) (x : ν) (rest : Bytes) : Prop :=
  ∃ (n : Numeral) (s : String), n.Denotes ∧ n.Leads ∧ accepts n ∧ b = n.text ++ rest ∧
    Bytes.ofString s = n.text ∧ Float64.parse s = some x

def Parser.tokens [Float64 ν] : Tokens ν String where
  number := NumberToken fun _ => True
  string := (Parser.lexing (ν := ν)).StringToken

def ValueParser.tokens [Float64 ν] : Tokens ν String where
  number := NumberToken fun n => ¬ n.PointLast
  string := (ValueParser.lexing (ν := ν)).StringToken

theorem NumberToken.apart [Float64 ν] {accepts : Numeral → Prop} {b rest : Bytes} {x : ν}
    (h : NumberToken accepts b x rest) :
    ∃ c b', b = c :: b' ∧ (c = 0x2D ∨ (0x30 ≤ c ∧ c ≤ 0x39)) ∧ rest.length ≤ b'.length := by
  obtain ⟨n, s, -, hleads, -, rfl, -⟩ := h
  obtain ⟨c, b', htext, hc⟩ := hleads.head
  refine ⟨c, b' ++ rest, by rw [htext]; rfl, hc, ?_⟩
  rw [List.length_append]
  omega

theorem isPart_of_stops {rest : Bytes} (h : Stops rest) :
    ∀ c ∈ rest.head?, Numeral.isPart c = false := by
  intro c hc
  rcases h c hc with hblank | rfl | rfl | rfl
  · simp only [isBlank, Bool.or_eq_true, beq_iff_eq] at hblank
    rcases hblank with ((rfl | rfl) | rfl) | rfl <;> decide
  all_goals decide

theorem not_isDigit_of_not_isPart {c : UInt8} (h : Numeral.isPart c = false) :
    Numeral.isDigit c = false := by
  by_contra hdigit
  rw [Numeral.isPart_of_isDigit (Bool.not_eq_false _ ▸ hdigit)] at h
  cases h

/-! ## Cutting out a run -/

/-- The bytes between two positions, all of them parts of numerals. -/
def Spans (p q : Parser) (w : Bytes) : Prop :=
  p.rest = w ++ q.rest ∧ q.pos = p.pos + w.length ∧ ∀ c ∈ w, Numeral.isPart c = true

variable {p q r : Parser} {w w' rest : Bytes}

theorem Spans.refl (p : Parser) : Spans p p [] := ⟨rfl, rfl, by rintro _ ⟨⟩⟩

theorem Spans.trans (h : Spans p q w) (h' : Spans q r w') : Spans p r (w ++ w') := by
  obtain ⟨hrest, hpos, hpart⟩ := h
  obtain ⟨hrest', hpos', hpart'⟩ := h'
  refine ⟨by rw [hrest, hrest', List.append_assoc], ?_, ?_⟩
  · rw [hpos', hpos, List.length_append, Nat.add_assoc]
  · intro c hc
    exact (List.mem_append.mp hc).elim (hpart c) (hpart' c)

theorem Spans.take (h : Spans p q w) : p.rest.take (q.pos - p.pos) = w := by
  rw [h.1, h.2.1, Nat.add_sub_cancel_left, List.take_left]

theorem spans_skip {test : UInt8 → Bool} (htest : ∀ c, test c = true → Numeral.isPart c = true)
    (p : Parser) : Spans p (p.skip test) (p.rest.takeWhile test) := by
  refine ⟨?_, rfl, fun c hc => htest c (List.mem_takeWhile_imp hc)⟩
  rw [Parser.skip_rest, List.takeWhile_append_dropWhile]

theorem spans_advance {c : UInt8} (h : p.peek = some c) (hc : Numeral.isPart c = true) :
    Spans p (p.advance 1) [c] := by
  have hp := Parser.peek_eq_some_iff.mp h
  refine ⟨hp, rfl, fun d hd => ?_⟩
  rwa [List.mem_singleton.mp hd]

theorem exists_spans_ite {c : Prop} [Decidable c] (h : c → ∃ w, Spans p q w) :
    ∃ w, Spans p (if c then q else p) w := by
  split
  next hc => exact h hc
  next => exact ⟨[], .refl p⟩

theorem spans_digits (p : Parser) :
    Spans p (p.skip Parser.isDigit) (p.rest.takeWhile Parser.isDigit) :=
  spans_skip (fun _ => Numeral.isPart_of_isDigit) p

theorem spans_parts (p : Parser) :
    Spans p (p.skip Numeral.isPart) (p.rest.takeWhile Numeral.isPart) := spans_skip (fun _ => id) p

/-! ## Part by part -/

theorem exists_spans_numberEnd (p : Parser) : ∃ w, Spans p p.numberEnd w := by
  rw [Parser.numberEnd]
  dsimp only
  generalize hsign : (if p.peek = some 0x2D then p.advance 1 else p) = p₁
  obtain ⟨w₁, h₁⟩ : ∃ w, Spans p p₁ w := by
    rw [← hsign]
    exact exists_spans_ite fun h => ⟨_, spans_advance h (by decide)⟩
  have h₂ := h₁.trans (spans_digits p₁)
  generalize p₁.skip Parser.isDigit = p₂ at h₂ ⊢
  generalize hfrac : (if p₂.peek = some 0x2E then (p₂.advance 1).skip Parser.isDigit else p₂) = p₃
  obtain ⟨w₃, h₃⟩ : ∃ w, Spans p₂ p₃ w := by
    rw [← hfrac]
    exact exists_spans_ite fun h => ⟨_, (spans_advance h (by decide)).trans (spans_digits _)⟩
  have h₄ := h₂.trans h₃
  split
  next hmark =>
    obtain ⟨c, hpeek, hc⟩ : ∃ c, p₃.peek = some c ∧ Numeral.isPart c = true := by
      obtain h | h := hmark
      · exact ⟨_, h, by decide⟩
      · exact ⟨_, h, by decide⟩
    have h₅ := h₄.trans (spans_advance hpeek hc)
    generalize p₃.advance 1 = p₄ at h₅ ⊢
    obtain ⟨w₆, h₆⟩ : ∃ w, Spans p₄
        (if p₄.peek = some 0x2B ∨ p₄.peek = some 0x2D then p₄.advance 1 else p₄) w := by
      refine exists_spans_ite fun h => ?_
      obtain h | h := h
      · exact ⟨_, spans_advance h (by decide)⟩
      · exact ⟨_, spans_advance h (by decide)⟩
    exact ⟨_, (h₅.trans h₆).trans (spans_digits _)⟩
  next => exact ⟨_, h₄⟩

theorem skip_digits {ds : Bytes} (hp : p.rest = ds ++ rest)
    (hds : ∀ c ∈ ds, Numeral.isDigit c = true) (hrest : Numeral.NoDigit rest) :
    (p.skip Parser.isDigit).rest = rest := by
  rw [Parser.skip_rest, hp]
  exact (Numeral.takeWhile_digits hds hrest).2

theorem signEnd_rest {sign : Option UInt8} {b : Bytes} (hp : p.rest = sign.toList ++ b)
    (hsign : ∀ c ∈ sign, c = 0x2D) (hb : ∀ c ∈ b.head?, c ≠ 0x2D) :
    (if p.peek = some 0x2D then p.advance 1 else p).rest = b := by
  cases sign with
  | some c =>
    obtain rfl := hsign c rfl
    rw [if_pos (by rw [Parser.peek, hp]; rfl)]
    exact Parser.advance_cons hp
  | none =>
    rw [if_neg fun h => hb 0x2D (by rw [Parser.peek, hp] at h; exact h) rfl]
    exact hp

theorem fracEnd_rest (n : Numeral) (hp : p.rest = n.fracText ++ (n.expText ++ rest))
    (hrest : Numeral.NoDigit rest) (hdot : ∀ c ∈ rest.head?, c ≠ 0x2E) :
    (if p.peek = some 0x2E then (p.advance 1).skip Parser.isDigit else p).rest =
      n.expText ++ rest := by
  have hexp := n.noDigit_expText hrest
  rw [Numeral.fracText] at hp
  cases hfrac : n.frac with
  | some ds =>
    rw [hfrac] at hp
    rw [if_pos (by rw [Parser.peek, hp]; rfl)]
    exact skip_digits (Parser.advance_cons hp) (n.frac_digits ds hfrac) hexp
  | none =>
    rw [hfrac, Option.elim_none, List.nil_append] at hp
    rw [if_neg fun h => ?_]
    · exact hp
    · rw [Parser.peek, hp, Numeral.expText] at h
      cases he : n.exp with
      | none =>
        rw [he] at h
        exact hdot _ h rfl
      | some e =>
        rw [he] at h
        obtain hmark | hmark := e.mark_eq <;>
          exact absurd (hmark.symm.trans (Option.some.inj h)) (by decide)

theorem expEnd_rest (n : Numeral) (hp : p.rest = n.expText ++ rest)
    (hrest : ∀ c ∈ rest.head?, Numeral.isPart c = false) :
    (if p.peek = some 0x65 ∨ p.peek = some 0x45 then
      (if (p.advance 1).peek = some 0x2B ∨ (p.advance 1).peek = some 0x2D then
        (p.advance 1).advance 1 else p.advance 1).skip Parser.isDigit else p).rest = rest := by
  have hnone : ∀ {c : UInt8}, Numeral.isPart c = true → rest.head? ≠ some c := by
    intro c hc h
    rw [hrest c h] at hc
    cases hc
  rw [Numeral.expText] at hp
  cases he : n.exp with
  | none =>
    rw [he] at hp
    change p.rest = rest at hp
    rw [Parser.peek, hp, if_neg (not_or.mpr ⟨hnone (by decide), hnone (by decide)⟩), hp]
  | some e =>
    rw [he] at hp
    have hmark : p.peek = some 0x65 ∨ p.peek = some 0x45 := by
      rw [Parser.peek, hp]
      exact e.mark_eq.imp (congrArg some) (congrArg some)
    rw [if_pos hmark]
    have hafter : (p.advance 1).rest = e.sign.toList ++ (e.digits ++ rest) := by
      rw [← List.append_assoc]
      exact Parser.advance_cons hp
    generalize p.advance 1 = q at hafter ⊢
    have hdigit : Numeral.NoDigit rest := fun c hc => not_isDigit_of_not_isPart (hrest c hc)
    refine skip_digits ?_ e.all_digits hdigit
    cases hsign : e.sign with
    | some c =>
      rw [hsign] at hafter
      rw [if_pos]
      · exact Parser.advance_cons hafter
      · rw [Parser.peek, hafter]
        exact (e.sign_eq c hsign).imp (congrArg some) (congrArg some)
    | none =>
      rw [hsign] at hafter
      change q.rest = e.digits ++ rest at hafter
      have hhead : ∀ {c : UInt8}, Numeral.isPart c = true → Numeral.isDigit c = false →
          q.peek ≠ some c := by
        intro c hpart hc h
        rw [Parser.peek, hafter] at h
        cases hd : e.digits with
        | nil =>
          rw [hd] at h
          exact hnone hpart h
        | cons d ds =>
          rw [hd] at h
          have hall := e.all_digits d (hd ▸ List.mem_cons_self)
          rw [Option.some.inj h, hc] at hall
          cases hall
      rw [if_neg (not_or.mpr ⟨hhead (by decide) (by decide), hhead (by decide) (by decide)⟩)]
      exact hafter

theorem numberEnd_rest {n : Numeral} (hp : p.rest = n.text ++ rest) (hsign : n.sign ≠ some 0x2B)
    (hrest : ∀ c ∈ rest.head?, Numeral.isPart c = false) : p.numberEnd.rest = rest := by
  have hdigit : Numeral.NoDigit rest := fun c hc => not_isDigit_of_not_isPart (hrest c hc)
  have hne : ∀ {d : UInt8}, Numeral.isPart d = true → ∀ c ∈ rest.head?, c ≠ d := by
    rintro _ hd c hc rfl
    rw [hrest c hc] at hd
    cases hd
  rw [Numeral.text] at hp
  simp only [List.append_assoc] at hp
  have hminus : ∀ c ∈ n.sign, c = 0x2D := fun c hc =>
    (n.sign_eq c hc).resolve_left fun h => hsign (h ▸ hc)
  have h₁ := signEnd_rest hp hminus fun c hc =>
    (n.head_body (fun c hc => ⟨hne (by decide) c hc, hne (by decide) c hc⟩) c hc).2
  have h₂ := skip_digits h₁ n.int_digits (n.noDigit_fracText hdigit)
  have h₃ := fracEnd_rest n h₂ hdigit (hne (by decide))
  exact expEnd_rest n h₃ hrest

section Exact

variable [FloatText ν]

theorem numberToken_of_parse {accepts : Numeral → Prop} {c : UInt8} {s : String} {x : ν}
    (h : Spans p q w) (hpeek : p.peek = some c) (hc : c = 0x2D ∨ Parser.isDigit c = true)
    (hne : w ≠ []) (hs : Bytes.ofString s = w) (hx : Float64.parse s = some x)
    (haccepts : ∀ n : Numeral, n.Denotes → n.text = w → accepts n) :
    NumberToken accepts p.rest x q.rest := by
  have hpart : ∀ b ∈ Bytes.ofString s, Numeral.isPart b = true := hs ▸ h.2.2
  obtain ⟨n, htext, hn⟩ := (FloatText.parse_isSome s hpart).mp (by rw [hx]; rfl)
  rw [hs] at htext
  obtain ⟨d, b, rfl⟩ := List.exists_cons_of_ne_nil hne
  have hd : d = c := by
    have hrest := h.1
    rw [Parser.peek, hrest] at hpeek
    exact Option.some.inj hpeek
  refine ⟨n, s, hn, Numeral.leads_of_head htext (hd ▸ hc), haccepts n hn htext, ?_, ?_, hx⟩
  · rw [htext, h.1]
  · rw [hs, htext]

theorem Parser.exact : (Parser.lexing (ν := ν)).Exact Parser.tokens where
  apart := ⟨NumberToken.apart, Lexing.StringToken.apart⟩
  number_sound := by
    intro p p' x c hpeek hc h
    obtain ⟨w, hw⟩ := exists_spans_numberEnd p
    dsimp only [Parser.lexing] at h
    rw [hw.take] at h
    split at h
    next => cases h
    next hslice =>
      rw [not_or] at hslice
      obtain ⟨y, hy, hp'⟩ := Option.map_eq_some_iff.mp h
      obtain ⟨s, hs, hparse⟩ := Option.bind_eq_some_iff.mp hy
      obtain ⟨rfl, rfl⟩ := Prod.mk.inj hp'
      exact numberToken_of_parse hw hpeek hc hslice.1 (Bytes.toString?_eq_some_iff.mp hs) hparse
        fun _ _ _ => trivial
  number_complete := by
    rintro p x rest ⟨n, s, hn, hleads, -, hp, hs, hx⟩ hstops
    have hrest := numberEnd_rest hp hleads.1 (isPart_of_stops hstops)
    obtain ⟨w, hw⟩ := exists_spans_numberEnd p
    have htext : w = n.text := by
      have hsame := hw.1
      rw [hrest, hp] at hsame
      exact (List.append_cancel_right hsame).symm
    refine ⟨p.numberEnd, hrest, ?_⟩
    dsimp only [Parser.lexing]
    rw [hw.take, htext, if_neg, Bytes.toString?_eq_some_iff.mpr hs, Option.bind_some, hx]
    · rfl
    · -- a minus alone is no numeral
      obtain ⟨c, b, hhead, -⟩ := hleads.head
      rintro (hnil | hminus)
      · rw [hhead] at hnil
        cases hnil
      · have hlast := (Numeral.getLast?_text hn).mp (by rw [hminus]; rfl)
        rw [Numeral.text, Numeral.fracText, hlast.1, Numeral.expText, hlast.2] at hminus
        have hdot : (0x2E : UInt8) ∈ ([0x2D] : Bytes) := by
          rw [← hminus]
          simp
        revert hdot
        decide
  string_sound := Lexing.string_sound
  string_complete := Lexing.string_complete

/-! ## The second reader -/

theorem ValueParser.runEnd_eq (p : ValueParser) : runEnd p = p.skip Numeral.isPart := by
  rw [runEnd]
  split
  next h =>
    have hp := Parser.peek_eq_some_iff.mp h
    have htake : p.rest.takeWhile Numeral.isPart =
        0x2D :: (p.advance 1).rest.takeWhile Numeral.isPart := by
      conv_lhs => rw [hp]
      exact List.takeWhile_cons_of_pos (by decide)
    rw [Parser.skip, advance_advance, Parser.skip, htake, List.length_cons, Nat.add_comm]
  next => rfl

theorem openEnd_eq {b : UInt8} (h : Numeral.isPart b = true) :
    ValueParser.openEnd (Char.ofNat b.toNat) = !Numeral.isDigit b := by
  have hall : ∀ n < 128, Numeral.isPart (UInt8.ofNat n) = true →
      ValueParser.openEnd (Char.ofNat n) = !Numeral.isDigit (UInt8.ofNat n) := by decide
  have hb := hall b.toNat (Numeral.toNat_lt_of_isPart h)
  rw [UInt8.ofNat_toNat] at hb
  exact hb h

theorem openEnd_text {n : Numeral} {s : String} (hn : n.Denotes) (hs : Bytes.ofString s = n.text) :
    s.toList.getLast?.any ValueParser.openEnd = true ↔ n.PointLast := by
  have hpart := n.isPart_of_mem_text
  rw [toList_of_ofString hs fun c hc => Numeral.toNat_lt_of_isPart (hpart c hc),
    ← Numeral.getLast?_text hn, List.getLast?_map]
  cases hlast : n.text.getLast? with
  | none => rfl
  | some c =>
    rw [Option.map_some, Option.any_some, Option.any_some,
      openEnd_eq (hpart c (List.mem_of_getLast? hlast))]

theorem ValueParser.exact : (ValueParser.lexing (ν := ν)).Exact ValueParser.tokens where
  apart := ⟨NumberToken.apart, Lexing.StringToken.apart⟩
  number_sound := by
    intro p p' x c hpeek hc h
    have hw := spans_parts p
    rw [← runEnd_eq] at hw
    have hs := exists_ofString fun c hc => Numeral.toNat_lt_of_isPart (hw.2.2 c hc)
    generalize String.ofList _ = s at hs
    dsimp only [ValueParser.lexing] at h
    rw [hw.take, Bytes.toString?_eq_some_iff.mpr hs, Option.getD_some] at h
    split at h
    next => cases h
    next hopen =>
      rw [not_or] at hopen
      obtain ⟨y, hx, hp'⟩ := Option.map_eq_some_iff.mp h
      obtain ⟨rfl, rfl⟩ := Prod.mk.inj hp'
      refine numberToken_of_parse hw hpeek hc (fun hnil => hopen.1 ?_) hs hx fun n hn htext hlast =>
        hopen.2 ((openEnd_text hn (hs.trans htext.symm)).mpr hlast)
      rw [hnil] at hs
      rw [Bytes.ofString_injective (hs.trans (show [] = Bytes.ofString "" from rfl))]
      rfl
  number_complete := by
    rintro p x rest ⟨n, s, hn, hleads, haccepts, hp, hs, hx⟩ hstops
    have hpart := isPart_of_stops hstops
    have hrest : (runEnd p).rest = rest := by
      rw [runEnd_eq, Parser.skip_rest, hp, List.dropWhile_append_of_pos n.isPart_of_mem_text]
      cases rest with
      | nil => rfl
      | cons c rest =>
        rw [List.dropWhile_cons, hpart c rfl]
        rfl
    have hw := spans_parts p
    rw [← runEnd_eq] at hw
    have htext : p.rest.takeWhile Numeral.isPart = n.text := by
      have hsame := hw.1
      rw [hrest] at hsame
      exact (List.append_cancel_right (hp.symm.trans hsame)).symm
    refine ⟨runEnd p, hrest, ?_⟩
    dsimp only [ValueParser.lexing]
    rw [hw.take, htext, Bytes.toString?_eq_some_iff.mpr hs, Option.getD_some, if_neg, hx]
    · rfl
    · rintro (hempty | hopen)
      · obtain ⟨c, b, hhead, -⟩ := hleads.head
        rw [String.isEmpty_iff.mp hempty, hhead] at hs
        cases hs
      · exact haccepts ((openEnd_text hn hs).mp hopen)
  string_sound := Lexing.string_sound
  string_complete := Lexing.string_complete

end Exact

end CaveHome.Apiserver
