import CaveHome.Apiserver.JsonReader

/-!
# The grammar of the readers

The one reader accepts the texts of the grammar over its tokens and gives what the derivation says.
-/

namespace CaveHome.Apiserver

open JsonText

variable {ν : Type}

mutual

def Value.ofTree : Tree ν String → Value ν
  | .null => .null
  | .bool b => .bool b
  | .number n => .number n
  | .string s => .string s
  | .array items => .array (Value.ofItems items)
  | .object members => .object (Value.insertAll members [])

def Value.ofItems : List (Tree ν String) → List (Value ν)
  | [] => []
  | t :: ts => Value.ofTree t :: Value.ofItems ts

/-- The members are put in one after the other. -/
def Value.insertAll :
    List (String × Tree ν String) → BTreeMap String (Value ν) → BTreeMap String (Value ν)
  | [], map => map
  | (key, t) :: ms, map => Value.insertAll ms (BTreeMap.insert key (Value.ofTree t) map)

end

/-! ## The view of the input -/

namespace Parser

theorem advance_rest (p : Parser) (n : Nat) : (p.advance n).rest = p.rest.drop n := rfl

theorem advance_cons {p : Parser} {c : UInt8} {b : Bytes} (h : p.rest = c :: b) :
    (p.advance 1).rest = b := by
  rw [advance_rest, h, List.drop_one, List.tail_cons]

theorem skip_rest (p : Parser) (test : UInt8 → Bool) :
    (p.skip test).rest = p.rest.dropWhile test := by
  rw [skip, advance_rest]
  induction p.rest with
  | nil => rfl
  | cons b bs ih =>
    rw [List.takeWhile_cons, List.dropWhile_cons]
    split
    · exact ih
    · rfl

theorem skipWs_rest (p : Parser) : p.skipWs.rest = p.rest.dropWhile isBlank := p.skip_rest _

theorem blanks_skipWs (p : Parser) : Blanks p.rest p.skipWs.rest := by
  rw [skipWs_rest]
  exact blanks_dropWhile p.rest

theorem skipWs_of_blanks {p : Parser} {rest : Bytes} (h : Blanks p.rest rest)
    (hrest : ∀ c ∈ rest.head?, isBlank c = false) : p.skipWs.rest = rest := by
  rw [skipWs_rest, dropWhile_blanks h hrest]

theorem peek_eq_some_iff {p : Parser} {b : UInt8} :
    p.peek = some b ↔ p.rest = b :: (p.advance 1).rest := by
  rw [peek, advance_rest]
  cases p.rest with
  | nil => simp
  | cons c bs => simp

theorem skipWs_peek {p : Parser} {c : UInt8} {rest : Bytes} (h : Blanks p.rest (c :: rest))
    (hc : isBlank c = false) : p.skipWs.peek = some c ∧ (p.skipWs.advance 1).rest = rest := by
  have hskip := skipWs_of_blanks h (by rintro _ ⟨⟩; exact hc)
  rw [peek, advance_rest, hskip]
  exact ⟨rfl, rfl⟩

end Parser

/-- The reader takes from the front of a text exactly the tokens `T`, where what follows a number
may follow a number. -/
structure Lexing.Exact (L : Lexing ν) (T : Tokens ν String) : Prop where
  apart : T.Apart
  number_sound : ∀ {p p' x b}, p.peek = some b → b = 0x2D ∨ Parser.isDigit b = true →
    L.number p = some (x, p') → T.number p.rest x p'.rest
  number_complete : ∀ {p x rest}, T.number p.rest x rest → Stops rest →
    ∃ p', p'.rest = rest ∧ L.number p = some (x, p')
  string_sound : ∀ {p p' s}, p.peek = some 0x22 → L.string p = some (s, p') →
    T.string p.rest s p'.rest
  string_complete : ∀ {p s rest}, T.string p.rest s rest →
    ∃ p', p'.rest = rest ∧ L.string p = some (s, p')

namespace Lexing

theorem lit_eq_some_iff {p p' : Parser} {text : String} {v w : Value ν} :
    lit p text v = some (w, p') ↔
      p.rest = Bytes.ofString text ++ p'.rest ∧ w = v ∧
        p' = p.advance (Bytes.ofString text).length := by
  unfold lit
  split
  next h =>
    obtain ⟨rest, hrest⟩ := List.isPrefixOf_iff_prefix.mp h
    rw [Option.some.injEq, Prod.mk.injEq]
    constructor
    · rintro ⟨rfl, rfl⟩
      refine ⟨?_, rfl, rfl⟩
      rw [Parser.advance_rest, ← hrest, List.drop_left]
    · rintro ⟨-, rfl, rfl⟩
      exact ⟨rfl, rfl⟩
  next h =>
    refine iff_of_false (by simp) fun ⟨hrest, _⟩ => h ?_
    rw [List.isPrefixOf_iff_prefix, hrest]
    exact List.prefix_append _ _

/-! ## What is accepted derives -/

section Sound

variable {L : Lexing ν} {T : Tokens ν String} (hL : L.Exact T) {fuel : Nat}
include hL

theorem value_sound
    (ihItems : ∀ {d vs p v p'}, L.items fuel d vs p = some (v, p') →
      ∃ ts, IsItems T d p.rest ts p'.rest ∧ v = .array (vs ++ Value.ofItems ts))
    (ihMembers : ∀ {d map p v p'}, L.members fuel d map p = some (v, p') →
      ∃ ms, IsMembers T d p.rest ms p'.rest ∧ v = .object (Value.insertAll ms map))
    {d : Nat} {p : Parser} {v : Value ν} {p' : Parser}
    (h : L.value (fuel + 1) d p = some (v, p')) :
    ∃ t, IsValue T d p.rest t p'.rest ∧ v = Value.ofTree t := by
  rw [value] at h
  cases hpeek : p.peek with
  | none => rw [hpeek] at h; cases h
  | some b =>
    have hrest := Parser.peek_eq_some_iff.mp hpeek
    rw [hpeek] at h
    dsimp only at h
    split at h
    next hbrace =>
      subst hbrace
      cases d with
      | zero => cases h
      | succ d =>
        rw [if_neg (Nat.succ_ne_zero d)] at h
        split at h
        next hclose =>
          obtain ⟨rfl, rfl⟩ := Prod.mk.inj (Option.some.inj h)
          refine ⟨.object [], hrest ▸ .emptyObject ?_, rfl⟩
          rw [← Parser.peek_eq_some_iff.mp hclose]
          exact Parser.blanks_skipWs _
        next =>
          obtain ⟨ms, hms, rfl⟩ := ihMembers h
          exact ⟨.object ms, hrest ▸ .object (hms.before (Parser.blanks_skipWs _)), rfl⟩
    next =>
    split at h
    next hbracket =>
      subst hbracket
      cases d with
      | zero => cases h
      | succ d =>
        rw [if_neg (Nat.succ_ne_zero d)] at h
        split at h
        next hclose =>
          obtain ⟨rfl, rfl⟩ := Prod.mk.inj (Option.some.inj h)
          refine ⟨.array [], hrest ▸ .emptyArray ?_, rfl⟩
          rw [← Parser.peek_eq_some_iff.mp hclose]
          exact Parser.blanks_skipWs _
        next =>
          obtain ⟨ts, hts, rfl⟩ := ihItems h
          exact ⟨.array ts, hrest ▸ .array (hts.before (Parser.blanks_skipWs _)), rfl⟩
    next =>
    split at h
    next hquote =>
      obtain ⟨⟨s, q⟩, hs, hv⟩ := Option.map_eq_some_iff.mp h
      obtain ⟨rfl, rfl⟩ := Prod.mk.inj hv
      exact ⟨.string s, .string (hL.string_sound (hquote ▸ hpeek) hs), rfl⟩
    next =>
    split at h
    next =>
      obtain ⟨htext, rfl, -⟩ := lit_eq_some_iff.mp h
      exact ⟨.bool true, htext ▸ .true p'.rest, rfl⟩
    next =>
    split at h
    next =>
      obtain ⟨htext, rfl, -⟩ := lit_eq_some_iff.mp h
      exact ⟨.bool false, htext ▸ .false p'.rest, rfl⟩
    next =>
    split at h
    next =>
      obtain ⟨htext, rfl, -⟩ := lit_eq_some_iff.mp h
      exact ⟨.null, htext ▸ .null p'.rest, rfl⟩
    next =>
    split at h
    next hdigit =>
      obtain ⟨⟨n, q⟩, hn, hv⟩ := Option.map_eq_some_iff.mp h
      obtain ⟨rfl, rfl⟩ := Prod.mk.inj hv
      exact ⟨.number n, .number (hL.number_sound hpeek hdigit hn), rfl⟩
    next => cases h

omit hL

variable
  (ih : ∀ {d p v p'}, L.value fuel d p = some (v, p') →
    ∃ t, IsValue T d p.rest t p'.rest ∧ v = Value.ofTree t)
include ih

theorem items_sound
    (ihItems : ∀ {d vs p v p'}, L.items fuel d vs p = some (v, p') →
      ∃ ts, IsItems T d p.rest ts p'.rest ∧ v = .array (vs ++ Value.ofItems ts))
    {d : Nat} {vs : List (Value ν)} {p : Parser} {v : Value ν} {p' : Parser}
    (h : L.items (fuel + 1) d vs p = some (v, p')) :
    ∃ ts, IsItems T d p.rest ts p'.rest ∧ v = .array (vs ++ Value.ofItems ts) := by
  rw [items] at h
  obtain ⟨⟨w, q⟩, hvalue, h⟩ := Option.bind_eq_some_iff.mp h
  obtain ⟨t, ht, rfl⟩ := ih hvalue
  dsimp only at h
  split at h
  next hcomma =>
    obtain ⟨ts, hts, rfl⟩ := ihItems h
    have hafter : Blanks q.rest (0x2C :: (q.skipWs.advance 1).rest) := by
      rw [← Parser.peek_eq_some_iff.mp hcomma]
      exact q.blanks_skipWs
    refine ⟨t :: ts, .more p.blanks_skipWs ht hafter hts, ?_⟩
    rw [Value.ofItems, List.append_assoc, List.singleton_append]
  next =>
    split at h
    next hclose =>
      obtain ⟨rfl, rfl⟩ := Prod.mk.inj (Option.some.inj h)
      refine ⟨[t], .last p.blanks_skipWs ht ?_, rfl⟩
      rw [← Parser.peek_eq_some_iff.mp hclose]
      exact q.blanks_skipWs
    next => cases h

include hL

theorem members_sound
    (ihMembers : ∀ {d map p v p'}, L.members fuel d map p = some (v, p') →
      ∃ ms, IsMembers T d p.rest ms p'.rest ∧ v = .object (Value.insertAll ms map))
    {d : Nat} {map : BTreeMap String (Value ν)} {p : Parser} {v : Value ν} {p' : Parser}
    (h : L.members (fuel + 1) d map p = some (v, p')) :
    ∃ ms, IsMembers T d p.rest ms p'.rest ∧ v = .object (Value.insertAll ms map) := by
  rw [members] at h
  split at h
  next => cases h
  next hquote =>
    obtain ⟨⟨key, q⟩, hkey, h⟩ := Option.bind_eq_some_iff.mp h
    have hstring := hL.string_sound (not_not.mp hquote) hkey
    dsimp only at h
    split at h
    next => cases h
    next hcolon =>
      obtain ⟨⟨w, r⟩, hvalue, h⟩ := Option.bind_eq_some_iff.mp h
      obtain ⟨t, ht, rfl⟩ := ih hvalue
      have hcolon' : Blanks q.rest (0x3A :: (q.skipWs.advance 1).rest) := by
        rw [← Parser.peek_eq_some_iff.mp (not_not.mp hcolon)]
        exact q.blanks_skipWs
      dsimp only at h
      split at h
      next hcomma =>
        obtain ⟨ms, hms, rfl⟩ := ihMembers h
        have hafter : Blanks r.rest (0x2C :: (r.skipWs.advance 1).rest) := by
          rw [← Parser.peek_eq_some_iff.mp hcomma]
          exact r.blanks_skipWs
        exact ⟨(key, t) :: ms, .more p.blanks_skipWs hstring hcolon' (Parser.blanks_skipWs _) ht
          hafter hms, rfl⟩
      next =>
        split at h
        next hclose =>
          obtain ⟨rfl, rfl⟩ := Prod.mk.inj (Option.some.inj h)
          refine ⟨[(key, t)], .last p.blanks_skipWs hstring hcolon' (Parser.blanks_skipWs _) ht ?_,
            rfl⟩
          rw [← Parser.peek_eq_some_iff.mp hclose]
          exact r.blanks_skipWs
        next => cases h

end Sound

variable {L : Lexing ν} {T : Tokens ν String}

theorem sound (hL : L.Exact T) (fuel : Nat) :
    (∀ {d p v p'}, L.value fuel d p = some (v, p') →
      ∃ t, IsValue T d p.rest t p'.rest ∧ v = Value.ofTree t) ∧
    (∀ {d vs p v p'}, L.items fuel d vs p = some (v, p') →
      ∃ ts, IsItems T d p.rest ts p'.rest ∧ v = .array (vs ++ Value.ofItems ts)) ∧
    ∀ {d map p v p'}, L.members fuel d map p = some (v, p') →
      ∃ ms, IsMembers T d p.rest ms p'.rest ∧ v = .object (Value.insertAll ms map) := by
  induction fuel with
  | zero => exact ⟨nofun, nofun, nofun⟩
  | succ fuel ih =>
    obtain ⟨ih, ihItems, ihMembers⟩ := ih
    exact ⟨value_sound hL ihItems ihMembers, items_sound ih ihItems, members_sound hL ih ihMembers⟩

/-! ## What derives is accepted -/

theorem lit_complete {p : Parser} {text : String} {rest : Bytes}
    (h : p.rest = Bytes.ofString text ++ rest) (v : Value ν) :
    ∃ p', p'.rest = rest ∧ lit p text v = some (v, p') := by
  have hrest : (p.advance (Bytes.ofString text).length).rest = rest := by
    rw [Parser.advance_rest, h, List.drop_left]
  exact ⟨_, hrest, lit_eq_some_iff.mpr ⟨hrest.symm ▸ h, rfl, rfl⟩⟩

theorem ne_of_numeric {c k : UInt8} (hc : c = 0x2D ∨ (0x30 ≤ c ∧ c ≤ 0x39))
    (hk : k ≠ 0x2D ∧ (k < 0x30 ∨ 0x39 < k)) : c ≠ k := by
  rintro rfl
  obtain ⟨hdash, hlow | hhigh⟩ := hk
  · exact (hc.resolve_left hdash).1.not_gt hlow
  · exact (hc.resolve_left hdash).2.not_gt hhigh

theorem value_head (hT : T.Apart) {d : Nat} {b rest : Bytes} {t : Tree ν String}
    (h : IsValue T d b t rest) : ∀ c ∈ b.head?, isBlank c = false ∧ c ≠ 0x5D := by
  cases h with
  | null | false | true | emptyArray | array | emptyObject | object =>
    rintro _ ⟨⟩
    decide
  | number h =>
    obtain ⟨c, b, rfl, hc, -⟩ := hT.number h
    rintro _ ⟨⟩
    have hblank : isBlank c = false := by
      simp only [isBlank, Bool.or_eq_false_iff, beq_eq_false_iff_ne]
      refine ⟨⟨⟨?_, ?_⟩, ?_⟩, ?_⟩ <;> exact ne_of_numeric hc (by decide)
    exact ⟨hblank, ne_of_numeric hc (by decide)⟩
  | string h =>
    obtain ⟨b, rfl, -⟩ := hT.string h
    rintro _ ⟨⟩
    decide

theorem items_skip (hT : T.Apart) {d : Nat} {p : Parser} {ts : List (Tree ν String)}
    {rest : Bytes} (h : IsItems T d p.rest ts rest) :
    IsItems T d p.skipWs.rest ts rest ∧ p.skipWs.peek ≠ some 0x5D := by
  cases h with
  | last before hvalue after =>
    have hhead := value_head hT hvalue
    have hskip := Parser.skipWs_of_blanks before fun c hc => (hhead c hc).1
    refine ⟨hskip ▸ .last (.none _) hvalue after, ?_⟩
    rw [Parser.peek, hskip]
    exact fun hc => (hhead _ hc).2 rfl
  | more before hvalue after hrest =>
    have hhead := value_head hT hvalue
    have hskip := Parser.skipWs_of_blanks before fun c hc => (hhead c hc).1
    refine ⟨hskip ▸ .more (.none _) hvalue after hrest, ?_⟩
    rw [Parser.peek, hskip]
    exact fun hc => (hhead _ hc).2 rfl

theorem members_skip (hT : T.Apart) {d : Nat} {p : Parser} {ms : List (String × Tree ν String)}
    {rest : Bytes} (h : IsMembers T d p.rest ms rest) :
    IsMembers T d p.skipWs.rest ms rest ∧ p.skipWs.peek = some 0x22 := by
  cases h with
  | last before hkey colon between hvalue after =>
    obtain ⟨b, rfl, -⟩ := hT.string hkey
    have hskip := Parser.skipWs_of_blanks before (by rintro _ ⟨⟩; rfl)
    exact ⟨hskip ▸ .last (.none _) hkey colon between hvalue after, congrArg List.head? hskip⟩
  | more before hkey colon between hvalue after hrest =>
    obtain ⟨b, rfl, -⟩ := hT.string hkey
    have hskip := Parser.skipWs_of_blanks before (by rintro _ ⟨⟩; rfl)
    exact ⟨hskip ▸ .more (.none _) hkey colon between hvalue after hrest,
      congrArg List.head? hskip⟩

section Complete

variable (hL : L.Exact T) {fuel : Nat}
include hL

theorem value_complete
    (ihItems : ∀ {d p ts b rest} (vs : List (Value ν)), p.rest = b →
      2 * b.length < fuel + 2 * rest.length → IsItems T d b ts rest →
      ∃ p', p'.rest = rest ∧ L.items fuel d vs p = some (.array (vs ++ Value.ofItems ts), p'))
    (ihMembers : ∀ {d p ms b rest} map, p.rest = b → 2 * b.length < fuel + 2 * rest.length →
      IsMembers T d b ms rest →
      ∃ p', p'.rest = rest ∧ L.members fuel d map p = some (.object (Value.insertAll ms map), p'))
    {d : Nat} {p : Parser} {b rest : Bytes} {t : Tree ν String} (hp : p.rest = b)
    (hfuel : 2 * b.length ≤ fuel + 1 + 2 * rest.length) (h : IsValue T d b t rest)
    (hrest : Stops rest) :
    ∃ p', p'.rest = rest ∧ L.value (fuel + 1) d p = some (Value.ofTree t, p') := by
  have hpeek : p.peek = b.head? := congrArg List.head? hp
  rw [value, hpeek]
  cases h with
  | null => exact lit_complete hp .null
  | false => exact lit_complete hp (.bool false)
  | true => exact lit_complete hp (.bool true)
  | number h =>
    obtain ⟨p', hp', hn⟩ := hL.number_complete (hp.symm ▸ h) hrest
    obtain ⟨c, b, rfl, hc, -⟩ := hL.apart.number h
    have hdigit : c = 0x2D ∨ Parser.isDigit c = true := by
      simpa only [Parser.isDigit, Bool.and_eq_true, decide_eq_true_eq] using hc
    refine ⟨p', hp', ?_⟩
    rw [List.head?_cons]
    dsimp only
    rw [if_neg (ne_of_numeric hc (by decide)), if_neg (ne_of_numeric hc (by decide)),
      if_neg (ne_of_numeric hc (by decide)), if_neg (ne_of_numeric hc (by decide)),
      if_neg (ne_of_numeric hc (by decide)), if_neg (ne_of_numeric hc (by decide)),
      if_pos hdigit, hn]
    rfl
  | string h =>
    obtain ⟨p', hp', hs⟩ := hL.string_complete (hp.symm ▸ h)
    obtain ⟨b, rfl, -⟩ := hL.apart.string h
    exact ⟨p', hp', congrArg (Option.map _) hs⟩
  | emptyArray h =>
    have hopen := Parser.advance_cons hp
    rw [← hopen] at h
    obtain ⟨hclose, hafter⟩ := Parser.skipWs_peek h rfl
    exact ⟨_, hafter, if_pos hclose⟩
  | array h =>
    have hopen := Parser.advance_cons hp
    rw [← hopen] at h
    obtain ⟨hitems, hclose⟩ := items_skip hL.apart h
    have hlen := (p.advance 1).blanks_skipWs.length_le
    rw [hopen] at hlen
    rw [List.length_cons] at hfuel
    obtain ⟨p', hp', hread⟩ := ihItems [] rfl (by omega) hitems
    exact ⟨p', hp', (if_neg hclose).trans hread⟩
  | emptyObject h =>
    have hopen := Parser.advance_cons hp
    rw [← hopen] at h
    obtain ⟨hclose, hafter⟩ := Parser.skipWs_peek h rfl
    exact ⟨_, hafter, if_pos hclose⟩
  | object h =>
    have hopen := Parser.advance_cons hp
    rw [← hopen] at h
    obtain ⟨hmembers, hquote⟩ := members_skip hL.apart h
    have hlen := (p.advance 1).blanks_skipWs.length_le
    rw [hopen] at hlen
    rw [List.length_cons] at hfuel
    obtain ⟨p', hp', hread⟩ := ihMembers [] rfl (by omega) hmembers
    have hclose : (p.advance 1).skipWs.peek ≠ some 0x7D := by
      rw [hquote]
      decide
    exact ⟨p', hp', (if_neg hclose).trans hread⟩

variable
  (ih : ∀ {d p t b rest}, p.rest = b → 2 * b.length ≤ fuel + 2 * rest.length →
    IsValue T d b t rest → Stops rest →
    ∃ p', p'.rest = rest ∧ L.value fuel d p = some (Value.ofTree t, p'))
include ih

theorem items_complete
    (ihItems : ∀ {d p ts b rest} (vs : List (Value ν)), p.rest = b →
      2 * b.length < fuel + 2 * rest.length → IsItems T d b ts rest →
      ∃ p', p'.rest = rest ∧ L.items fuel d vs p = some (.array (vs ++ Value.ofItems ts), p'))
    {d : Nat} {p : Parser} {b rest : Bytes} {ts : List (Tree ν String)} (vs : List (Value ν))
    (hp : p.rest = b) (hfuel : 2 * b.length < fuel + 1 + 2 * rest.length)
    (h : IsItems T d b ts rest) :
    ∃ p', p'.rest = rest ∧
      L.items (fuel + 1) d vs p = some (.array (vs ++ Value.ofItems ts), p') := by
  subst hp
  rw [items]
  cases h with
  | last before hvalue after =>
    have hskip := Parser.skipWs_of_blanks before fun c hc => (value_head hL.apart hvalue c hc).1
    have hbefore := before.length_le
    have hafter := after.length_le
    rw [List.length_cons] at hafter
    obtain ⟨q, rfl, hread⟩ := ih hskip (by omega) hvalue (after.stops (stops_cons _ (by decide)))
    obtain ⟨hclose, hrest⟩ := Parser.skipWs_peek after rfl
    refine ⟨q.skipWs.advance 1, hrest, ?_⟩
    rw [hread, Option.bind_some]
    dsimp only
    rw [if_neg (by rw [hclose]; decide), if_pos hclose, Value.ofItems, Value.ofItems]
  | more before hvalue after hrest =>
    have hskip := Parser.skipWs_of_blanks before fun c hc => (value_head hL.apart hvalue c hc).1
    have hbefore := before.length_le
    have hafter := after.length_le
    have hlen := hvalue.length_lt hL.apart
    rw [List.length_cons] at hafter
    have hitems := hrest.length_lt hL.apart
    obtain ⟨q, rfl, hread⟩ := ih hskip (by omega) hvalue (after.stops (stops_cons _ (by decide)))
    obtain ⟨hcomma, hnext⟩ := Parser.skipWs_peek after rfl
    obtain ⟨p', hp', hitems⟩ := ihItems (vs ++ [_]) hnext (by omega) hrest
    refine ⟨p', hp', ?_⟩
    rw [hread, Option.bind_some]
    dsimp only
    rw [if_pos hcomma, hitems, Value.ofItems, List.append_assoc, List.singleton_append]

theorem member_complete {d : Nat} {p : Parser} {b₁ b₂ b₃ b₄ b₅ : Bytes} {key : String}
    {t : Tree ν String} (before : Blanks p.rest b₁) (hkey : T.string b₁ key b₂)
    (colon : Blanks b₂ (0x3A :: b₃)) (between : Blanks b₃ b₄) (h : IsValue T d b₄ t b₅)
    (hstops : Stops b₅) (hfuel : 2 * p.rest.length ≤ fuel + 2 + 2 * b₅.length) :
    ∃ q : Parser, q.rest = b₅ ∧ q.rest.length < p.rest.length ∧ ∀ map,
      L.members (fuel + 1) d map p =
      if q.skipWs.peek = some 0x2C then
        L.members fuel d (BTreeMap.insert key (Value.ofTree t) map) (q.skipWs.advance 1)
      else if q.skipWs.peek = some 0x7D then
        some (.object (BTreeMap.insert key (Value.ofTree t) map), q.skipWs.advance 1)
      else none := by
  obtain ⟨b, rfl, hstring⟩ := hL.apart.string hkey
  have hlen₁ := before.length_le
  have hlen₂ := colon.length_le
  have hlen₃ := between.length_le
  rw [List.length_cons] at hlen₁ hlen₂
  have hquote := Parser.skipWs_of_blanks before (by rintro _ ⟨⟩; rfl)
  obtain ⟨q, rfl, hread⟩ := hL.string_complete (hquote.symm ▸ hkey)
  obtain ⟨hcolon, rfl⟩ := Parser.skipWs_peek colon rfl
  have hskip := Parser.skipWs_of_blanks between fun c hc => (value_head hL.apart h c hc).1
  obtain ⟨r, rfl, hvalue⟩ := ih hskip (by omega) h hstops
  have hlen₄ := h.length_lt hL.apart
  refine ⟨r, rfl, by omega, fun map => ?_⟩
  have hpeek : p.skipWs.peek = some 0x22 := congrArg List.head? hquote
  rw [members, if_neg (not_not_intro hpeek), hread, Option.bind_some]
  dsimp only
  rw [if_neg (not_not_intro hcolon), hvalue, Option.bind_some]

theorem members_complete
    (ihMembers : ∀ {d p ms b rest} map, p.rest = b → 2 * b.length < fuel + 2 * rest.length →
      IsMembers T d b ms rest →
      ∃ p', p'.rest = rest ∧ L.members fuel d map p = some (.object (Value.insertAll ms map), p'))
    {d : Nat} {p : Parser} {b rest : Bytes} {ms : List (String × Tree ν String)}
    (map : BTreeMap String (Value ν)) (hp : p.rest = b)
    (hfuel : 2 * b.length < fuel + 1 + 2 * rest.length) (h : IsMembers T d b ms rest) :
    ∃ p', p'.rest = rest ∧
      L.members (fuel + 1) d map p = some (.object (Value.insertAll ms map), p') := by
  subst hp
  cases h with
  | last before hkey colon between hvalue after =>
    have hafter := after.length_le
    rw [List.length_cons] at hafter
    obtain ⟨q, rfl, hlen, hread⟩ := member_complete hL ih before hkey colon between hvalue
      (after.stops (stops_cons _ (by decide))) (by omega)
    obtain ⟨hclose, hrest⟩ := Parser.skipWs_peek after rfl
    refine ⟨q.skipWs.advance 1, hrest, ?_⟩
    rw [hread, if_neg (by rw [hclose]; decide), if_pos hclose, Value.insertAll, Value.insertAll]
  | more before hkey colon between hvalue after hrest =>
    have hafter := after.length_le
    rw [List.length_cons] at hafter
    have hmembers := hrest.length_lt hL.apart
    obtain ⟨q, rfl, hlen, hread⟩ := member_complete hL ih before hkey colon between hvalue
      (after.stops (stops_cons _ (by decide))) (by omega)
    obtain ⟨hcomma, hnext⟩ := Parser.skipWs_peek after rfl
    obtain ⟨p', hp', hmembers⟩ := ihMembers (BTreeMap.insert _ _ map) hnext (by omega) hrest
    refine ⟨p', hp', ?_⟩
    rw [hread, if_pos hcomma, hmembers, Value.insertAll]

end Complete

theorem complete (hL : L.Exact T) (fuel : Nat) :
    (∀ {d p t b rest}, p.rest = b → 2 * b.length ≤ fuel + 2 * rest.length →
      IsValue T d b t rest → Stops rest →
      ∃ p', p'.rest = rest ∧ L.value fuel d p = some (Value.ofTree t, p')) ∧
    (∀ {d p ts b rest} (vs : List (Value ν)), p.rest = b →
      2 * b.length < fuel + 2 * rest.length → IsItems T d b ts rest →
      ∃ p', p'.rest = rest ∧ L.items fuel d vs p = some (.array (vs ++ Value.ofItems ts), p')) ∧
    ∀ {d p ms b rest} map, p.rest = b → 2 * b.length < fuel + 2 * rest.length →
      IsMembers T d b ms rest →
      ∃ p', p'.rest = rest ∧
        L.members fuel d map p = some (.object (Value.insertAll ms map), p') := by
  induction fuel with
  | zero =>
    refine ⟨fun _ hfuel h _ => ?_, fun _ _ hfuel h => ?_, fun _ _ hfuel h => ?_⟩
    all_goals
      have hlen := h.length_lt hL.apart
      omega
  | succ fuel ih =>
    obtain ⟨ih, ihItems, ihMembers⟩ := ih
    exact ⟨value_complete hL ihItems ihMembers, items_complete hL ih ihItems,
      members_complete hL ih ihMembers⟩

theorem text_eq_some_iff (hL : L.Exact T) {d : Nat} {input : String} {v : Value ν} :
    L.text d input = some v ↔ ∃ t, IsText T d (Bytes.ofString input) t ∧ v = Value.ofTree t := by
  unfold text
  constructor
  · intro h
    obtain ⟨⟨w, p⟩, hvalue, hend⟩ := Option.bind_eq_some_iff.mp h
    dsimp only at hend
    split at hend
    next hrest =>
      obtain rfl := Option.some.inj hend
      obtain ⟨t, ht, rfl⟩ := (sound hL _).1 hvalue
      exact ⟨t, ⟨_, _, Parser.blanks_skipWs (.mk _ 0), ht, hrest ▸ p.blanks_skipWs⟩, rfl⟩
    next => cases hend
  · rintro ⟨t, ⟨b₁, b₂, before, ht, after⟩, rfl⟩
    have hskip := Parser.skipWs_of_blanks (p := .mk (Bytes.ofString input) 0) before
      fun c hc => (value_head hL.apart ht c hc).1
    have hlen := before.length_le
    obtain ⟨p', rfl, hread⟩ := (complete hL (2 * (Bytes.ofString input).length + 2)).1 hskip
      (by omega) ht (after.stops stops_nil)
    have hend := Parser.skipWs_of_blanks after (by rintro _ ⟨⟩)
    dsimp only
    rw [hread, Option.bind_some]
    exact if_pos hend

end Lexing

end CaveHome.Apiserver
