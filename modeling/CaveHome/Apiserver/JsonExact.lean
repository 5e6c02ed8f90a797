import CaveHome.Apiserver.JsonNumbers

/-!
# What the readers accept

Both readers accept exactly the texts of their grammars.  These hold every JSON document whose
surrogates come in pairs, and hold nothing else but documents in which numbers, hexadecimal digits
and, for the reader of request bodies, control characters are written more freely.
-/

namespace JsonText

/-! ## Documents with paired surrogates -/

variable {N S : Type}

mutual

theorem Tree.map_id : ∀ t : Tree N S, t.map id id = t
  | .null => rfl
  | .bool _ => rfl
  | .number _ => rfl
  | .string _ => rfl
  | .array items => congrArg Tree.array (mapItems_id items)
  | .object members => congrArg Tree.object (mapMembers_id members)

theorem mapItems_id : ∀ ts : List (Tree N S), mapItems id id ts = ts
  | [] => rfl
  | t :: ts => by rw [mapItems, Tree.map_id t, mapItems_id ts]

theorem mapMembers_id : ∀ ms : List (S × Tree N S), mapMembers id id ms = ms
  | [] => rfl
  | (key, t) :: ms => by rw [mapMembers, Tree.map_id t, mapMembers_id ms]; rfl

end

theorem IsText.mono {T : Tokens N S} {d d' : Nat} {b : Bytes} {t : Tree N S} (hd : d ≤ d')
    (h : IsText T d b t) : IsText T d' b t := by
  have hmap : IsText T d' b (t.map id id) := h.map ⟨id, id⟩ hd
  rwa [Tree.map_id] at hmap

namespace Rfc8259

/-- The tokens of a document, with their numerals and pieces; surrogates come in pairs. -/
def paired : Tokens Numeral (List Piece) where
  number b n rest := IsNumber n ∧ b = n.text ++ rest
  string b ps rest := IsString Plain Hex4 b ps rest ∧ ∃ cs, Says ps cs

/-- A JSON document whose escapes pair surrogates. -/
def PairedDocument (d : Nat) (s : String) : Prop := ∃ t, IsText paired d (Bytes.ofString s) t

theorem IsNumber.denotes {n : Numeral} (h : IsNumber n) : n.Denotes := by
  obtain ⟨-, hint, -, hexp⟩ := h
  refine ⟨.inl ?_, hexp⟩
  rcases hint with hint | ⟨d, ds, hint, -⟩
  · rw [hint]
    exact List.cons_ne_nil _ _
  · rw [hint]
    exact List.cons_ne_nil _ _

theorem IsNumber.leads {n : Numeral} (h : IsNumber n) : n.Leads :=
  ⟨h.1, fun _ hnil => by
    rcases h.2.1 with hint | ⟨d, ds, hint, -⟩
    · rw [hint] at hnil
      cases hnil
    · rw [hint] at hnil
      cases hnil⟩

end Rfc8259

end JsonText

namespace CaveHome.Apiserver

open JsonText

variable {ν : Type}

/-! ## The readers as predicates on texts -/

theorem toOption_eq_some_iff {ε α : Type} {x : Except ε α} {a : α} :
    x.toOption = some a ↔ x = .ok a := by
  cases x with
  | error e => exact iff_of_false (by rintro ⟨⟩) (by rintro ⟨⟩)
  | ok b => exact ⟨fun h => congrArg Except.ok (Option.some.inj h), fun h => by rw [h]; rfl⟩

theorem Parser.parse_toOption [Float64 ν] {input : String} {d : Nat}
    (hd : 2 * (Bytes.ofString input).length + 2 ≤ d) :
    (Parser.parse (ν := ν) input).toOption = Parser.lexing.text d input := by
  rw [Parser.parse, Lexing.text, toOption_bind, (Parser.parseValue_toOption _).1 d _ hd]
  refine Option.bind_congr fun (v, p) _ => ?_
  dsimp only
  by_cases hrest : p.skipWs.rest = []
  · rw [if_pos hrest, if_neg (not_not_intro hrest)]
    rfl
  · rw [if_neg hrest, if_pos hrest]
    rfl

theorem Value.parse_toOption [Float64 ν] (input : String) :
    (Value.parse (ν := ν) input).toOption =
      ValueParser.lexing.text ValueParser.maxDepth input := by
  rw [Value.parse, Lexing.text, toOption_bind, (ValueParser.parseValue_toOption _).1 0 _]
  refine Option.bind_congr fun (v, p) _ => ?_
  dsimp only
  by_cases hrest : p.skipWs.rest = []
  · rw [if_pos hrest, if_neg (not_not_intro hrest)]
    rfl
  · rw [if_neg hrest, if_pos hrest]
    rfl

section Exact

variable [FloatText ν] {s : String} {v : Value ν}

theorem Parser.parse_eq_ok_iff : Parser.parse s = .ok v ↔
    ∃ d t, IsText Parser.tokens d (Bytes.ofString s) t ∧ v = Value.ofTree t := by
  constructor
  · intro h
    rw [← toOption_eq_some_iff, Parser.parse_toOption le_rfl] at h
    exact ⟨_, (Lexing.text_eq_some_iff Parser.exact).mp h⟩
  · rintro ⟨d, t, ht, hv⟩
    rw [← toOption_eq_some_iff, Parser.parse_toOption (le_max_left _ d)]
    exact (Lexing.text_eq_some_iff Parser.exact).mpr ⟨t, ht.mono (le_max_right _ d), hv⟩

theorem Value.parse_eq_ok_iff : Value.parse s = .ok v ↔
    ∃ t, IsText ValueParser.tokens ValueParser.maxDepth (Bytes.ofString s) t ∧
      v = Value.ofTree t := by
  rw [← toOption_eq_some_iff, Value.parse_toOption]
  exact Lexing.text_eq_some_iff ValueParser.exact

/-! ## Between strict and loose documents -/

theorem stands_iff {c : Char} : (ValueParser.lexing (ν := ν)).Stands c ↔ Rfc8259.Plain c := by
  have hplain : ∀ b, (ValueParser.lexing (ν := ν)).plain b = true ↔ 0x20 ≤ b := fun b =>
    decide_eq_true_iff
  rw [Rfc8259.Plain]
  rcases Nat.lt_or_ge c.toNat 128 with hascii | hother
  · rw [Lexing.Stands, Bytes.encode_ascii hascii]
    have hbyte : (0x20 : UInt8) ≤ UInt8.ofNat c.toNat ↔ 0x20 ≤ c.toNat := by
      rw [UInt8.le_iff_toNat_le, UInt8.toNat_ofNat_of_lt' (hascii.trans (by decide))]
      rfl
    rw [← hbyte, ← hplain]
    exact ⟨fun h => h _ rfl, by rintro h _ ⟨⟩; exact h⟩
  · refine iff_of_true (fun b hb => (hplain b).mpr ?_) (by omega)
    have hle := Bytes.le_of_mem_encode hother b (List.mem_of_mem_head? hb)
    exact UInt8.le_trans (by decide) hle

theorem stands (c : Char) : (Parser.lexing (ν := ν)).Stands c := fun _ _ => rfl

theorem toNat_lt_of_hexDigit {b : UInt8} {n : Nat} (h : Rfc8259.hexDigit b = some n) :
    b.toNat < 128 := by
  have hle : ∀ c : UInt8, c.toNat < 128 → b ≤ c → b.toNat < 128 := fun c hc hb =>
    (UInt8.le_iff_toNat_le.mp hb).trans_lt hc
  rw [Rfc8259.hexDigit] at h
  split_ifs at h with h₁ h₂ h₃
  · exact hle _ (by decide) h₁.2
  · exact hle _ (by decide) h₂.2
  · exact hle _ (by decide) h₃.2

theorem hex_of_hex4 {ds : Bytes} {n : Nat} (h : Rfc8259.Hex4 ds n) : Lexing.Hex ds n := by
  obtain ⟨d₁, d₂, d₃, d₄, n₁, n₂, n₃, n₄, rfl, h₁, h₂, h₃, h₄, rfl⟩ := h
  refine ⟨rfl, ?_, ?_⟩
  · have hascii : ∀ c ∈ [d₁, d₂, d₃, d₄], c.toNat < 128 := by
      simp [toNat_lt_of_hexDigit h₁, toNat_lt_of_hexDigit h₂, toNat_lt_of_hexDigit h₃,
        toNat_lt_of_hexDigit h₄]
    rw [Bytes.toString?_eq_some_iff.mpr (exists_ofString hascii)]
    rfl
  · have hplus : d₁ ≠ 0x2B := by
      rintro rfl
      have hnone : Rfc8259.hexDigit 0x2B = none := by decide
      rw [hnone] at h₁
      cases h₁
    have hfour : Parser.fromStrRadix16 [d₁, d₂, d₃, d₄] =
        Parser.hexDigits [d₁, d₂, d₃, d₄] 0 := by
      rw [Parser.fromStrRadix16]
      · rintro ⟨⟩
      · intro h
        exact hplus (List.cons.inj h).1
      · intro bs h
        exact hplus (List.cons.inj h).1
    change Parser.hexDigit d₁ = _ at h₁
    change Parser.hexDigit d₂ = _ at h₂
    change Parser.hexDigit d₃ = _ at h₃
    change Parser.hexDigit d₄ = _ at h₄
    rw [hfour]
    simp [Parser.hexDigits, h₁, h₂, h₃, h₄]

theorem tokens_maps :
    (ValueParser.tokens (ν := ν)).Maps Parser.tokens id id where
  number := by
    rintro b x rest ⟨n, s, hn, hleads, -, h⟩
    exact ⟨n, s, hn, hleads, trivial, h⟩
  string := by
    rintro b s rest ⟨ps, ⟨b', hb, hps⟩, hsaid⟩
    exact ⟨ps, ⟨b', hb, hps.mono (fun c _ => stands c) fun _ _ h => h⟩, hsaid⟩

/-- The numeral as a double, if it denotes one. -/
def doubleOf (n : Numeral) : ν :=
  (Float64.parse (String.ofList (n.text.map fun c => Char.ofNat c.toNat))).getD (Float64.ofI64 0)

open Classical in
/-- The characters of the pieces, if their surrogates come in pairs. -/
noncomputable def stringOf (ps : List Piece) : String :=
  if h : ∃ cs, Says ps cs then String.ofList h.choose else ""

theorem paired_maps :
    Rfc8259.paired.Maps (ValueParser.tokens (ν := ν)) doubleOf stringOf where
  number := by
    rintro b n rest ⟨hn, hb⟩
    have hpart := n.isPart_of_mem_text
    have hs := exists_ofString fun c hc => Numeral.toNat_lt_of_isPart (hpart c hc)
    have hsome := (FloatText.parse_isSome (ν := ν) _ (hs.symm ▸ hpart)).mpr ⟨n, hs.symm, hn.denotes⟩
    obtain ⟨x, hx⟩ := Option.isSome_iff_exists.mp hsome
    refine ⟨n, _, hn.denotes, hn.leads, fun hlast => hn.2.2.1 hlast.1, hb, hs, ?_⟩
    rw [doubleOf, hx, Option.getD_some]
  string := by
    rintro b ps rest ⟨⟨b', hb, hps⟩, hsaid⟩
    refine ⟨ps, ⟨b', hb, hps.mono (fun c => stands_iff.mpr) fun _ _ => hex_of_hex4⟩, ?_⟩
    rw [stringOf, dif_pos hsaid, String.toList_ofList]
    exact hsaid.choose_spec

/-- Numbers with needless zeros and with a point at either end, strings with the characters that
may stand for themselves, and code units as the readers read them. -/
def looseTokens (plain : Char → Prop) : Tokens Unit Unit where
  number b _ rest := ∃ n : Numeral, n.Denotes ∧ n.Leads ∧ b = n.text ++ rest
  string b _ rest := ∃ ps cs, IsString plain Lexing.Hex b ps rest ∧ Says ps cs

/-- A document whose numbers and hexadecimal digits, and the characters in whose strings, are
written more freely. -/
def LooseDocument (plain : Char → Prop) (d : Nat) (s : String) : Prop :=
  ∃ t, IsText (looseTokens plain) d (Bytes.ofString s) t

theorem numberToken_loose {accepts : Numeral → Prop} {b rest : Bytes} {x : ν}
    (h : NumberToken accepts b x rest) (plain : Char → Prop) :
    (looseTokens plain).number b () rest := by
  obtain ⟨n, s, hn, hleads, -, hb, -⟩ := h
  exact ⟨n, hn, hleads, hb⟩

/-- Every JSON document whose nesting is within the limit and whose surrogates come in pairs is
accepted by the second reader; whatever that accepts is such a document, but for the way numbers and
code units are written, and is accepted with the same value by the reader of request bodies; and
whatever that one accepts is a document, but for these and for control characters in strings. -/
theorem json_grammar (s : String) :
    (Rfc8259.PairedDocument ValueParser.maxDepth s → ∃ v : Value ν, Value.parse s = .ok v) ∧
    (∀ v : Value ν, Value.parse s = .ok v →
      LooseDocument Rfc8259.Plain ValueParser.maxDepth s ∧ Parser.parse s = .ok v) ∧
    ∀ v : Value ν, Parser.parse s = .ok v → ∃ d, LooseDocument (fun _ => True) d s := by
  refine ⟨?_, fun v h => ?_, fun v h => ?_⟩
  · rintro ⟨t, ht⟩
    exact ⟨_, Value.parse_eq_ok_iff.mpr ⟨_, ht.map paired_maps le_rfl, rfl⟩⟩
  · obtain ⟨t, ht, rfl⟩ := Value.parse_eq_ok_iff.mp h
    constructor
    · refine ⟨_, ht.map (f := fun _ => ()) (g := fun _ => ()) ⟨?_, ?_⟩ le_rfl⟩
      · exact fun hx => numberToken_loose hx _
      · rintro b s rest ⟨ps, ⟨b', hb, hps⟩, hsaid⟩
        exact ⟨ps, _, ⟨b', hb, hps.mono (fun c => stands_iff.mp) fun _ _ h => h⟩, hsaid⟩
    · have hsame := ht.map tokens_maps le_rfl
      rw [Tree.map_id] at hsame
      exact Parser.parse_eq_ok_iff.mpr ⟨_, t, hsame, rfl⟩
  · obtain ⟨d, t, ht, rfl⟩ := Parser.parse_eq_ok_iff.mp h
    refine ⟨d, _, ht.map (f := fun _ => ()) (g := fun _ => ()) ⟨?_, ?_⟩ le_rfl⟩
    · exact fun hx => numberToken_loose hx _
    · rintro b s rest ⟨ps, ⟨b', hb, hps⟩, hsaid⟩
      exact ⟨ps, _, ⟨b', hb, hps.mono (fun _ _ => trivial) fun _ _ h => h⟩, hsaid⟩

/-- A surrogate alone is a string of the grammar, and the reader takes it for a mistake. -/
theorem lone_surrogate :
    Rfc8259.Document 0 "\"\\ud800\"" ∧
      Value.parse (ν := Int) "\"\\ud800\"" = .error .invalidEscape := by
  refine ⟨⟨.string (), _, _, .none _, .string ⟨[.unit 0xD800], _, rfl, ?_⟩, .none _⟩, rfl⟩
  have hunit : Rfc8259.Hex4 [0x64, 0x38, 0x30, 0x30] 0xD800 :=
    ⟨_, _, _, _, 13, 8, 0, 0, rfl, by decide, by decide, by decide, by decide, by decide⟩
  exact .unit hunit (.close _)

end Exact

end CaveHome.Apiserver
