import CaveHome.Apiserver.JsonGrammar
import CaveHome.Lib.AsciiCut

/-!
# The strings of the readers

A reader takes from the front of a text exactly its strings: characters it lets stand for
themselves, escapes, and code units in hexadecimal whose surrogates come in pairs.
-/

namespace CaveHome.Apiserver

open JsonText

variable {ν : Type}

namespace Lexing

/-- The bytes of a character that may stand for itself. -/
def Stands (L : Lexing ν) (c : Char) : Prop :=
  ∀ b ∈ (String.utf8EncodeChar c).head?, L.plain b = true

/-- What the readers take for the four digits of a code unit. -/
def Hex (ds : Bytes) (n : Nat) : Prop :=
  ds.length = 4 ∧ (Bytes.toString? ds).isNone = false ∧ Parser.fromStrRadix16 ds = some n

/-- A string in front of a text. -/
def StringToken (L : Lexing ν) (b : Bytes) (s : String) (rest : Bytes) : Prop :=
  ∃ ps, IsString L.Stands Hex b ps rest ∧ Says ps s.toList

/-! ## Code units -/

theorem hex4_eq_some_iff {p p' : Parser} {n : Nat} :
    hex4 p = some (n, p') ↔ ∃ ds, Hex ds n ∧ p.rest = ds ++ p'.rest ∧ p' = p.advance 4 := by
  unfold hex4 Hex
  constructor
  · intro h
    dsimp only at h
    split at h
    next => cases h
    next hlen =>
    split at h
    next => cases h
    next hutf8 =>
    obtain ⟨m, hm, hp⟩ := Option.map_eq_some_iff.mp h
    obtain ⟨rfl, rfl⟩ := Prod.mk.inj hp
    have htake := List.length_take_le 4 p.rest
    refine ⟨p.rest.take 4, ⟨by omega, Bool.not_eq_true _ ▸ hutf8, hm⟩, ?_, rfl⟩
    rw [Parser.advance_rest, List.take_append_drop]
  · rintro ⟨ds, ⟨hlen, hutf8, hn⟩, hrest, rfl⟩
    have htake : p.rest.take 4 = ds := by rw [hrest, ← hlen, List.take_left]
    dsimp only
    rw [htake, if_neg (by omega), if_neg (by rw [hutf8]; decide), hn]
    rfl

theorem hex4_complete {p : Parser} {ds rest : Bytes} {n : Nat} (hds : Hex ds n)
    (h : p.rest = ds ++ rest) :
    (p.advance 4).rest = rest ∧ hex4 p = some (n, p.advance 4) := by
  have hrest : (p.advance 4).rest = rest := by rw [Parser.advance_rest, h, ← hds.1, List.drop_left]
  exact ⟨hrest, hex4_eq_some_iff.mpr ⟨ds, hds, hrest.symm ▸ h, rfl⟩⟩

theorem fromU32_eq_some_iff {n : Nat} {c : Char} :
    Parser.fromU32 n = some c ↔ n.isValidChar ∧ c = Char.ofNat n := by
  unfold Parser.fromU32
  split
  next h => exact ⟨fun hc => ⟨h, (Option.some.inj hc).symm⟩, fun hc => congrArg some hc.2.symm⟩
  next h => exact iff_of_false nofun fun hc => h hc.1

theorem unicode_sound {p p' : Parser} {c : Char} (h : unicode p = some (c, p')) :
    (∃ ds n, Hex ds n ∧ p.rest = ds ++ p'.rest ∧ ¬ High n ∧ n.isValidChar ∧ c = Char.ofNat n) ∨
    ∃ ds n ds' m, Hex ds n ∧ Hex ds' m ∧ p.rest = ds ++ 0x5C :: 0x75 :: (ds' ++ p'.rest) ∧
      High n ∧ Low m ∧ (pairCode n m).isValidChar ∧ c = Char.ofNat (pairCode n m) := by
  unfold unicode at h
  obtain ⟨⟨n, q⟩, hn, h⟩ := Option.bind_eq_some_iff.mp h
  obtain ⟨ds, hds, hrest, -⟩ := hex4_eq_some_iff.mp hn
  dsimp only at h
  split at h
  next hhigh =>
    split at h
    next hnext =>
      obtain ⟨⟨m, r⟩, hm, h⟩ := Option.bind_eq_some_iff.mp h
      obtain ⟨ds', hds', hrest', -⟩ := hex4_eq_some_iff.mp hm
      dsimp only at h
      split at h
      next hlow =>
        obtain ⟨c', hc, hp⟩ := Option.map_eq_some_iff.mp h
        obtain ⟨rfl, rfl⟩ := Prod.mk.inj hp
        obtain ⟨hvalid, hc⟩ := fromU32_eq_some_iff.mp hc
        refine .inr ⟨ds, n, ds', m, hds, hds', ?_, hhigh, hlow, hvalid, hc⟩
        have hpair : [0x5C, 0x75] ++ (q.advance 2).rest = q.rest := by
          rw [← hnext, Parser.advance_rest, List.take_append_drop]
        rw [hrest, ← hpair, hrest']
        rfl
      next => cases h
    next => cases h
  next hhigh =>
    obtain ⟨c', hc, hp⟩ := Option.map_eq_some_iff.mp h
    obtain ⟨rfl, rfl⟩ := Prod.mk.inj hp
    obtain ⟨hvalid, rfl⟩ := fromU32_eq_some_iff.mp hc
    exact .inl ⟨ds, n, hds, hrest, hhigh, hvalid, rfl⟩

theorem unicode_single {p : Parser} {ds rest : Bytes} {n : Nat} (hds : Hex ds n)
    (h : p.rest = ds ++ rest) (hn : ¬ High n) (hvalid : n.isValidChar) :
    ∃ p', p'.rest = rest ∧ unicode p = some (Char.ofNat n, p') := by
  obtain ⟨hrest, hread⟩ := hex4_complete hds h
  refine ⟨_, hrest, ?_⟩
  unfold unicode
  rw [hread, Option.bind_some]
  dsimp only
  rw [if_neg (show ¬ (0xD800 ≤ n ∧ n ≤ 0xDBFF) from hn), fromU32_eq_some_iff.mpr ⟨hvalid, rfl⟩]
  rfl

theorem unicode_pair {p : Parser} {ds ds' rest : Bytes} {n m : Nat} (hds : Hex ds n)
    (hds' : Hex ds' m) (h : p.rest = ds ++ 0x5C :: 0x75 :: (ds' ++ rest)) (hn : High n)
    (hm : Low m) (hvalid : (pairCode n m).isValidChar) :
    ∃ p', p'.rest = rest ∧ unicode p = some (Char.ofNat (pairCode n m), p') := by
  obtain ⟨hrest, hread⟩ := hex4_complete hds h
  have hnext : ((p.advance 4).advance 2).rest = ds' ++ rest := by
    rw [Parser.advance_rest, hrest]
    rfl
  obtain ⟨hrest', hread'⟩ := hex4_complete hds' hnext
  refine ⟨_, hrest', ?_⟩
  unfold unicode
  rw [hread, Option.bind_some]
  dsimp only
  rw [if_pos (show 0xD800 ≤ n ∧ n ≤ 0xDBFF from hn), if_pos (by rw [hrest]; rfl), hread',
    Option.bind_some]
  dsimp only
  rw [if_pos (show 0xDC00 ≤ m ∧ m ≤ 0xDFFF from hm), fromU32_eq_some_iff.mpr ⟨hvalid, rfl⟩]
  rfl

/-! ## The inside of a string -/

theorem head_encode_ne {c d : Char} {b : UInt8} (hd : String.utf8EncodeChar d = [b]) (h : c ≠ d) :
    (String.utf8EncodeChar c).head? ≠ some b := by
  intro hb
  obtain ⟨bs, hbs⟩ : ∃ bs, String.utf8EncodeChar c = b :: bs := List.head?_eq_some_iff.mp hb
  refine h (Bytes.encode_prefix_free (d := c) ?_).symm
  rw [hd, hbs]
  exact List.prefix_append [b] bs

variable {L : Lexing ν}

theorem chars_sound {fuel : Nat} {out : List Char} {p p' : Parser} {s : String}
    (h : L.chars fuel out p = some (s, p')) :
    ∃ ps cs, IsChars L.Stands Hex p.rest ps p'.rest ∧ Says ps cs ∧
      s = String.ofList (out.reverse ++ cs) := by
  induction fuel generalizing out p with
  | zero => cases h
  | succ fuel ih =>
    rw [chars] at h
    cases hpeek : p.peek with
    | none => rw [hpeek] at h; cases h
    | some b =>
      have hrest := Parser.peek_eq_some_iff.mp hpeek
      have hcons : ∀ c (cs : List Char), (c :: out).reverse ++ cs = out.reverse ++ c :: cs := by
        intro c cs
        rw [List.reverse_cons, List.append_assoc, List.singleton_append]
      rw [hpeek] at h
      dsimp only at h
      split at h
      next hquote =>
        obtain ⟨rfl, rfl⟩ := Prod.mk.inj (Option.some.inj h)
        refine ⟨[], [], hrest ▸ hquote ▸ .close _, .nil, ?_⟩
        rw [List.append_nil]
      next hquote =>
      split at h
      next hslash =>
        subst hslash
        obtain ⟨⟨c, q⟩, hc, h⟩ := Option.bind_eq_some_iff.mp h
        obtain ⟨ps, cs, hps, hcs, rfl⟩ := ih h
        rw [hcons]
        unfold escape at hc
        split at hc
        next hu =>
          have hu' := Parser.peek_eq_some_iff.mp hu
          rw [hrest, hu']
          obtain ⟨ds, n, hds, hp, hn, hvalid, rfl⟩ |
            ⟨ds, n, ds', m, hds, hds', hp, hn, hm, hvalid, hpair⟩ := unicode_sound hc
          · rw [hp]
            exact ⟨.unit n :: ps, _, .unit hds hps, .unit hn hvalid hcs, rfl⟩
          · have hsaid := Says.pair hn hm hvalid hcs
            rw [← hpair] at hsaid
            rw [hp]
            exact ⟨.unit n :: .unit m :: ps, c :: cs, .unit hds (.unit hds' hps), hsaid, rfl⟩
        next =>
          obtain ⟨c', he, hq⟩ := Option.map_eq_some_iff.mp hc
          obtain ⟨rfl, rfl⟩ := Prod.mk.inj hq
          obtain ⟨e, hpeek', he⟩ := Option.bind_eq_some_iff.mp he
          rw [hrest, Parser.peek_eq_some_iff.mp hpeek']
          exact ⟨.char c' :: ps, _, .escape he hps, .char c' hcs, rfl⟩
      next hslash =>
      split at h
      next hplain =>
        obtain ⟨c, hc, h⟩ := Option.bind_eq_some_iff.mp h
        obtain ⟨ps, cs, hps, hcs, rfl⟩ := ih h
        obtain ⟨bytes, hbytes⟩ := ByteArray.exists_of_utf8DecodeChar?_eq_some hc
        have hp : p.rest = String.utf8EncodeChar c ++ bytes.data.toList := by
          have := congrArg (fun a : ByteArray => a.data.toList) hbytes
          simpa using this
        have hhead : (String.utf8EncodeChar c).head? = some b := by
          obtain ⟨d, ds, hd⟩ := List.exists_cons_of_ne_nil (Bytes.encode_ne_nil c)
          rw [Parser.peek, hp, hd] at hpeek
          rw [hd]
          exact hpeek
        rw [Parser.advance_rest, hp, ← String.length_utf8EncodeChar, List.drop_left] at hps
        rw [hcons, hp]
        refine ⟨.char c :: ps, _, .plain ?_ ?_ ?_ hps, .char c hcs, rfl⟩
        · rintro rfl
          exact hquote (Option.some.inj hhead).symm
        · rintro rfl
          exact hslash (Option.some.inj hhead).symm
        · intro d hd
          obtain rfl := Option.some.inj (hhead.symm.trans hd)
          exact hplain
      next => cases h

theorem exists_rounds {plain : Char → Prop} {hex : Bytes → Nat → Prop} {b rest : Bytes}
    {ps : List Piece} (h : IsChars plain hex b ps rest) {fuel : Nat}
    (hfuel : b.length ≤ fuel + rest.length) : ∃ n, fuel = n + 1 := by
  have hlen := h.length_lt
  exact Nat.exists_eq_succ_of_ne_zero (by omega)

theorem chars_escape {p q : Parser} {c : Char} (hslash : p.peek = some 0x5C)
    (hc : escape (p.advance 1) = some (c, q)) (fuel : Nat) (out : List Char) :
    L.chars (fuel + 1) out p = L.chars fuel (c :: out) q := by
  rw [chars, hslash]
  dsimp only
  rw [if_neg (by decide), if_pos rfl, hc, Option.bind_some]

theorem chars_complete {ps : List Piece} {cs : List Char} (hcs : Says ps cs) (fuel : Nat)
    (out : List Char) {p : Parser} {b rest : Bytes} (hp : p.rest = b)
    (hps : IsChars L.Stands Hex b ps rest) (hfuel : b.length ≤ fuel + rest.length) :
    ∃ p', p'.rest = rest ∧ L.chars fuel out p = some (String.ofList (out.reverse ++ cs), p') := by
  induction hcs generalizing fuel out p b with
  | nil =>
    obtain ⟨fuel, rfl⟩ := exists_rounds hps hfuel
    have hpeek : p.peek = b.head? := congrArg List.head? hp
    cases hps
    refine ⟨p.advance 1, Parser.advance_cons hp, ?_⟩
    rw [chars, hpeek, List.append_nil]
    rfl
  | @char ps cs c hcs ih =>
    obtain ⟨fuel, rfl⟩ := exists_rounds hps hfuel
    have hcons : (c :: out).reverse ++ cs = out.reverse ++ c :: cs := by
      rw [List.reverse_cons, List.append_assoc, List.singleton_append]
    cases hps with
    | @plain _ b _ _ hquote hslash hc hps =>
      obtain ⟨d, ds, hd⟩ := List.exists_cons_of_ne_nil (Bytes.encode_ne_nil c)
      have hlen : ds.length + 1 = c.utf8Size := by
        rw [← String.length_utf8EncodeChar, hd, List.length_cons]
      have hpeek : p.peek = some d := by rw [Parser.peek, hp, hd, List.cons_append, List.head?_cons]
      have hnext : (p.advance c.utf8Size).rest = b := by
        rw [Parser.advance_rest, hp, ← String.length_utf8EncodeChar, List.drop_left]
      have hne := head_encode_ne (show String.utf8EncodeChar '"' = [0x22] by decide) hquote
      have hne' := head_encode_ne (show String.utf8EncodeChar '\\' = [0x5C] by decide) hslash
      rw [hd] at hne hne' hfuel
      obtain ⟨p', hp', hread⟩ := ih fuel (c :: out) hnext hps
        (by rw [List.length_append, List.length_cons] at hfuel; omega)
      refine ⟨p', hp', ?_⟩
      rw [← hcons, ← hread, chars, hpeek]
      dsimp only
      rw [if_neg (fun h => hne (congrArg some h)), if_neg (fun h => hne' (congrArg some h)),
        if_pos (hc d (by rw [hd]; rfl)), hp, Bytes.decode_encode, Option.bind_some]
    | @escape e _ b _ _ he hps =>
      have hnext := Parser.advance_cons hp
      have hescape : escape (p.advance 1) = some (c, (p.advance 1).advance 1) := by
        have hpeek : (p.advance 1).peek = some e := congrArg List.head? hnext
        have hu : e ≠ 0x75 := by
          rintro rfl
          cases he
        unfold escape
        rw [hpeek, if_neg (fun h => hu (Option.some.inj h)), Option.bind_some]
        exact congrArg (Option.map _) he
      obtain ⟨p', hp', hread⟩ := ih fuel (c :: out) (Parser.advance_cons hnext) hps
        (by simp only [List.length_cons] at hfuel; omega)
      refine ⟨p', hp', ?_⟩
      rw [← hcons, ← hread]
      exact chars_escape (congrArg List.head? hp) hescape fuel out
  | @unit n ps cs hn hvalid hcs ih =>
    obtain ⟨fuel, rfl⟩ := exists_rounds hps hfuel
    cases hps with
    | @unit ds _ b _ _ hds hps =>
      have hnext := Parser.advance_cons hp
      obtain ⟨q, hq, hunicode⟩ := unicode_single hds (Parser.advance_cons hnext) hn hvalid
      have hescape : escape (p.advance 1) = some (Char.ofNat n, q) :=
        (if_pos (congrArg List.head? hnext)).trans hunicode
      obtain ⟨p', hp', hread⟩ := ih fuel (Char.ofNat n :: out) hq hps
        (by simp only [List.length_cons, List.length_append] at hfuel; omega)
      refine ⟨p', hp', ?_⟩
      rw [chars_escape (congrArg List.head? hp) hescape, hread, List.reverse_cons,
        List.append_assoc, List.singleton_append]
  | @pair n m ps cs hn hm hvalid hcs ih =>
    obtain ⟨fuel, rfl⟩ := exists_rounds hps hfuel
    cases hps with
    | @unit ds _ b _ _ hds hps =>
    cases hps with
    | @unit ds' _ b _ _ hds' hps =>
      have hnext := Parser.advance_cons hp
      obtain ⟨q, hq, hunicode⟩ := unicode_pair hds hds' (Parser.advance_cons hnext) hn hm hvalid
      have hescape : escape (p.advance 1) = some (Char.ofNat (pairCode n m), q) :=
        (if_pos (congrArg List.head? hnext)).trans hunicode
      obtain ⟨p', hp', hread⟩ := ih fuel (Char.ofNat (pairCode n m) :: out) hq hps
        (by simp only [List.length_cons, List.length_append] at hfuel; omega)
      refine ⟨p', hp', ?_⟩
      rw [chars_escape (congrArg List.head? hp) hescape, hread, List.reverse_cons,
        List.append_assoc, List.singleton_append]

theorem string_sound {p p' : Parser} {s : String} (hquote : p.peek = some 0x22)
    (h : L.string p = some (s, p')) : L.StringToken p.rest s p'.rest := by
  obtain ⟨ps, cs, hps, hcs, rfl⟩ := chars_sound h
  refine ⟨ps, ⟨_, Parser.peek_eq_some_iff.mp hquote, hps⟩, ?_⟩
  rw [List.reverse_nil, List.nil_append, String.toList_ofList]
  exact hcs

theorem string_complete {p : Parser} {s : String} {rest : Bytes}
    (h : L.StringToken p.rest s rest) : ∃ p', p'.rest = rest ∧ L.string p = some (s, p') := by
  obtain ⟨ps, ⟨b, hb, hps⟩, hcs⟩ := h
  obtain ⟨p', hp', hread⟩ := chars_complete hcs (p.rest.length + 1) [] (Parser.advance_cons hb) hps
    (by rw [hb, List.length_cons]; omega)
  rw [List.reverse_nil, List.nil_append, String.ofList_toList] at hread
  exact ⟨p', hp', hread⟩

theorem StringToken.apart {b rest : Bytes} {s : String} (h : L.StringToken b s rest) :
    ∃ b', b = 0x22 :: b' ∧ rest.length ≤ b'.length := by
  obtain ⟨ps, ⟨b', rfl, hps⟩, -⟩ := h
  exact ⟨b', rfl, hps.length_lt.le⟩

end Lexing

end CaveHome.Apiserver
