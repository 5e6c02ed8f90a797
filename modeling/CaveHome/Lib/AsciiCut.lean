import CaveHome.Lib.LossyText

/-!
# Cutting a text at ASCII bytes

In UTF-8 the bytes below 128 are characters of their own, and every byte of another character is
128 at least.  A text that is cut where a condition on bytes changes gives two texts, if the
condition does not tell bytes from 128 on apart.
-/

namespace Bytes

/-- The bytes are a text. -/
def IsText (b : Bytes) : Prop := ∃ s, ofString s = b

theorem IsText.toString? {b : Bytes} (h : IsText b) : ∃ s, Bytes.toString? b = some s := by
  obtain ⟨s, hs⟩ := h
  exact ⟨s, toString?_eq_some_iff.2 hs⟩

theorem isText_iff {b : Bytes} :
    IsText b ↔ ∃ cs : List Char, b = cs.flatMap String.utf8EncodeChar := by
  constructor
  · rintro ⟨s, rfl⟩
    exact ⟨s.toList, ofString_eq_flatMap s⟩
  · rintro ⟨cs, rfl⟩
    refine ⟨String.ofList cs, ?_⟩
    rw [ofString_eq_flatMap, String.toList_ofList]

theorem ofString_append (s t : String) : ofString (s ++ t) = ofString s ++ ofString t := by
  rw [ofString_eq_flatMap, ofString_eq_flatMap, ofString_eq_flatMap, String.toList_append,
    List.flatMap_append]

/-! ## The bytes of a character -/

theorem encode_ascii {c : Char} (h : c.toNat < 128) :
    String.utf8EncodeChar c = [UInt8.ofNat c.toNat] := by
  unfold String.utf8EncodeChar
  exact if_pos (Nat.le_of_lt_succ h)

theorem le_of_mem_encode {c : Char} (h : 128 ≤ c.toNat) :
    ∀ b ∈ String.utf8EncodeChar c, 0x80 ≤ b := by
  have hbyte : ∀ n, 128 ≤ n → n < 256 → (0x80 : UInt8) ≤ UInt8.ofNat n := by
    intro n h1 h2
    rw [UInt8.le_iff_toNat_le, UInt8.toNat_ofNat_of_lt' h2]
    exact h1
  have hvalid : c.toNat < 0xD800 ∨ 0xDFFF < c.toNat ∧ c.toNat < 0x110000 := c.valid
  unfold String.utf8EncodeChar
  change 128 ≤ c.val.toNat at h
  change c.val.toNat < 0xD800 ∨ 0xDFFF < c.val.toNat ∧ c.val.toNat < 0x110000 at hvalid
  dsimp only
  generalize c.val.toNat = v at h hvalid
  split_ifs
  · omega
  all_goals
    simp only [List.mem_cons, List.not_mem_nil, or_false, forall_eq_or_imp, forall_eq]
    refine ⟨?_, ?_⟩ <;> try refine ⟨?_, ?_⟩ <;> try refine ⟨?_, ?_⟩
  all_goals
    apply hbyte <;> omega

theorem encode_cases (c : Char) :
    (∃ b, String.utf8EncodeChar c = [b] ∧ b < 0x80) ∨
      ∀ b ∈ String.utf8EncodeChar c, 0x80 ≤ b := by
  rcases Nat.lt_or_ge c.toNat 128 with h | h
  · refine .inl ⟨_, encode_ascii h, ?_⟩
    rw [UInt8.lt_iff_toNat_lt, UInt8.toNat_ofNat_of_lt' (by show _ < 256; omega)]
    exact h
  · exact .inr (le_of_mem_encode h)

theorem encode_ne_nil (c : Char) : String.utf8EncodeChar c ≠ [] := by
  intro h
  have hlen := String.length_utf8EncodeChar c
  rw [h] at hlen
  exact absurd hlen.symm (Char.utf8Size_pos c).ne'

/-! ## Cuts -/

theorem IsText.tail {b : UInt8} {rest : Bytes} (h : IsText (b :: rest)) (hb : b < 0x80) :
    IsText rest := by
  obtain ⟨cs, hcs⟩ := isText_iff.1 h
  cases cs with
  | nil => exact absurd hcs (by simp)
  | cons c cs =>
    rw [List.flatMap_cons] at hcs
    rcases encode_cases c with ⟨d, hd, -⟩ | hc
    · rw [hd] at hcs
      exact isText_iff.2 ⟨cs, (List.cons_eq_cons.1 hcs).2⟩
    · cases he : String.utf8EncodeChar c with
      | nil => exact absurd he (encode_ne_nil c)
      | cons d ds =>
        rw [he] at hcs hc
        have hle := hc d List.mem_cons_self
        rw [(List.cons_eq_cons.1 hcs).1] at hb
        exact absurd hb (UInt8.not_lt.2 hle)

theorem IsText.cons {b : UInt8} {rest : Bytes} (hb : b < 0x80) (h : IsText rest) :
    IsText (b :: rest) := by
  obtain ⟨cs, rfl⟩ := isText_iff.1 h
  have hlt : b.toNat < 128 := UInt8.lt_iff_toNat_lt.1 hb
  have hnat : (Char.ofNat b.toNat).toNat = b.toNat := by
    rw [Char.ofNat, dif_pos (.inl (by omega))]
    rfl
  refine isText_iff.2 ⟨Char.ofNat b.toNat :: cs, ?_⟩
  rw [List.flatMap_cons, encode_ascii (hnat.symm ▸ hlt), hnat, UInt8.ofNat_toNat]
  rfl

variable {p : UInt8 → Bool}

theorem IsText.cut (hp : ∀ b d, 0x80 ≤ b → 0x80 ≤ d → p b = p d) {b : Bytes} (h : IsText b) :
    IsText (b.takeWhile p) ∧ IsText (b.dropWhile p) := by
  obtain ⟨cs, rfl⟩ := isText_iff.1 h
  clear h
  induction cs with
  | nil => exact ⟨⟨"", rfl⟩, ⟨"", rfl⟩⟩
  | cons c cs ih =>
    have hall : (∀ b ∈ String.utf8EncodeChar c, p b = true) ∨
        (∀ b ∈ String.utf8EncodeChar c, p b = false) := by
      rcases encode_cases c with ⟨d, hd, -⟩ | hc
      · rw [hd]
        cases hpd : p d with
        | true => exact .inl fun b hb => List.mem_singleton.1 hb ▸ hpd
        | false => exact .inr fun b hb => List.mem_singleton.1 hb ▸ hpd
      · cases hp80 : p 0x80 with
        | true => exact .inl fun b hb => (hp b 0x80 (hc b hb) (by decide)).trans hp80
        | false => exact .inr fun b hb => (hp b 0x80 (hc b hb) (by decide)).trans hp80
    rw [List.flatMap_cons]
    cases hall with
    | inl htrue =>
      rw [List.takeWhile_append_of_pos htrue, List.dropWhile_append_of_pos htrue]
      obtain ⟨ds, hds⟩ := isText_iff.1 ih.1
      refine ⟨isText_iff.2 ⟨c :: ds, ?_⟩, ih.2⟩
      rw [hds, List.flatMap_cons]
    | inr hfalse =>
      cases he : String.utf8EncodeChar c with
      | nil => exact absurd he (encode_ne_nil c)
      | cons d ds =>
        have hd : p d = false := hfalse d (he ▸ List.mem_cons_self)
        rw [List.cons_append, List.takeWhile_cons_of_neg (by simp [hd]),
          List.dropWhile_cons_of_neg (by simp [hd])]
        refine ⟨⟨"", rfl⟩, isText_iff.2 ⟨c :: cs, ?_⟩⟩
        rw [List.flatMap_cons, he, List.cons_append]

theorem mem_of_mem_ofString {s : String} {c : Char} (hc : c.toNat < 128)
    (h : UInt8.ofNat c.toNat ∈ ofString s) : c ∈ s.toList := by
  rw [ofString_eq_flatMap] at h
  obtain ⟨d, hd, hmem⟩ := List.mem_flatMap.1 h
  rcases Nat.lt_or_ge d.toNat 128 with hlt | hge
  · rw [encode_ascii hlt, List.mem_singleton] at hmem
    have hnat := congrArg UInt8.toNat hmem
    rw [UInt8.toNat_ofNat_of_lt' (by show _ < 256; omega),
      UInt8.toNat_ofNat_of_lt' (by show _ < 256; omega)] at hnat
    rwa [Char.toNat_inj.1 hnat]
  · have hle := le_of_mem_encode hge _ hmem
    rw [UInt8.le_iff_toNat_le, UInt8.toNat_ofNat_of_lt' (by show _ < 256; omega)] at hle
    exact absurd (show 128 ≤ c.toNat from hle) (by omega)

end Bytes
