import CaveHome.Lib.MachineData

/-!
# The beginning of a text as lossy text

The first bytes of a text may end within one of its characters.  Read with replacement characters
they give the characters that lie wholly within them, and one replacement character for the one
that is cut.
-/

namespace Bytes

/-- The character that stands for bytes that are not valid UTF-8. -/
def replacement : Char := Char.ofNat 0xFFFD

/-- The characters that lie wholly within the first `n` bytes of a text. -/
def wholeChars : Nat → List Char → List Char
  | _, [] => []
  | n, c :: cs => if c.utf8Size ≤ n then c :: wholeChars (n - c.utf8Size) cs else []

/-- The character within which the first `n` bytes of a text end, if they end within one. -/
def cutChar : Nat → List Char → Option Char
  | _, [] => none
  | n, c :: cs =>
    if c.utf8Size ≤ n then cutChar (n - c.utf8Size) cs else if n = 0 then none else some c

theorem ofString_eq_flatMap (s : String) :
    ofString s = s.toList.flatMap String.utf8EncodeChar := by
  have h : ∀ cs : List Char, cs.utf8Encode.data.toList = cs.flatMap String.utf8EncodeChar := by
    intro cs
    induction cs with
    | nil => rfl
    | cons c cs ih =>
      rw [List.utf8Encode_cons, ByteArray.data_append, Array.toList_append, ih,
        List.utf8Encode_singleton, List.flatMap_cons]
      simp
  unfold ofString
  rw [← String.utf8Encode_toList, h]

/-! ## One character -/

theorem decode_encode (c : Char) (rest : Bytes) :
    ByteArray.utf8DecodeChar? ⟨(String.utf8EncodeChar c ++ rest).toArray⟩ 0 = some c := by
  have hb : (⟨(String.utf8EncodeChar c ++ rest).toArray⟩ : ByteArray) =
      (String.utf8EncodeChar c).toByteArray ++ ⟨rest.toArray⟩ := by
    apply ByteArray.ext
    simp
  rw [hb]
  exact ByteArray.utf8DecodeChar?_utf8EncodeChar_append

theorem encode_prefix_free {c d : Char}
    (h : String.utf8EncodeChar c <+: String.utf8EncodeChar d) : c = d := by
  obtain ⟨rest, hrest⟩ := h
  have hc := decode_encode c rest
  have hd := decode_encode d []
  rw [hrest] at hc
  rw [List.append_nil, hc] at hd
  exact Option.some.inj hd

theorem decode_cut {b : Bytes} {c : Char} (h : b <+: String.utf8EncodeChar c)
    (hlt : b.length < c.utf8Size) : ByteArray.utf8DecodeChar? ⟨b.toArray⟩ 0 = none := by
  by_contra hne
  obtain ⟨d, hd⟩ := Option.ne_none_iff_exists'.1 hne
  obtain ⟨l, hl⟩ := ByteArray.exists_of_utf8DecodeChar?_eq_some hd
  have hb : b = String.utf8EncodeChar d ++ l.data.toList := by
    have := congrArg (fun a : ByteArray => a.data.toList) hl
    simpa using this
  have hpre : String.utf8EncodeChar d <+: b := ⟨_, hb.symm⟩
  obtain rfl := encode_prefix_free (hpre.trans h)
  have hlen := hpre.length_le
  rw [String.length_utf8EncodeChar] at hlen
  omega

theorem secondByteOk_ofNat {m n : Nat} (hm : m < 256) (hn : n < 256)
    (h : m = 0xE0 ∧ 0xA0 ≤ n ∧ n ≤ 0xBF ∨ m = 0xED ∧ 0x80 ≤ n ∧ n ≤ 0x9F ∨
      m = 0xF0 ∧ 0x90 ≤ n ∧ n ≤ 0xBF ∨ m = 0xF4 ∧ 0x80 ≤ n ∧ n ≤ 0x8F ∨
      0xE1 ≤ m ∧ m ≤ 0xF3 ∧ m ≠ 0xED ∧ m ≠ 0xF0 ∧ 0x80 ≤ n ∧ n ≤ 0xBF) :
    secondByteOk (UInt8.ofNat m) (UInt8.ofNat n) = true := by
  have hm' : (UInt8.ofNat m).toNat = m := UInt8.toNat_ofNat_of_lt' hm
  have hn' : (UInt8.ofNat n).toNat = n := UInt8.toNat_ofNat_of_lt' hn
  unfold secondByteOk
  simp only [← UInt8.toNat_inj, UInt8.le_iff_toNat_le, hm', hn', UInt8.reduceToNat]
  split_ifs <;> simp only [Bool.and_eq_true, decide_eq_true_eq] <;> omega

theorem length_le_brokenTail {b₀ : UInt8} {rest : Bytes} {c : Char}
    (h : b₀ :: rest <+: String.utf8EncodeChar c) (hlt : rest.length + 1 < c.utf8Size) :
    rest.length ≤ brokenTail b₀ rest := by
  have hvalid : c.val.toNat < 0xD800 ∨ 0xDFFF < c.val.toNat ∧ c.val.toNat < 0x110000 := c.valid
  rw [← String.length_utf8EncodeChar] at hlt
  unfold String.utf8EncodeChar at h hlt
  dsimp only at h hlt
  generalize c.val.toNat = v at hvalid h hlt
  split_ifs at h hlt with h1 h2 h3
  · simp at hlt
  · simp only [List.length_cons, List.length_nil] at hlt
    omega
  · cases rest with
    | nil => exact Nat.zero_le _
    | cons b₁ rest =>
      cases rest with
      | nil =>
        rw [List.cons_prefix_cons, List.cons_prefix_cons] at h
        obtain ⟨rfl, rfl, -⟩ := h
        rw [brokenTail, secondByteOk_ofNat (by omega) (by omega) (by omega), if_pos rfl]
        exact le_rfl
      | cons b₂ rest =>
        simp only [List.length_cons, List.length_nil] at hlt
        omega
  · cases rest with
    | nil => exact Nat.zero_le _
    | cons b₁ rest =>
      rw [List.cons_prefix_cons, List.cons_prefix_cons] at h
      obtain ⟨rfl, rfl, h⟩ := h
      have hsecond := secondByteOk_ofNat (m := v / 262144 % 8 + 0xF0) (n := v / 4096 % 64 + 0x80)
        (by omega) (by omega) (by omega)
      cases rest with
      | nil =>
        rw [brokenTail, hsecond, if_pos rfl]
        exact le_rfl
      | cons b₂ rest =>
        cases rest with
        | nil =>
          obtain ⟨rfl, -⟩ := List.cons_prefix_cons.1 h
          have hlead : (0xF0 : UInt8) ≤ UInt8.ofNat (v / 262144 % 8 + 0xF0) := by
            rw [UInt8.le_iff_toNat_le, UInt8.toNat_ofNat_of_lt' (by show _ < 256; omega)]
            show 240 ≤ _
            omega
          have hlow : (0x80 : UInt8) ≤ UInt8.ofNat (v / 64 % 64 + 0x80) := by
            rw [UInt8.le_iff_toNat_le, UInt8.toNat_ofNat_of_lt' (by show _ < 256; omega)]
            show 128 ≤ _
            omega
          have hhigh : UInt8.ofNat (v / 64 % 64 + 0x80) ≤ (0xBF : UInt8) := by
            rw [UInt8.le_iff_toNat_le, UInt8.toNat_ofNat_of_lt' (by show _ < 256; omega)]
            show _ ≤ 191
            omega
          rw [brokenTail, hsecond, if_pos rfl, decide_eq_true hlead, decide_eq_true hlow,
            decide_eq_true hhigh]
          exact le_rfl
        | cons b₃ rest =>
          simp only [List.length_cons, List.length_nil] at hlt
          omega

/-! ## The beginning of a text -/

theorem lossyChars_of_prefix {fuel : Nat} {b : Bytes} {cs : List Char} (hf : b.length ≤ fuel)
    (h : b <+: cs.flatMap String.utf8EncodeChar) :
    lossyChars fuel b =
      wholeChars b.length cs ++ (cutChar b.length cs).toList.map fun _ => replacement := by
  induction cs generalizing fuel b with
  | nil =>
    obtain rfl := List.prefix_nil.1 h
    cases fuel <;> rfl
  | cons c cs ih =>
    rw [List.flatMap_cons] at h
    cases b with
    | nil =>
      have hpos := c.utf8Size_pos
      have hcut : ¬ c.utf8Size ≤ 0 := by omega
      cases fuel <;> simp [lossyChars, wholeChars, cutChar, hcut]
    | cons b₀ rest =>
      obtain ⟨fuel, rfl⟩ : ∃ f, fuel = f + 1 := ⟨fuel - 1, by simp at hf; omega⟩
      rw [lossyChars, wholeChars, cutChar]
      by_cases hle : c.utf8Size ≤ (b₀ :: rest).length
      · -- the whole character is read
        have hpre : String.utf8EncodeChar c <+: b₀ :: rest :=
          List.prefix_of_prefix_length_le (List.prefix_append _ _) h (by simpa using hle)
        obtain ⟨tail, htail⟩ := hpre
        have hpos := c.utf8Size_pos
        have hlen : (b₀ :: rest).length = c.utf8Size + tail.length := by
          rw [← htail, List.length_append, String.length_utf8EncodeChar]
        have hdrop : rest.drop (c.utf8Size - 1) = tail := by
          have hall : (b₀ :: rest).drop c.utf8Size = tail := by
            rw [← htail, List.drop_left' (String.length_utf8EncodeChar c)]
          obtain ⟨k, hk⟩ : ∃ k, c.utf8Size = k + 1 := ⟨c.utf8Size - 1, by omega⟩
          rw [hk] at hall ⊢
          exact hall
        have hrest : tail <+: cs.flatMap String.utf8EncodeChar := by
          rw [← htail] at h
          exact (List.prefix_append_right_inj _).1 h
        have hdecode : ByteArray.utf8DecodeChar? ⟨(b₀ :: rest).toArray⟩ 0 = some c := by
          rw [← htail]
          exact decode_encode c tail
        rw [hdecode, if_pos hle, if_pos hle]
        dsimp only
        rw [hdrop, ih (by simp at hf hlen; omega) hrest, hlen, Nat.add_sub_cancel_left]
        rfl
      · -- the character is cut
        have hlt : (b₀ :: rest).length < c.utf8Size := not_le.1 hle
        have hpre : b₀ :: rest <+: String.utf8EncodeChar c :=
          List.prefix_of_prefix_length_le h (List.prefix_append _ _)
            (by rw [String.length_utf8EncodeChar]; exact hlt.le)
        have hdrop : rest.drop (brokenTail b₀ rest) = [] :=
          List.drop_eq_nil_of_le (length_le_brokenTail hpre hlt)
        rw [decode_cut hpre hlt, if_neg hle, if_neg hle]
        dsimp only
        rw [hdrop]
        cases fuel <;> simp [lossyChars, replacement]

theorem toStringLossy_of_prefix {b : Bytes} {s : String} (h : b <+: ofString s) :
    (toStringLossy b).toList = wholeChars b.length s.toList ++
      (cutChar b.length s.toList).toList.map fun _ => replacement := by
  have hlossy : lossyChars b.length b = wholeChars b.length s.toList ++
      (cutChar b.length s.toList).toList.map fun _ => replacement :=
    lossyChars_of_prefix le_rfl (by rwa [← ofString_eq_flatMap])
  unfold toStringLossy
  cases hv : toString? b with
  | none => simp [hlossy]
  | some t =>
    -- valid bytes are read as the text they encode, which is what the lossy reading gives
    have hbytes := toString?_eq_some_iff.1 hv
    have hwritten : t.toList.flatMap String.utf8EncodeChar = b := by
      rw [← ofString_eq_flatMap, hbytes]
    have hpre : b <+: t.toList.flatMap String.utf8EncodeChar := by
      simp only [hwritten, List.prefix_rfl]
    have hself := lossyChars_of_prefix (le_refl b.length) hpre
    have hwhole : ∀ cs : List Char, wholeChars (cs.flatMap String.utf8EncodeChar).length cs = cs ∧
        cutChar (cs.flatMap String.utf8EncodeChar).length cs = none := by
      intro cs
      induction cs with
      | nil => exact ⟨rfl, rfl⟩
      | cons c cs ih =>
        rw [List.flatMap_cons, List.length_append, String.length_utf8EncodeChar, wholeChars,
          cutChar, if_pos (by omega), if_pos (by omega), Nat.add_sub_cancel_left, ih.1, ih.2]
        exact ⟨rfl, rfl⟩
    have hlen : b.length = (t.toList.flatMap String.utf8EncodeChar).length := by
      rw [hwritten]
    rw [hlen, (hwhole t.toList).1, (hwhole t.toList).2, ← hlen, hlossy] at hself
    simpa using hself.symm

theorem exists_rest (n : Nat) (cs : List Char) :
    ∃ rest, cs = wholeChars n cs ++ (cutChar n cs).toList ++ rest := by
  induction cs generalizing n with
  | nil => exact ⟨[], rfl⟩
  | cons c cs ih =>
    rw [wholeChars, cutChar]
    split_ifs with h1 h2
    · obtain ⟨rest, hrest⟩ := ih (n - c.utf8Size)
      exact ⟨rest, by rw [List.cons_append, List.cons_append, ← hrest]⟩
    · exact ⟨c :: cs, rfl⟩
    · exact ⟨cs, rfl⟩

theorem lt_length_of_cutChar {n : Nat} {cs : List Char} {c : Char} (h : cutChar n cs = some c) :
    n < ((wholeChars n cs ++ [c]).flatMap String.utf8EncodeChar).length := by
  induction cs generalizing n with
  | nil => cases h
  | cons d cs ih =>
    rw [cutChar] at h
    rw [wholeChars]
    split_ifs at h ⊢ with h1 h2
    · have := ih h
      rw [List.cons_append, List.flatMap_cons, List.length_append, String.length_utf8EncodeChar]
      omega
    · obtain rfl := Option.some.inj h
      simpa using h1

end Bytes
