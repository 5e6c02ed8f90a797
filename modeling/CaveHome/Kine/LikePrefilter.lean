import CaveHome.Kine.Backend
import CaveHome.Lib.LexInterval
import CaveHome.Lib.LossyText

/-!
# What the `LIKE` preselection drops

The pattern of a request begins with literal bytes: the key of a point get or of a prefix scan, or
the bytes that the two ends of an explicit interval share.  They are turned into text with
replacement characters, so when they end within a character of a stored key the pattern asks for a
replacement character there.  `likePattern_keeps_iff` says which requests lose no key that way.
-/

namespace CaveHome.Kine

open Bytes (wholeChars cutChar replacement ofString)

/-- The bytes that every key of the interval begins with, as far as the pattern uses them. -/
def RangeRequest.literal (req : RangeRequest) : Bytes :=
  match req.rangeEnd with
  | .single | .prefixScan => req.key
  | .explicit e => commonPrefix req.key e
  | .allKeys => []

theorem literal_isPrefix {req : RangeRequest} {c : Bytes} (h : req.contains c = true) :
    req.literal <+: c := by
  unfold RangeRequest.contains at h
  unfold RangeRequest.literal
  cases he : req.rangeEnd with
  | single =>
    simp only [he, decide_eq_true_eq] at h ⊢
    rw [h]
  | prefixScan =>
    simpa only [he, List.isPrefixOf_iff_prefix] using h
  | allKeys => exact List.nil_prefix
  | explicit e =>
    simp only [he, Bool.and_eq_true, decide_eq_true_eq] at h ⊢
    exact commonPrefix_isPrefix h.1 h.2

/-- The literal bytes end between two characters of a key, or within one that is itself the
replacement character. -/
def CutHarmless (req : RangeRequest) (name : String) : Prop :=
  ∀ c ∈ cutChar req.literal.length name.toList, c = replacement

theorem lossy_isPrefix {b : Bytes} {name : String} (h : b <+: ofString name)
    (hcut : ∀ c ∈ cutChar b.length name.toList, c = replacement) :
    (Bytes.toStringLossy b).toList <+: name.toList := by
  obtain ⟨rest, hrest⟩ := Bytes.exists_rest b.length name.toList
  rw [Bytes.toStringLossy_of_prefix h]
  refine ⟨rest, ?_⟩
  conv_rhs => rw [hrest]
  cases hc : cutChar b.length name.toList with
  | none => rfl
  | some c => rw [hcut c hc]; rfl

theorem like_of_cutHarmless {req : RangeRequest} {name : String}
    (hc : req.contains (ofString name) = true) (hcut : CutHarmless req name) :
    SqlLike.like (likePattern req).toList name.toList = true := by
  have hpre := literal_isPrefix hc
  obtain ⟨rest, hrest⟩ := lossy_isPrefix hpre hcut
  have hpercent : "%".toList = ['%'] := by decide
  have hlike : SqlLike.like ((Bytes.toStringLossy req.literal).toList ++ ['%']) name.toList =
      true := by
    rw [← hrest]
    exact SqlLike.like_append (SqlLike.like_percent rest) _
  unfold RangeRequest.literal at hlike
  unfold likePattern
  cases he : req.rangeEnd with
  | single =>
    have hkey : ofString name = req.key := by
      simpa only [RangeRequest.contains, he, decide_eq_true_eq] using hc
    rw [← hkey, Bytes.toStringLossy_ofString (Bytes.toString?_ofString name)]
    exact SqlLike.like_self _
  | prefixScan => simpa only [he, String.toList_append, hpercent] using hlike
  | allKeys =>
    simp only [hpercent]
    exact SqlLike.like_percent _
  | explicit e => simpa only [he, String.toList_append, hpercent] using hlike

theorem prefix_commonPrefix {w lo hi : Bytes} (h : w <+: lo) (h' : w <+: hi) :
    w <+: commonPrefix lo hi := by
  induction w generalizing lo hi with
  | nil => exact List.nil_prefix
  | cons a w ih =>
    obtain ⟨lo, rfl⟩ := h
    obtain ⟨hi, rfl⟩ := h'
    rw [List.cons_append, List.cons_append, commonPrefix, if_pos rfl]
    exact List.cons_prefix_cons.2 ⟨rfl, ih (List.prefix_append _ _) (List.prefix_append _ _)⟩

theorem fold_replacement {d : Char} (h : SqlLike.foldCase replacement = SqlLike.foldCase d) :
    d = replacement := by
  have hself : SqlLike.foldCase replacement = replacement := by decide
  rw [hself] at h
  unfold SqlLike.foldCase Char.toLower at h
  split_ifs at h with hd
  · -- lower case letters are below the replacement character
    have hval : replacement.val.toNat = (d.val + ('a'.val - 'A'.val)).toNat :=
      congrArg (fun c : Char => c.val.toNat) h
    have hupper : d.val.toNat ≤ 90 := UInt32.le_iff_toNat_le.1 hd.2
    have hreplacement : replacement.val.toNat = 65533 := rfl
    have hshift : ('a'.val - 'A'.val).toNat = 32 := rfl
    rw [UInt32.toNat_add, hreplacement, hshift] at hval
    omega
  · exact h.symm

theorem not_like_of_cut {req : RangeRequest} {name name' : String}
    (hc : req.contains (ofString name) = true) {c : Char}
    (hcut : cutChar req.literal.length name.toList = some c) (hne : c ≠ replacement)
    {rest : List Char} (hrest : replacement ∉ rest)
    (hname : name'.toList = wholeChars req.literal.length name.toList ++ c :: rest) :
    SqlLike.like (likePattern req).toList name'.toList = false := by
  have hpre := literal_isPrefix hc
  have hpercent : "%".toList = ['%'] := by decide
  have hlossy := Bytes.toStringLossy_of_prefix hpre
  rw [hcut] at hlossy
  -- the pattern has one replacement character more than the key
  have hcount : ∀ tail : List Char,
      (wholeChars req.literal.length name.toList).count replacement <
        ((Bytes.toStringLossy req.literal).toList ++ tail).count replacement := by
    intro tail
    rw [hlossy, List.count_append, List.count_append]
    simp only [Option.toList_some, List.map_cons, List.map_nil, List.count_singleton_self]
    omega
  have hcount' : name'.toList.count replacement =
      (wholeChars req.literal.length name.toList).count replacement := by
    rw [hname, List.count_append, List.count_cons_of_ne hne, List.count_eq_zero_of_not_mem hrest]
    rfl
  have hlt : name'.toList.count replacement < (likePattern req).toList.count replacement := by
    rw [hcount']
    have h1 := hcount []
    have h2 := hcount ['%']
    unfold RangeRequest.literal at h1 h2
    unfold likePattern RangeRequest.literal
    cases he : req.rangeEnd with
    | single => simpa only [he, List.append_nil] using h1
    | prefixScan => simpa only [he, String.toList_append, hpercent] using h2
    | allKeys =>
      unfold RangeRequest.literal at hcut
      simp only [he] at hcut
      cases hn : name.toList with
      | nil =>
        rw [hn] at hcut
        cases hcut
      | cons d cs =>
        have hpos := d.utf8Size_pos
        have hzero : ¬ d.utf8Size ≤ 0 := by omega
        simp [hn, cutChar, hzero] at hcut
    | explicit e => simpa only [he, String.toList_append, hpercent] using h2
  by_contra hlike
  have hle := SqlLike.count_le_of_like (x := replacement) (by decide) (by decide)
    (fun d hd => fold_replacement hd) (by simpa using hlike)
  omega

/-! ## A dropped key of every interval that cuts characters -/

/-- The next character after the replacement character. -/
def aboveReplacement : Char := Char.ofNat 0xFFFE

/-- A text without replacement characters that does not come before the given one. -/
def withoutReplacement (cs : List Char) : List Char :=
  cs.map fun c => if c = replacement then aboveReplacement else c

theorem replacement_not_mem (cs : List Char) : replacement ∉ withoutReplacement cs := by
  unfold withoutReplacement
  intro h
  obtain ⟨c, -, hc⟩ := List.mem_map.1 h
  split_ifs at hc with h1
  · exact absurd hc (by decide)
  · exact h1 hc

theorem bytes_le_withoutReplacement (cs : List Char) :
    cs.flatMap String.utf8EncodeChar ≤
      (withoutReplacement cs).flatMap String.utf8EncodeChar := by
  induction cs with
  | nil => exact le_rfl
  | cons c cs ih =>
    unfold withoutReplacement at ih ⊢
    rw [List.map_cons, List.flatMap_cons, List.flatMap_cons]
    split_ifs with h
    · have hr : String.utf8EncodeChar c = [0xEF, 0xBF, 0xBD] := by
        rw [h]
        decide
      have ha : String.utf8EncodeChar aboveReplacement = [0xEF, 0xBF, 0xBE] := by decide
      rw [hr, ha]
      refine LexInterval.cons_le_cons_iff.2 (Or.inr ⟨rfl, ?_⟩)
      refine LexInterval.cons_le_cons_iff.2 (Or.inr ⟨rfl, ?_⟩)
      exact LexInterval.cons_le_cons_iff.2 (Or.inl (by decide))
    · exact LexInterval.append_le_append_iff.2 ih

theorem exists_key {req : RangeRequest} {name : String}
    (hc : req.contains (ofString name) = true) {c : Char}
    (hcut : cutChar req.literal.length name.toList = some c) :
    ∃ rest, replacement ∉ rest ∧
      req.contains (ofString (String.ofList
        (wholeChars req.literal.length name.toList ++ c :: rest))) = true := by
  have hpre := literal_isPrefix hc
  have hlt := Bytes.lt_length_of_cutChar hcut
  obtain ⟨rest, hrest⟩ := Bytes.exists_rest req.literal.length name.toList
  rw [hcut, Option.toList_some] at hrest
  generalize hwhole : wholeChars req.literal.length name.toList = whole at hlt hrest
  generalize hw : (whole ++ [c]).flatMap String.utf8EncodeChar = w at hlt
  have hbytes : ofString name = w ++ rest.flatMap String.utf8EncodeChar := by
    rw [Bytes.ofString_eq_flatMap, hrest, List.flatMap_append, hw]
  have hbytes' : ∀ tail : List Char, ofString (String.ofList (whole ++ c :: tail)) =
      w ++ tail.flatMap String.utf8EncodeChar := by
    intro tail
    rw [Bytes.ofString_eq_flatMap, String.toList_ofList, ← hw, ← List.flatMap_append,
      List.append_assoc, List.singleton_append]
  have hprew : req.literal <+: w :=
    List.prefix_of_prefix_length_le (hbytes ▸ hpre) (List.prefix_append _ _) hlt.le
  have hshort : ¬ w <+: req.literal := fun h => by
    have := h.length_le
    omega
  unfold RangeRequest.literal at hprew hshort
  unfold RangeRequest.contains at hc ⊢
  cases he : req.rangeEnd with
  | allKeys => exact ⟨[], by simp, rfl⟩
  | single =>
    -- the literal bytes are the whole key
    simp only [he, decide_eq_true_eq] at hc hshort
    exact absurd (hc ▸ hbytes ▸ List.prefix_append w _) hshort
  | prefixScan =>
    simp only [he] at hprew
    refine ⟨[], by simp, ?_⟩
    simp only [hbytes', List.isPrefixOf_iff_prefix]
    exact hprew.trans (List.prefix_append _ _)
  | explicit e =>
    simp only [he, Bool.and_eq_true, decide_eq_true_eq, hbytes, hbytes'] at hc hprew hshort ⊢
    obtain ⟨hlo, hhi⟩ := hc
    by_cases hwe : w <+: e
    · -- the lower end does not begin with the cut character, so no key after it is too small
      have hkey : ¬ w <+: req.key := fun h => hshort (prefix_commonPrefix h hwe)
      refine ⟨[], by simp, ?_, ?_⟩
      · by_contra hno
        have hno := not_le.1 hno
        exact absurd hlo (not_le.2 ((LexInterval.append_lt_iff_of_not_prefix hkey).1 hno))
      · obtain ⟨e', rfl⟩ := hwe
        refine lt_of_le_of_lt ?_ hhi
        exact LexInterval.append_le_append_iff.2 (LexInterval.nil_le _)
    · refine ⟨withoutReplacement rest, replacement_not_mem rest, ?_, ?_⟩
      · exact hlo.trans (LexInterval.append_le_append_iff.2 (bytes_le_withoutReplacement rest))
      · exact (LexInterval.append_lt_iff_of_not_prefix hwe).1 hhi

/-- The preselection keeps every key of the interval exactly when the literal bytes cut no character
of such a key, apart from replacement characters. -/
theorem likePattern_keeps_iff (req : RangeRequest) :
    (∀ name : String, backendContains req (ofString name) = true →
      SqlLike.like (likePattern req).toList name.toList = true) ↔
    ∀ name : String, backendContains req (ofString name) = true → CutHarmless req name := by
  constructor
  · intro h name hc c hcut
    by_contra hne
    obtain ⟨rest, hrest, hc'⟩ := exists_key hc hcut
    have hkept := h _ hc'
    rw [not_like_of_cut hc hcut hne hrest (String.toList_ofList)] at hkept
    cases hkept
  · intro h name hc
    exact like_of_cutHarmless hc (h name hc)

/-- A prefix of one byte, the first of the two bytes of `é`, loses the key `é`. -/
theorem likePattern_drops :
    validateRange (.ofPrefix [0xC3]) = .ok () ∧
      backendContains (.ofPrefix [0xC3]) (ofString "é") = true ∧
      SqlLike.like (likePattern (.ofPrefix [0xC3])).toList "é".toList = false := by
  decide

end CaveHome.Kine
