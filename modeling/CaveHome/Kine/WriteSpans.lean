import CaveHome.Kine.Txn
import CaveHome.Lib.LexInterval

/-!
# The spans of write operations

A branch of a transaction is refused when the spans of two of its writes overlap.  The span of a
write is the set of keys it can write, with one exception: a delete of the whole keyspace is given
the span of the keys from its own key on.  `checkDisjointWrites_iff` says for which branches the
check is exact nevertheless.
-/

namespace CaveHome.Kine

/-! ## The keys that begin with a key -/

theorem byte_le_max (x : UInt8) : x ≤ 0xFF := by
  rw [UInt8.le_iff_toNat_le]
  have := x.toNat_lt
  show x.toNat ≤ 255
  omega

theorem byte_zero_le (x : UInt8) : 0 ≤ x := by
  rw [UInt8.le_iff_toNat_le]
  exact Nat.zero_le _

theorem byte_covBy {a : UInt8} (h : a < 0xFF) : a ⋖ a + 1 := by
  have hlt : a.toNat < 255 := UInt8.lt_iff_toNat_lt.1 h
  have hnext : (a + 1).toNat = a.toNat + 1 := by
    rw [UInt8.toNat_add]
    show (a.toNat + 1) % 256 = a.toNat + 1
    omega
  refine ⟨UInt8.lt_iff_toNat_lt.2 (by omega), fun c hac hca => ?_⟩
  have h1 := UInt8.lt_iff_toNat_lt.1 hac
  have h2 := UInt8.lt_iff_toNat_lt.1 hca
  omega

theorem bumpLast_cases (key : Bytes) :
    ((∀ x ∈ key, x = 0xFF) ∧ bumpLast key.reverse = none) ∨
      ∃ l a ts, key = l ++ a :: ts ∧ (∀ x ∈ ts, x = 0xFF) ∧ a < 0xFF ∧
        bumpLast key.reverse = some (l ++ [a + 1]).reverse := by
  induction key using List.reverseRecOn with
  | nil => exact Or.inl ⟨by simp, rfl⟩
  | append_singleton key b ih =>
    rw [List.reverse_append, List.reverse_singleton, List.singleton_append, bumpLast]
    by_cases hb : b < 0xFF
    · rw [if_pos hb]
      exact Or.inr ⟨key, b, [], rfl, by simp, hb, by simp⟩
    · rw [if_neg hb]
      have hb : b = 0xFF := le_antisymm (byte_le_max b) (not_lt.1 hb)
      subst hb
      rcases ih with ⟨hall, hnone⟩ | ⟨l, a, ts, rfl, hts, ha, hsome⟩
      · refine Or.inl ⟨fun x hx => ?_, hnone⟩
        rcases List.mem_append.1 hx with hx | hx
        · exact hall x hx
        · exact List.mem_singleton.1 hx
      · refine Or.inr ⟨l, a, ts ++ [0xFF], by simp, fun x hx => ?_, ha, hsome⟩
        rcases List.mem_append.1 hx with hx | hx
        · exact hts x hx
        · exact List.mem_singleton.1 hx

theorem isPrefixOf_iff_mem (key k : Bytes) :
    key.isPrefixOf k = true ↔ LexInterval.Mem key (prefixUpper key) k := by
  rw [List.isPrefixOf_iff_prefix]
  unfold prefixUpper
  rcases bumpLast_cases key with ⟨hall, hnone⟩ | ⟨l, a, ts, rfl, hts, ha, hsome⟩
  · rw [hnone, LexInterval.prefix_iff_le_of_tops byte_le_max hall]
    simp [LexInterval.Mem]
  · rw [hsome, LexInterval.prefix_iff_of_tops byte_le_max hts (byte_covBy ha)]
    simp [LexInterval.Mem]

/-! ## The keys of an operation -/

namespace TxnOp

/-- The key an operation names, for those that write. -/
def writeKey? : TxnOp → Option Bytes
  | .range _ => none
  | .put key _ _ => some key
  | .deleteRange key _ => some key

/-- The keys an operation can write: a put its own key, a delete those of its interval. -/
def WritesTo : TxnOp → Bytes → Prop
  | .range _, _ => False
  | .put key _ _, k => k = key
  | .deleteRange key rangeEnd, k => ({ key, rangeEnd } : RangeRequest).contains k = true

/-- Those of them that do not come before the key the operation names. -/
def WritesFrom (op : TxnOp) (k : Bytes) : Prop := op.WritesTo k ∧ ∀ key ∈ op.writeKey?, key ≤ k

/-- A delete of the whole keyspace. -/
def DeletesAll : TxnOp → Prop
  | .deleteRange _ .allKeys => True
  | _ => False

/-- A write names a key, and an explicit end comes after it. -/
def WellFormed : TxnOp → Prop
  | .range _ => True
  | .put key _ _ => key ≠ []
  | .deleteRange key (.explicit e) => key ≠ [] ∧ key < e
  | .deleteRange key _ => key ≠ []

theorem writeSpan_spec {op : TxnOp} (hop : op.WellFormed) {sp : Span} (h : writeSpan op = some sp) :
    (∀ e ∈ sp.hi, sp.lo < e) ∧ ∀ k, op.WritesFrom k ↔ LexInterval.Mem sp.lo sp.hi k := by
  have point : ∀ key k : Bytes, k = key ↔ LexInterval.Mem key (some (key ++ [0])) k := by
    intro key k
    rw [LexInterval.eq_iff_between byte_zero_le]
    simp [LexInterval.Mem]
  have above : ∀ key : Bytes, key < key ++ [0] := fun key => (((point key key).1 rfl).2 _ rfl)
  have upper : ∀ key e : Bytes, prefixUpper key = some e → key < e := by
    intro key e he
    have hself := (isPrefixOf_iff_mem key key).1 (by simp)
    exact hself.2 e he
  cases op with
  | range req => cases h
  | put key value lease =>
    obtain rfl := Option.some.inj h
    refine ⟨by simpa using above key, fun k => ?_⟩
    rw [← point]
    simp only [WritesFrom, WritesTo, writeKey?, Option.mem_def, Option.some.injEq, forall_eq']
    exact ⟨And.left, fun hk => ⟨hk, hk.ge⟩⟩
  | deleteRange key rangeEnd =>
    obtain rfl := Option.some.inj h
    cases rangeEnd with
    | single =>
      refine ⟨by simpa [spanUpper] using above key, fun k => ?_⟩
      refine Iff.trans ?_ (point key k)
      simp only [WritesFrom, WritesTo, writeKey?, RangeRequest.contains, decide_eq_true_eq,
        Option.mem_def, Option.some.injEq, forall_eq']
      exact ⟨And.left, fun hk => ⟨hk, hk.ge⟩⟩
    | prefixScan =>
      refine ⟨fun e he => upper key e he, fun k => ?_⟩
      refine Iff.trans ?_ (isPrefixOf_iff_mem key k)
      simp only [WritesFrom, WritesTo, writeKey?, RangeRequest.contains, Option.mem_def,
        Option.some.injEq, forall_eq']
      exact ⟨And.left, fun hk => ⟨hk, ((isPrefixOf_iff_mem key k).1 hk).1⟩⟩
    | explicit e =>
      refine ⟨by simpa [spanUpper] using hop.2, fun k => ?_⟩
      simp only [WritesFrom, WritesTo, writeKey?, RangeRequest.contains, LexInterval.Mem, spanUpper,
        Bool.and_eq_true, decide_eq_true_eq, Option.mem_def, Option.some.injEq, forall_eq']
      exact ⟨And.left, fun hk => ⟨hk, hk.1⟩⟩
    | allKeys =>
      refine ⟨by simp [spanUpper], fun k => ?_⟩
      simp [WritesFrom, WritesTo, writeKey?, RangeRequest.contains, LexInterval.Mem, spanUpper]

theorem writeSpan_eq_none_iff {op : TxnOp} : writeSpan op = none ↔ op.writeKey? = none := by
  cases op <;> simp [writeSpan, writeKey?]

theorem not_writesTo_of_none {op : TxnOp} (h : op.writeKey? = none) (k : Bytes) :
    ¬ op.WritesTo k := by
  cases op <;> simp_all [WritesTo, writeKey?]

theorem writesTo_writeKey {op : TxnOp} (hop : op.WellFormed) {key : Bytes}
    (h : op.writeKey? = some key) : op.WritesTo key := by
  cases hsp : writeSpan op with
  | none =>
    rw [writeSpan_eq_none_iff.1 hsp] at h
    cases h
  | some sp =>
    have hlo : sp.lo = key := by
      cases op with
      | range req => cases h
      | put k value lease =>
        obtain rfl := Option.some.inj hsp
        exact Option.some.inj h
      | deleteRange k rangeEnd =>
        obtain rfl := Option.some.inj hsp
        exact Option.some.inj h
    obtain ⟨hne, hspec⟩ := writeSpan_spec hop hsp
    have hmem : LexInterval.Mem sp.lo sp.hi key := ⟨hlo.le, hlo ▸ hne⟩
    exact ((hspec key).2 hmem).1

theorem writesFrom_of_writesTo {op : TxnOp} (h : ¬ op.DeletesAll) {k : Bytes} (hk : op.WritesTo k) :
    op.WritesFrom k := by
  refine ⟨hk, ?_⟩
  cases op with
  | range req => exact hk.elim
  | put key value lease => exact fun _ he => Option.some.inj he ▸ hk.ge
  | deleteRange key rangeEnd =>
    rintro _ ⟨⟩
    cases rangeEnd with
    | single => exact (of_decide_eq_true hk).ge
    | prefixScan => exact ((isPrefixOf_iff_mem key k).1 hk).1
    | explicit e => exact of_decide_eq_true (Bool.and_eq_true_iff.1 hk).1
    | allKeys => exact absurd trivial h

end TxnOp

/-! ## The check -/

/-- Two operations write a common key. -/
def SharesKey (a b : TxnOp) : Prop := ∃ k, a.WritesTo k ∧ b.WritesTo k

/-- Two operations write a common key that does not come before the key that either of them
names. -/
def SharesFrom (a b : TxnOp) : Prop := ∃ k, a.WritesFrom k ∧ b.WritesFrom k

/-- A delete of the whole keyspace and another write. -/
def DeletesBeside (a b : TxnOp) : Prop :=
  a.writeKey?.isSome ∧ b.writeKey?.isSome ∧ (a.DeletesAll ∨ b.DeletesAll)

theorem Span.below_iff (sp : Span) (k : Bytes) : sp.below k = true ↔ ∀ e ∈ sp.hi, k < e := by
  obtain ⟨lo, hi⟩ := sp
  cases hi <;> simp [Span.below]

theorem overlaps_iff {a b : TxnOp} (ha : a.WellFormed) (hb : b.WellFormed) {sa sb : Span}
    (hsa : writeSpan a = some sa) (hsb : writeSpan b = some sb) :
    sa.overlaps sb = true ↔ SharesFrom a b := by
  obtain ⟨hea, hka⟩ := TxnOp.writeSpan_spec ha hsa
  obtain ⟨heb, hkb⟩ := TxnOp.writeSpan_spec hb hsb
  unfold SharesFrom
  simp only [hka, hkb]
  rw [LexInterval.exists_mem_iff hea heb, Span.overlaps, Bool.and_eq_true, Span.below_iff,
    Span.below_iff]

theorem anyOverlap_eq_false_iff (spans : List Span) :
    anyOverlap spans = false ↔ spans.Pairwise fun a b => a.overlaps b = false := by
  induction spans with
  | nil => simp [anyOverlap]
  | cons a spans ih => simp [anyOverlap, ih]

theorem checkDisjointWrites_ok_iff {ops : List TxnOp} (hops : ∀ op ∈ ops, op.WellFormed) :
    checkDisjointWrites ops = .ok () ↔ ops.Pairwise fun a b => ¬ SharesFrom a b := by
  have hcheck : checkDisjointWrites ops = .ok () ↔ anyOverlap (ops.filterMap writeSpan) = false := by
    unfold checkDisjointWrites
    cases anyOverlap (ops.filterMap writeSpan) <;> simp
  rw [hcheck, anyOverlap_eq_false_iff, List.pairwise_filterMap]
  refine List.Pairwise.iff_of_mem fun {a b} ha hb => ?_
  have hspan : ∀ sa sb, writeSpan a = some sa → writeSpan b = some sb →
      (sa.overlaps sb = true ↔ SharesFrom a b) := fun _ _ =>
    overlaps_iff (hops a ha) (hops b hb)
  constructor
  · rintro h ⟨k, hka, hkb⟩
    cases hsa : writeSpan a with
    | none => exact TxnOp.not_writesTo_of_none (TxnOp.writeSpan_eq_none_iff.1 hsa) k hka.1
    | some sa =>
      cases hsb : writeSpan b with
      | none => exact TxnOp.not_writesTo_of_none (TxnOp.writeSpan_eq_none_iff.1 hsb) k hkb.1
      | some sb =>
        have hover := (hspan sa sb hsa hsb).2 ⟨k, hka, hkb⟩
        rw [h sa hsa sb hsb] at hover
        cases hover
  · intro h sa hsa sb hsb
    by_contra hover
    exact h ((hspan sa sb hsa hsb).1 (by simpa using hover))

theorem sharesKey_of_sharesFrom {a b : TxnOp} (h : SharesFrom a b) : SharesKey a b := by
  obtain ⟨k, ha, hb⟩ := h
  exact ⟨k, ha.1, hb.1⟩

theorem sharesKey_of_deletesBeside {a b : TxnOp} (ha : a.WellFormed) (hb : b.WellFormed)
    (h : DeletesBeside a b) : SharesKey a b := by
  obtain ⟨hka, hkb, hall⟩ := h
  obtain ⟨ka, hka⟩ := Option.isSome_iff_exists.1 hka
  obtain ⟨kb, hkb⟩ := Option.isSome_iff_exists.1 hkb
  have all : ∀ op : TxnOp, op.DeletesAll → ∀ k, op.WritesTo k := by
    intro op hop k
    unfold TxnOp.DeletesAll at hop
    split at hop
    · rfl
    · exact hop.elim
  rcases hall with hall | hall
  · exact ⟨kb, all a hall kb, TxnOp.writesTo_writeKey hb hkb⟩
  · exact ⟨ka, TxnOp.writesTo_writeKey ha hka, all b hall ka⟩

/-- For operations that name keys and intervals properly, the check is exact, it accepts a branch
exactly when no key is written twice, if and only if no delete of the whole keyspace stands beside
another write, or two writes meet even on the keys from their own key on. -/
theorem checkDisjointWrites_iff (ops : List TxnOp) (hops : ∀ op ∈ ops, op.WellFormed) :
    (checkDisjointWrites ops = .ok () ↔ ops.Pairwise fun a b => ¬ SharesKey a b) ↔
      (ops.Pairwise fun a b => ¬ DeletesBeside a b) ∨
        ¬ ops.Pairwise fun a b => ¬ SharesFrom a b := by
  rw [checkDisjointWrites_ok_iff hops]
  constructor
  · intro h
    by_cases hfrom : ops.Pairwise fun a b => ¬ SharesFrom a b
    · refine Or.inl ((h.1 hfrom).imp_of_mem fun {a b} ha hb hno hbeside => ?_)
      exact hno (sharesKey_of_deletesBeside (hops a ha) (hops b hb) hbeside)
    · exact Or.inr hfrom
  · intro h
    refine ⟨fun hfrom => ?_, fun hkey => hkey.imp fun hno hsh => hno (sharesKey_of_sharesFrom hsh)⟩
    have hbeside := h.resolve_right (not_not_intro hfrom)
    refine (hfrom.and hbeside).imp ?_
    rintro a b ⟨hno, hapart⟩ ⟨k, ha, hb⟩
    have hka : a.writeKey?.isSome = true := by
      by_contra hnone
      exact TxnOp.not_writesTo_of_none (by simpa using hnone) k ha
    have hkb : b.writeKey?.isSome = true := by
      by_contra hnone
      exact TxnOp.not_writesTo_of_none (by simpa using hnone) k hb
    have ha' : ¬ a.DeletesAll := fun hall => hapart ⟨hka, hkb, Or.inl hall⟩
    have hb' : ¬ b.DeletesAll := fun hall => hapart ⟨hka, hkb, Or.inr hall⟩
    exact hno ⟨k, TxnOp.writesFrom_of_writesTo ha' ha, TxnOp.writesFrom_of_writesTo hb' hb⟩

/-- A put and a delete of the keys with another prefix: the check is exact. -/
theorem checkDisjointWrites_prefix :
    checkDisjointWrites [.put [97] [1] 0, .deleteRange [98] .prefixScan] = .ok () ↔
      [TxnOp.put [97] [1] 0, .deleteRange [98] .prefixScan].Pairwise fun a b => ¬ SharesKey a b :=
  (checkDisjointWrites_iff [.put [97] [1] 0, .deleteRange [98] .prefixScan]
    (by simp [TxnOp.WellFormed])).2 (Or.inl (by simp [DeletesBeside, TxnOp.DeletesAll]))

/-- A put of a key and a delete of the whole keyspace that names a later key are accepted. -/
theorem checkDisjointWrites_allKeys :
    checkDisjointWrites [.put [97] [1] 0, .deleteRange [98] .allKeys] = .ok () ∧
      (∀ op ∈ [TxnOp.put [97] [1] 0, .deleteRange [98] .allKeys], op.WellFormed) ∧
      ¬ [TxnOp.put [97] [1] 0, .deleteRange [98] .allKeys].Pairwise fun a b => ¬ SharesKey a b := by
  refine ⟨by decide, by simp [TxnOp.WellFormed], fun h => ?_⟩
  have hno := (List.pairwise_cons.1 h).1 _ (List.mem_singleton_self _)
  exact hno ⟨[97], rfl, rfl⟩

end CaveHome.Kine
