import CaveHome.Kine.CompactReads

/-!
# Guards across a compaction

Four of the targets of a comparison are read from the live row of the key, which a compaction
keeps.  The version is counted in the log: it is the number of rows of the live generation, and a
compaction drops the older ones of them.  `evalCompare_compact_iff` says which comparisons give the
same answer before and after a compaction.
-/

namespace CaveHome.Kine

/-- The rows of one generation of a key that are not tombstones. -/
def generationRows (s : Store) (key : Bytes) (generation : Int) : List Row :=
  s.rows.filter fun r =>
    decide (r.key = key) && decide (r.createRevision = generation) && !r.deleted

/-- The number of writes of a key's live generation that a compaction to `target` drops: those at or
below it that an update of the key has followed. -/
def droppedWrites (s : Store) (key : Bytes) (target : Int) : Nat :=
  match s.getLive key with
  | none => 0
  | some live => ((generationRows s key live.createRevision).filter fun r =>
      decide (r.modRevision ≤ target) && decide (r.modRevision < live.modRevision)).length

/-- The live rows that share the revision of a compacted tombstone that is the newest row of its
key.  There are none before the end of the clock. -/
def sharingRows (s : Store) (key : Bytes) (target : Int) : List Row :=
  match s.latestRow key with
  | none => []
  | some d => s.rows.filter fun r => d.deleted && decide (d.modRevision ≤ target) &&
      decide (r.key = key) && !r.deleted && decide (r.modRevision = d.modRevision)

/-! ## Readings -/

/-- The answer of a comparison that reads the live row `live` and the version `version`. -/
def Compare.answer (c : Compare) (live : Option Row) (version : Int) : Result Bool :=
  match c.target, c.operand with
  | .value, .bytes want => .ok (c.result.accepts (cmp ((live.map Row.value).getD []) want))
  | .createRevision, .int want =>
    .ok (c.result.accepts (cmp ((live.map Row.createRevision).getD 0) want))
  | .modRevision, .int want =>
    .ok (c.result.accepts (cmp ((live.map Row.modRevision).getD 0) want))
  | .lease, .int want => .ok (c.result.accepts (cmp ((live.map Row.lease).getD 0) want))
  | .version, .int want => .ok (c.result.accepts (cmp version want))
  | _, _ => .error .txnCompareTypeMismatch

theorem evalCompare_eq_answer (s : Store) (c : Compare) :
    evalCompare s c = c.answer (s.getLive c.key) (versionOf s c.key) := rfl

/-- The operator tells `lo` from `hi` when both are compared with `want`. -/
def CompareResult.separates (op : CompareResult) (lo want hi : Int) : Prop :=
  match op with
  | .equal | .notEqual => lo ≠ hi ∧ (want = lo ∨ want = hi)
  | .greater => lo ≤ want ∧ want < hi
  | .less => lo < want ∧ want ≤ hi

instance (op : CompareResult) (lo want hi : Int) : Decidable (op.separates lo want hi) := by
  unfold CompareResult.separates
  cases op <;> exact inferInstance

theorem accepts_eq_iff (op : CompareResult) {lo hi : Int} (h : lo ≤ hi) (want : Int) :
    op.accepts (cmp lo want) = op.accepts (cmp hi want) ↔ ¬ op.separates lo want hi := by
  have hcmp : ∀ a : Int, cmp a want = if a < want then .lt else if a = want then .eq else .gt := by
    intro a
    obtain hlt | heq | hgt := lt_trichotomy a want
    · rw [(cmp_eq_lt_iff a want).2 hlt, if_pos hlt]
    · rw [(cmp_eq_eq_iff a want).2 heq, if_neg (by omega), if_pos heq]
    · rw [(cmp_eq_gt_iff a want).2 hgt, if_neg (by omega), if_neg (by omega)]
  rw [hcmp lo, hcmp hi]
  unfold CompareResult.separates CompareResult.accepts
  cases op <;> split_ifs <;> simp [Ordering.isEq, Ordering.isNe, Ordering.isGT, Ordering.isLT] <;>
    omega

/-! ## The live row of a key across a compaction -/

section Compaction

variable {s s' : Store} {target : Int} {key : Bytes} {live d : Row}

theorem versionOf_of_live (h : s.getLive key = some live) :
    versionOf s key = (generationRows s key live.createRevision).length := by
  unfold versionOf
  rw [h]
  rfl

theorem Store.Wf.rev_le_of_latestRow (hs : s.Wf) (h : s.latestRow key = some d) {q : Row}
    (hq : q ∈ s.rows) (hk : q.key = key) : q.modRevision ≤ d.modRevision :=
  VersionedLog.rev_le_of_last hs.pairwise_le h hq hk

theorem latestRow_compacted (hc : Compacts s target s') (h : s.latestRow key = some d)
    (hd : d ∈ s'.rows) : s'.latestRow key = some d := by
  rw [Store.latestRow_eq_last, VersionedLog.last_eq_some_iff] at h ⊢
  rw [hc.rows] at hd ⊢
  generalize retains (latestRowRevisionPerKey s.rows) target = keep at hd ⊢
  obtain ⟨hk, as, bs, hl, hb⟩ := h
  refine ⟨hk, as.filter keep, bs.filter keep, ?_, fun b hm => hb b (List.mem_of_mem_filter hm)⟩
  rw [hl, List.filter_append, List.filter_cons_of_pos (List.mem_filter.1 hd).2]

theorem getLive_compacted (hs : s.Wf) (hc : Compacts s target s')
    (h : s.getLive key = some live) : s'.getLive key = some live := by
  rw [Store.getLive_eq_some_iff] at h ⊢
  obtain ⟨hl, hlive⟩ := h
  have hmem : live ∈ s.rows := VersionedLog.last_mem hl
  have hkey : live.key = key := VersionedLog.last_key hl
  have hkept : live ∈ s'.rows := by
    rw [mem_compacted hc]
    refine ⟨hmem, Or.inr ⟨hlive, fun q hq hqk => ?_⟩⟩
    exact hs.rev_le_of_latestRow hl hq (hqk.trans hkey)
  exact ⟨latestRow_compacted hc hl hkept, hlive⟩

theorem versionOf_compacted (hs : s.Wf) (hc : Compacts s target s')
    (h : s.getLive key = some live) :
    versionOf s key = versionOf s' key + droppedWrites s key target := by
  have hl := (Store.getLive_eq_some_iff.1 h).1
  have hmem : live ∈ s.rows := VersionedLog.last_mem hl
  have hkey : live.key = key := VersionedLog.last_key hl
  have hkept : generationRows s' key live.createRevision =
      (generationRows s key live.createRevision).filter
        (retains (latestRowRevisionPerKey s.rows) target) := by
    unfold generationRows
    rw [hc.rows, List.filter_filter, List.filter_filter]
    exact List.filter_congr fun r _ => Bool.and_comm _ _
  have hdropped : droppedWrites s key target =
      ((generationRows s key live.createRevision).filter fun r =>
        !retains (latestRowRevisionPerKey s.rows) target r).length := by
    unfold droppedWrites
    rw [h]
    refine congrArg List.length (List.filter_congr fun r hr => ?_)
    obtain ⟨hr, hp⟩ := List.mem_filter.1 hr
    simp only [Bool.and_eq_true, decide_eq_true_eq, Bool.not_eq_true'] at hp
    -- a row of the generation is retained when it is above the target or at the live row
    have hret : retains (latestRowRevisionPerKey s.rows) target r = true ↔
        target < r.modRevision ∨ live.modRevision ≤ r.modRevision := by
      rw [retains_iff hr]
      refine or_congr_right ⟨fun hmax => hmax.2 live hmem (hkey.trans hp.1.1.symm), fun hle => ?_⟩
      refine ⟨by simp [Row.isLive, hp.2], fun q hq hqk => ?_⟩
      exact (hs.rev_le_of_latestRow hl hq (hqk.trans hp.1.1)).trans hle
    rw [Bool.eq_iff_iff]
    simp only [Bool.and_eq_true, decide_eq_true_eq, Bool.not_eq_true', ← Bool.not_eq_true, hret]
    omega
  rw [versionOf_of_live h, versionOf_of_live (getLive_compacted hs hc h), hkept, hdropped]
  exact_mod_cast List.length_eq_length_filter_add _

theorem keyRows_compacted (hs : s.Wf) (hc : Compacts s target s') (h : s.latestRow key = some d)
    (hdel : d.deleted = true) (hle : d.modRevision ≤ target) :
    (s'.rows.filter fun r => decide (r.key = key)) = sharingRows s key target := by
  have hkey : d.key = key := VersionedLog.last_key h
  unfold sharingRows
  rw [h, hc.rows, List.filter_filter]
  refine List.filter_congr fun r hr => ?_
  rw [Bool.eq_iff_iff]
  simp only [Bool.and_eq_true, decide_eq_true_eq, Bool.not_eq_true', retains_iff hr, hdel, hle,
    true_and]
  constructor
  · rintro ⟨hk, hret⟩
    have htop := hs.rev_le_of_latestRow h hr hk
    obtain ⟨hlive, hmax⟩ := hret.resolve_left (by omega)
    have hd := hmax d (VersionedLog.last_mem h) (hkey.trans hk.symm)
    exact ⟨⟨hk, by simpa [Row.isLive] using hlive⟩, by omega⟩
  · rintro ⟨⟨hk, hlive⟩, hrev⟩
    refine ⟨hk, Or.inr ⟨by simp [Row.isLive, hlive], fun q hq hqk => ?_⟩⟩
    have := hs.rev_le_of_latestRow h hq (hqk.trans hk)
    omega

theorem getLive_compacted_dead (hs : s.Wf) (hc : Compacts s target s')
    (h : s.getLive key = none) : s'.getLive key = (sharingRows s key target).getLast? := by
  cases hl : s.latestRow key with
  | none =>
    have hnone : s'.latestRow key = none := by
      rw [Store.latestRow_eq_last, VersionedLog.last_eq_none_iff] at hl ⊢
      exact fun r hr => hl r ((mem_compacted hc).1 hr).1
    simp [Store.getLive, sharingRows, hl, hnone]
  | some d =>
    have hdel : d.deleted = true := by
      by_contra hlive
      have : s.getLive key = some d :=
        Store.getLive_eq_some_iff.2 ⟨hl, by simpa [Row.isLive] using hlive⟩
      rw [h] at this
      cases this
    by_cases hle : d.modRevision ≤ target
    · have hrows := keyRows_compacted hs hc hl hdel hle
      have hlast : s'.latestRow key = (sharingRows s key target).getLast? := by
        rw [Store.latestRow_eq_last, VersionedLog.last_eq_getLast?, hrows]
      unfold Store.getLive
      rw [hlast]
      cases hlast' : (sharingRows s key target).getLast? with
      | none => rfl
      | some r =>
        have hr := List.mem_of_getLast? hlast'
        simp only [sharingRows, hl, List.mem_filter, Bool.and_eq_true, Bool.not_eq_true'] at hr
        simp [Option.filter_some, Row.isLive, hr.2.1.2]
    · -- the tombstone is above the target and stays
      have hkept : d ∈ s'.rows := (mem_compacted hc).2 ⟨VersionedLog.last_mem hl, Or.inl (by omega)⟩
      have hnone : sharingRows s key target = [] := by simp [sharingRows, hl, hle]
      simp [Store.getLive, latestRow_compacted hc hl hkept, hnone, Row.isLive, hdel]

theorem versionOf_of_dead (h : s.getLive key = none) : versionOf s key = 0 := by
  unfold versionOf
  rw [h]
  rfl

theorem versionOf_compacted_dead (hs : s.Wf) (hc : Compacts s target s')
    (h : s.getLive key = none) (hlive : s'.getLive key = some live) :
    versionOf s' key = ((sharingRows s key target).filter fun r =>
      decide (r.createRevision = live.createRevision)).length := by
  rw [getLive_compacted_dead hs hc h] at hlive
  have hmem := List.mem_of_getLast? hlive
  cases hl : s.latestRow key with
  | none => simp [sharingRows, hl] at hmem
  | some d =>
    simp only [sharingRows, hl, List.mem_filter, Bool.and_eq_true, decide_eq_true_eq] at hmem
    have hrows := keyRows_compacted hs hc hl hmem.2.1.1.1.1 hmem.2.1.1.1.2
    have hshow : s'.getLive key = some live := by
      rw [getLive_compacted_dead hs hc h]
      exact hlive
    rw [versionOf_of_live hshow]
    unfold generationRows
    have hsplit : (s'.rows.filter fun r => decide (r.key = key) &&
        decide (r.createRevision = live.createRevision) && !r.deleted) =
        (s'.rows.filter fun r => decide (r.key = key)).filter fun r =>
          decide (r.createRevision = live.createRevision) && !r.deleted := by
      rw [List.filter_filter]
      exact List.filter_congr fun r _ => by
        rw [Bool.and_assoc, Bool.and_comm]
    rw [hsplit, hrows]
    refine congrArg (fun l : List Row => (l.length : Int)) (List.filter_congr fun r hr => ?_)
    simp only [sharingRows, hl, List.mem_filter, Bool.and_eq_true, Bool.not_eq_true'] at hr
    simp [hr.2.1.2]

end Compaction

/-! ## The comparisons that give the same answer -/

/-- When a comparison gives the same answer after a compaction to `target`.  For a live key only the
version can differ: the operator must not tell the version from what is left of it.  A key without
a live row reads as missing, unless the compaction uncovers a row by dropping its tombstone. -/
def GuardKept (s : Store) (target : Int) (c : Compare) : Prop :=
  match s.getLive c.key with
  | some _ =>
    match c.target, c.operand with
    | .version, .int want => ¬ c.result.separates
        (versionOf s c.key - droppedWrites s c.key target) want (versionOf s c.key)
    | _, _ => True
  | none => ∀ live ∈ (sharingRows s c.key target).getLast?,
      c.answer (some live) ((sharingRows s c.key target).filter fun r =>
        decide (r.createRevision = live.createRevision)).length = c.answer none 0

instance (s : Store) (target : Int) (c : Compare) : Decidable (GuardKept s target c) := by
  unfold GuardKept
  split
  · split <;> exact inferInstance
  · exact inferInstance

theorem answer_eq_iff (c : Compare) (live : Row) {lo hi : Int} (h : lo ≤ hi) :
    c.answer (some live) lo = c.answer (some live) hi ↔
      match c.target, c.operand with
      | .version, .int want => ¬ c.result.separates lo want hi
      | _, _ => True := by
  obtain ⟨key, target, result, operand⟩ := c
  cases target <;> cases operand <;> try exact iff_true_intro rfl
  case version.int want =>
    exact (iff_of_eq (Except.ok.injEq _ _)).trans (accepts_eq_iff result h want)

/-- A comparison gives the same answer before and after a compaction exactly when its guard is
kept. -/
theorem evalCompare_compact_iff (ops : List StoreOp) (target : Int) (c : Compare)
    (report : CompactReport) (hok : (compact (run .new ops) target).1 = .ok report) :
    evalCompare (compact (run .new ops) target).2 c = evalCompare (run .new ops) c ↔
      GuardKept (run .new ops) target c := by
  have hs := Store.wf_run ops
  have hc : Compacts (run .new ops) target (compact (run .new ops) target).2 := by
    rcases compact_cases (run .new ops) target with ⟨⟨e, he⟩, -⟩ | ⟨-, h⟩
    · rw [hok] at he
      cases he
    · exact h
  generalize (compact (run .new ops) target).2 = s' at hc
  generalize run .new ops = s at hs hc
  rw [evalCompare_eq_answer, evalCompare_eq_answer]
  unfold GuardKept
  cases hl : s.getLive c.key with
  | some live =>
    have hv := versionOf_compacted hs hc hl
    rw [getLive_compacted hs hc hl]
    have heq : versionOf s c.key - droppedWrites s c.key target = versionOf s' c.key := by omega
    rw [heq]
    exact answer_eq_iff c live (by omega)
  | none =>
    have hafter := getLive_compacted_dead hs hc hl
    rw [versionOf_of_dead hl, hafter]
    cases hlast : (sharingRows s c.key target).getLast? with
    | none =>
      rw [hlast] at hafter
      simp [versionOf_of_dead hafter]
    | some live =>
      rw [hlast] at hafter
      rw [versionOf_compacted_dead hs hc hl hafter]
      simp

/-- A key is written three times and the log is compacted at the second: that there was a write at
all is answered as before. -/
theorem evalCompare_compact_kept :
    evalCompare (compact (run .new [.put [107] [1] 0, .put [107] [2] 0, .put [107] [3] 0]) 2).2
        ⟨[107], .version, .greater, .int 0⟩ =
      evalCompare (run .new [.put [107] [1] 0, .put [107] [2] 0, .put [107] [3] 0])
        ⟨[107], .version, .greater, .int 0⟩ :=
  (evalCompare_compact_iff _ 2 ⟨[107], .version, .greater, .int 0⟩ ⟨2, 2, 1⟩ (by decide)).2
    (by decide)

/-- The version itself falls from three to one. -/
theorem evalCompare_compact_lost :
    (compact (run .new [.put [107] [1] 0, .put [107] [2] 0, .put [107] [3] 0]) 2).1 =
      .ok ⟨2, 2, 1⟩ ∧
    validateCompare ⟨[107], .version, .equal, .int 3⟩ = .ok () ∧
    evalCompare (run .new [.put [107] [1] 0, .put [107] [2] 0, .put [107] [3] 0])
      ⟨[107], .version, .equal, .int 3⟩ = .ok true ∧
    evalCompare (compact (run .new [.put [107] [1] 0, .put [107] [2] 0, .put [107] [3] 0]) 2).2
      ⟨[107], .version, .equal, .int 3⟩ = .ok false := by
  decide

end CaveHome.Kine
