import CaveHome.Kine.Invariant

/-!
# Reads across a compaction

Compaction keeps, at or below its floor, only rows that are the newest of their key in the whole
log.  A read between the floor and a later overwrite therefore loses the row that was newest at the
time it reads.  The file says exactly which reads are the same before and after a compaction.
-/

namespace CaveHome.Kine

section Reads

variable {s s' : Store} {req : RangeRequest} {target t : Int}

/-- A live row at or below the floor that is replaced after the read was already replaced before
it. -/
def ReplacedInTime (s : Store) (req : RangeRequest) (target t : Int) : Prop :=
  ∀ r ∈ s.rows, req.contains r.key = true → r.isLive = true → r.modRevision ≤ target →
    (∃ q ∈ s.rows, q.key = r.key ∧ t < q.modRevision) →
    ∃ q ∈ s.rows, q.key = r.key ∧ r.modRevision < q.modRevision ∧ q.modRevision ≤ t

/-- No live row has the revision of a compacted tombstone that is the newest row of its key.  Two
rows share a revision only at the end of the clock. -/
def NoSharedTombstone (s : Store) (req : RangeRequest) (target : Int) : Prop :=
  ∀ r ∈ s.rows, req.contains r.key = true → r.isLive = true →
    ∀ d ∈ s.latestRow r.key, d.isLive = false → d.modRevision ≤ target →
      d.modRevision ≠ r.modRevision

instance : Decidable (ReplacedInTime s req target t) :=
  decidable_of_iff (∀ r ∈ s.rows, ¬ (req.contains r.key = true ∧ r.isLive = true ∧
      r.modRevision ≤ target ∧ ∃ q ∈ s.rows, q.key = r.key ∧ t < q.modRevision) ∨
      ∃ q ∈ s.rows, q.key = r.key ∧ r.modRevision < q.modRevision ∧ q.modRevision ≤ t) <| by
    simp only [ReplacedInTime, ← imp_iff_not_or, and_imp]

instance : Decidable (NoSharedTombstone s req target) :=
  decidable_of_iff (∀ r ∈ s.rows, ∀ d ∈ s.latestRow r.key, ¬ (req.contains r.key = true ∧
      r.isLive = true ∧ d.isLive = false ∧ d.modRevision ≤ target ∧
      d.modRevision = r.modRevision)) <| by
    simp only [NoSharedTombstone, not_and]
    exact ⟨fun h r hr hc hl d hd hx hm => h r hr d hd hc hl hx hm,
      fun h r hr d hd hc hl hx hm => h r hr hc hl d hd hx hm⟩

theorem Store.Wf.eq_or_max (h : s.Wf) {a b : Row} (ha : a ∈ s.rows) (hb : b ∈ s.rows)
    (hab : a.modRevision = b.modRevision) : a = b ∨ a.modRevision = I64.maxValue := by
  let R : Row → Row → Prop := fun a b =>
    a.modRevision = b.modRevision → a.modRevision = I64.maxValue
  have : Std.Symm R := ⟨fun a b hR he => he.trans (hR he.symm)⟩
  have hR : s.rows.Pairwise R := h.sorted.imp fun hab he => by omega
  by_cases hne : a = b
  · exact Or.inl hne
  · exact Or.inr (hR.forall ha hb hne hab)

theorem mem_compacted (hc : Compacts s target s') {r : Row} :
    r ∈ s'.rows ↔ r ∈ s.rows ∧ (target < r.modRevision ∨
      r.isLive = true ∧ ∀ q ∈ s.rows, q.key = r.key → q.modRevision ≤ r.modRevision) := by
  rw [hc.rows, List.mem_filter]
  exact and_congr_right fun hr => retains_iff hr

theorem latestAt_compacted (hc : Compacts s target s') {k : Bytes} {r : Row}
    (h : latestAt s k t = some r) (hr : r ∈ s'.rows) : latestAt s' k t = some r := by
  rw [hc.rows] at hr
  rw [latestAt_eq_lastAt, hc.rows]
  exact VersionedLog.lastAt_filter h (List.mem_filter.1 hr).2

theorem visibleRows_subset (hs : s.Wf) (hc : Compacts s target s')
    (hA : ReplacedInTime s req target t) : visibleRows s req t ⊆ visibleRows s' req t := by
  intro r hr
  rw [mem_visibleRows] at hr ⊢
  obtain ⟨hl, hlive, hk⟩ := hr
  refine ⟨latestAt_compacted hc hl ?_, hlive, hk⟩
  have hmem := (VersionedLog.lastAt_mem hl).1
  refine (mem_compacted hc).2 ⟨hmem, ?_⟩
  by_cases hgt : target < r.modRevision
  · exact Or.inl hgt
  refine Or.inr ⟨hlive, fun q hq hqk => ?_⟩
  by_contra hlt
  by_cases hqt : q.modRevision ≤ t
  · exact hlt (VersionedLog.rev_le_of_lastAt hs.pairwise_le hl hq hqk hqt)
  · -- the row is replaced after the read, hence before it as well, and is not the one shown
    obtain ⟨q', hq', hk', hgt', hle'⟩ := hA r hmem hk hlive (by omega) ⟨q, hq, hqk, by omega⟩
    have := VersionedLog.rev_le_of_lastAt hs.pairwise_le hl hq' hk' hle'
    omega

theorem replacedInTime_of_subset (hs : s.Wf) (hc : Compacts s target s') (ht : target ≤ t)
    (hsub : visibleRows s req t ⊆ visibleRows s' req t) : ReplacedInTime s req target t := by
  rintro r hr hk hlive hle ⟨q, hq, hqk, hqt⟩
  by_contra hno
  push Not at hno
  obtain ⟨r₀, h₀⟩ := VersionedLog.exists_lastAt Row.key hr (hle.trans ht)
  have hmem₀ := VersionedLog.lastAt_mem h₀
  have hge := VersionedLog.rev_le_of_lastAt hs.pairwise_le h₀ hr rfl (hle.trans ht)
  have heq : r.modRevision = r₀.modRevision := by
    by_contra hne
    have := hno r₀ hmem₀.1 hmem₀.2.1 (by omega)
    omega
  have hqmax := (hs.le_current q hq).trans hs.current_le
  obtain rfl | hmax := hs.eq_or_max hr hmem₀.1 heq
  · -- `r` is shown before the compaction, but it is dropped
    have hvis := hsub (mem_visibleRows.2 ⟨h₀, hlive, hk⟩)
    have hkept := (VersionedLog.lastAt_mem (mem_visibleRows.1 hvis).1).1
    rcases ((mem_compacted hc).1 hkept).2 with h | ⟨-, h⟩
    · omega
    · have := h q hq hqk
      omega
  · omega

theorem visibleRows_subset_of_compacts (hs : s.Wf) (hc : Compacts s target s')
    (hB : NoSharedTombstone s req target) : visibleRows s' req t ⊆ visibleRows s req t := by
  intro r hr
  rw [mem_visibleRows] at hr ⊢
  obtain ⟨hl, hlive, hk⟩ := hr
  refine ⟨?_, hlive, hk⟩
  obtain ⟨hmem', -, hrt⟩ := VersionedLog.lastAt_mem hl
  obtain ⟨hmem, hkept⟩ := (mem_compacted hc).1 hmem'
  obtain ⟨r₀, h₀⟩ := VersionedLog.exists_lastAt Row.key hmem hrt
  obtain ⟨hmem₀, hk₀, ht₀⟩ := VersionedLog.lastAt_mem h₀
  by_cases hkept₀ : r₀ ∈ s'.rows
  · have h₁ : latestAt s' r.key t = some r₀ := latestAt_compacted hc h₀ hkept₀
    exact hl.symm.trans h₁ ▸ h₀
  -- the row shown before was dropped, so it is a tombstone with the revision of `r`
  exfalso
  have hge := VersionedLog.rev_le_of_lastAt hs.pairwise_le h₀ hmem rfl hrt
  have hdrop : ¬ (target < r₀.modRevision ∨ r₀.isLive = true ∧
      ∀ q ∈ s.rows, q.key = r₀.key → q.modRevision ≤ r₀.modRevision) :=
    fun h => hkept₀ ((mem_compacted hc).2 ⟨hmem₀, h⟩)
  push Not at hdrop
  obtain ⟨hle₀, hdead⟩ := hdrop
  obtain ⟨-, hmax⟩ : r.isLive = true ∧
      ∀ q ∈ s.rows, q.key = r.key → q.modRevision ≤ r.modRevision := by
    rcases hkept with h | h
    · omega
    · exact h
  have hsame : r₀.modRevision = r.modRevision := le_antisymm (hmax r₀ hmem₀ hk₀) hge
  have hdead₀ : r₀.isLive = false := by
    by_contra hlive₀
    obtain ⟨q, hq, hqk, hqlt⟩ := hdead (by simpa using hlive₀)
    have := hmax q hq (hqk.trans hk₀)
    omega
  have hlast : s.latestRow r.key = some r₀ := by
    obtain rfl | hM := hs.eq_or_max hmem₀ hmem hsame
    · rw [hlive] at hdead₀
      cases hdead₀
    · have hall : ∀ q ∈ s.rows, q.modRevision ≤ t := fun q hq => by
        have := (hs.le_current q hq).trans hs.current_le
        omega
      rw [← latestAt_eq_latestRow hall]
      exact h₀
  exact hB r hmem hk hlive r₀ hlast hdead₀ hle₀ hsame

theorem noSharedTombstone_of_subset (hs : s.Wf) (hc : Compacts s target s') (ht : target ≤ t)
    (hsub : visibleRows s' req t ⊆ visibleRows s req t) : NoSharedTombstone s req target := by
  intro r hr hk hlive d hd hdead hdt hsame
  have hdmem := VersionedLog.last_mem hd
  have hM : d.modRevision = I64.maxValue := by
    obtain rfl | hM := hs.eq_or_max hdmem hr hsame
    · rw [hlive] at hdead
      cases hdead
    · exact hM
  have hbound : ∀ q ∈ s.rows, q.modRevision ≤ I64.maxValue := fun q hq =>
    (hs.le_current q hq).trans hs.current_le
  have hall : ∀ q ∈ s.rows, q.modRevision ≤ t := fun q hq => by
    have := hbound q hq
    omega
  have hkept : r ∈ s'.rows := (mem_compacted hc).2 ⟨hr, Or.inr ⟨hlive, fun q hq _ => by
    have := hbound q hq
    omega⟩⟩
  -- whatever the compacted store shows for the key is live, while the tombstone hid the key
  obtain ⟨r₁, h₁⟩ := VersionedLog.exists_lastAt Row.key hkept (hall r hr)
  obtain ⟨hmem₁, hk₁, -⟩ := VersionedLog.lastAt_mem h₁
  obtain ⟨hmem, hcase⟩ := (mem_compacted hc).1 hmem₁
  have hlive₁ : r₁.isLive = true := by
    rcases hcase with h | h
    · have := hbound r₁ hmem
      omega
    · exact h.1
  have h₁' : latestAt s' r₁.key t = some r₁ := hk₁ ▸ h₁
  have hvis := hsub (mem_visibleRows.2 ⟨h₁', hlive₁, hk₁ ▸ hk⟩)
  have hshown := (mem_visibleRows.1 hvis).1
  rw [latestAt_eq_latestRow hall, hk₁, hd] at hshown
  obtain rfl := Option.some.inj hshown
  rw [hlive₁] at hdead
  cases hdead

theorem noSharedTombstone_or_replacedInTime (req : RangeRequest) (hs : s.Wf) (ht : target ≤ t) :
    NoSharedTombstone s req target ∨ ReplacedInTime s req target t := by
  by_contra h
  push Not at h
  obtain ⟨hB, hA⟩ := h
  refine hB fun r hr hk hlive d hd hdead hdt hsame => hA fun r' hr' _ _ _ ⟨q, hq, _, hqt⟩ => ?_
  obtain rfl | hM := hs.eq_or_max (VersionedLog.last_mem hd) hr hsame
  · rw [hlive] at hdead
    cases hdead
  · have := (hs.le_current q hq).trans hs.current_le
    omega

/-! ## The reads that stay the same -/

theorem visibleRows_nodup (s : Store) (req : RangeRequest) (t : Int) :
    (visibleRows s req t).Nodup :=
  (visibleRows_sorted s req t).imp fun h he => by simp [he] at h

theorem subset_of_subset_of_length {l m : List Row} (hn : l.Nodup) (h : l ⊆ m)
    (hlen : l.length = m.length) : m ⊆ l :=
  ((List.subperm_of_subset hn h).perm_of_length_le hlen.ge).symm.subset

theorem visibleRows_length_iff (hs : s.Wf) (hc : Compacts s target s') (ht : target ≤ t) :
    (visibleRows s' req t).length = (visibleRows s req t).length ↔
      ReplacedInTime s req target t ∧ NoSharedTombstone s req target := by
  constructor
  · intro hlen
    rcases noSharedTombstone_or_replacedInTime req hs ht with hB | hA
    · have hsub := subset_of_subset_of_length (visibleRows_nodup s' req t)
        (visibleRows_subset_of_compacts hs hc hB) hlen
      exact ⟨replacedInTime_of_subset hs hc ht hsub, hB⟩
    · have hsub := subset_of_subset_of_length (visibleRows_nodup s req t)
        (visibleRows_subset hs hc hA) hlen.symm
      exact ⟨hA, noSharedTombstone_of_subset hs hc ht hsub⟩
  · rintro ⟨hA, hB⟩
    have h₁ := (List.subperm_of_subset (visibleRows_nodup s req t)
      (visibleRows_subset hs hc hA)).length_le
    have h₂ := (List.subperm_of_subset (visibleRows_nodup s' req t)
      (visibleRows_subset_of_compacts (t := t) hs hc hB)).length_le
    exact le_antisymm h₂ h₁

theorem visibleRows_eq (hs : s.Wf) (hc : Compacts s target s')
    (hA : ReplacedInTime s req target t) (hB : NoSharedTombstone s req target) :
    visibleRows s' req t = visibleRows s req t := by
  refine eq_visibleRows (visibleRows_sorted s' req t) fun row => ?_
  rw [← mem_visibleRows]
  exact ⟨fun h => visibleRows_subset_of_compacts hs hc hB h,
    fun h => visibleRows_subset hs hc hA h⟩

end Reads

/-- The revision an admissible read is served at. -/
def readRevision (s : Store) (req : RangeRequest) : Int :=
  if req.revision = 0 then s.currentRevision else req.revision

/-- A read at or above the floor gives the same answer before and after a compaction exactly when
the request is malformed, or no row it shows is dropped and none is uncovered. -/
theorem execute_compact_iff (ops : List StoreOp) (target : Int) (req : RangeRequest)
    (report : CompactReport) (hok : (compact (run .new ops) target).1 = .ok report)
    (hrev : req.revision = 0 ∨
      target ≤ req.revision ∧ req.revision ≤ (run .new ops).currentRevision) :
    execute (compact (run .new ops) target).2 req = execute (run .new ops) req ↔
      (validate req = .ok () →
        ReplacedInTime (run .new ops) req target (readRevision (run .new ops) req) ∧
          NoSharedTombstone (run .new ops) req target) := by
  have hs := Store.wf_run ops
  revert hok hrev hs
  generalize run .new ops = s
  intro hok hrev hs
  have hc : Compacts s target (compact s target).2 := by
    rcases compact_cases s target with ⟨⟨e, he⟩, -⟩ | ⟨-, h⟩
    · rw [hok] at he
      cases he
    · exact h
  generalize (compact s target).2 = s' at hc
  cases hv : validate req with
  | error e => simp [execute_of_invalid hv]
  | ok u =>
    have hcomp := hs.compacted_nonneg
    have hfwd := hc.forward
    have hle := hc.le_current
    have hres : s.clock.resolveRead req.revision = .ok (readRevision s req) := by
      unfold readRevision
      split_ifs with h0
      · rw [h0]
        exact s.clock.resolveRead_zero
      · exact Clock.resolveRead_of_pos (by omega) (hrev.resolve_left h0).2
    have hres' : s'.clock.resolveRead req.revision = .ok (readRevision s req) := by
      rw [hc.clock, hres]
    have ht : target ≤ readRevision s req := by
      unfold readRevision
      split_ifs <;> omega
    have hadm : req.revision = 0 ∨ s.compacted ≤ req.revision := by omega
    have hadm' : req.revision = 0 ∨ s'.compacted ≤ req.revision := by
      rw [hc.compacted]
      omega
    rw [execute_of_valid hv hres hadm, execute_of_valid hv hres' hadm', Except.ok.injEq]
    constructor
    · intro h _
      exact (visibleRows_length_iff hs hc ht).1 (length_eq_of_respond_eq h)
    · intro h
      obtain ⟨hA, hB⟩ := h rfl
      rw [visibleRows_eq hs hc hA hB]

/-- A key is written three times and the log is compacted at its second revision: the read at the
third one stays the same. -/
theorem execute_compact_kept :
    execute (compact (run .new [.create [107] [1] 0, .update [107] [2] 0, .update [107] [3] 0])
      2).2 ((RangeRequest.ofKey [107]).atRevision 3) =
    execute (run .new [.create [107] [1] 0, .update [107] [2] 0, .update [107] [3] 0])
      ((RangeRequest.ofKey [107]).atRevision 3) :=
  (execute_compact_iff _ 2 ((RangeRequest.ofKey [107]).atRevision 3) ⟨2, 2, 1⟩ (by decide)
    (by decide)).2 (by decide)

/-- The read at the second revision, the floor itself, loses the row that was current then. -/
theorem execute_compact_lost :
    (compact (run .new [.create [107] [1] 0, .update [107] [2] 0, .update [107] [3] 0]) 2).1 =
      .ok ⟨2, 2, 1⟩ ∧
    execute (compact (run .new [.create [107] [1] 0, .update [107] [2] 0, .update [107] [3] 0])
      2).2 ((RangeRequest.ofKey [107]).atRevision 2) ≠
    execute (run .new [.create [107] [1] 0, .update [107] [2] 0, .update [107] [3] 0])
      ((RangeRequest.ofKey [107]).atRevision 2) := by
  decide

end CaveHome.Kine
