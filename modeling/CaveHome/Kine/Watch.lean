import CaveHome.Kine.Invariant
import CaveHome.Kine.Range

/-!
# Watches

A watch replays the rows above a revision as change events, in revision order.
-/

namespace CaveHome.Kine

/-- The kind of change. -/
inductive EventKind
  | put
  | delete
  deriving DecidableEq

/-- One change of a watch stream. -/
structure WatchEvent where
  kind : EventKind
  key : Bytes
  value : Bytes
  prevValue : Bytes
  revision : Int
  createRevision : Int
  deriving DecidableEq

/-- The checks of a watch filter. -/
def validateFilter (filter : RangeRequest) : Result Unit :=
  match filter.rangeEnd with
  | .allKeys => .ok ()
  | .single | .prefixScan => if filter.key.isEmpty then .error .emptyKey else .ok ()
  | .explicit e =>
    if filter.key.isEmpty then .error .emptyKey
    else if e ≤ filter.key then .error .invalidRange
    else .ok ()

/-- Whether a key is watched. -/
def filterContains (filter : RangeRequest) (candidate : Bytes) : Bool :=
  match filter.rangeEnd with
  | .single => decide (candidate = filter.key)
  | .prefixScan => filter.key.isPrefixOf candidate
  | .allKeys => true
  | .explicit e => decide (filter.key ≤ candidate) && decide (candidate < e)

/-- The event of a row; the in-memory log keeps no previous values. -/
def WatchEvent.ofRow (r : Row) : WatchEvent where
  kind := if r.deleted then .delete else .put
  key := r.key
  value := r.value
  prevValue := []
  revision := r.modRevision
  createRevision := r.createRevision

/-- The events of `filter` after `startRevision`. -/
def watch (s : Store) (filter : RangeRequest) (startRevision : Int) :
    Result (List WatchEvent) := do
  if startRevision < 0 then throw (.negativeRevision startRevision)
  if startRevision ≠ 0 ∧ startRevision < s.compactedRevision then
    throw (.compacted startRevision s.compactedRevision)
  validateFilter filter
  let rows := s.rows.filter fun r =>
    decide (r.modRevision > startRevision) && filterContains filter r.key
  return (rows.map WatchEvent.ofRow).insertionSort fun a b => a.revision ≤ b.revision

theorem filterContains_eq_contains (filter : RangeRequest) :
    filterContains filter = filter.contains := rfl

theorem validateFilter_eq_validate {filter : RangeRequest} (h : 0 ≤ filter.limit) :
    validateFilter filter = validate filter := by
  unfold validate
  rw [if_neg (by omega)]
  rfl

theorem watch_of_valid {s : Store} (hs : s.rows.Pairwise fun a b => a.modRevision ≤ b.modRevision)
    {filter : RangeRequest} {start : Int} (h₀ : 0 ≤ start)
    (hc : start = 0 ∨ s.compacted ≤ start) (hv : validateFilter filter = .ok ()) :
    watch s filter start = .ok ((s.rows.filter fun r =>
      decide (r.modRevision > start) && filter.contains r.key).map WatchEvent.ofRow) := by
  have hn : ¬ (start ≠ 0 ∧ start < s.compactedRevision) := by
    unfold Store.compactedRevision
    omega
  have hsorted : ((s.rows.filter fun r =>
      decide (r.modRevision > start) && filter.contains r.key).map WatchEvent.ofRow).Pairwise
      fun a b => a.revision ≤ b.revision := (hs.filter _).map _ fun _ _ h => h
  unfold watch
  simp only [bind, Except.bind, if_neg (not_lt.2 h₀), if_neg hn, hv, pure, Except.pure,
    filterContains_eq_contains]
  rw [hsorted.insertionSort_eq]

/-!
## List, then watch

A client that reads an interval at a revision and then applies the events of a watch from that
revision holds what a read at the current revision returns, as long as nothing was compacted.
-/

/-- The map a list of rows stands for. -/
def valueMap (kvs : List Row) (key : Bytes) : Option Bytes :=
  (kvs.find? fun r => decide (r.key = key)).map Row.value

/-- A put sets the key of an event, a delete removes it. -/
def WatchEvent.apply (m : Bytes → Option Bytes) (e : WatchEvent) : Bytes → Option Bytes :=
  match e.kind with
  | .put => Function.update m e.key (some e.value)
  | .delete => Function.update m e.key none

/-- What a row leaves at its key. -/
def Row.content (r : Row) : Option Bytes := if r.deleted then none else some r.value

theorem foldl_apply_ofRow (m : Bytes → Option Bytes) (rows : List Row) :
    (rows.map WatchEvent.ofRow).foldl WatchEvent.apply m =
      VersionedLog.replay Row.key Row.content m rows := by
  have hstep : ∀ (m : Bytes → Option Bytes) (r : Row), (WatchEvent.ofRow r).apply m =
      Function.update m r.key r.content := by
    intro m r
    cases hd : r.deleted <;> simp [WatchEvent.apply, WatchEvent.ofRow, Row.content, hd]
  unfold VersionedLog.replay
  rw [List.foldl_map]
  simp only [hstep]

theorem valueMap_visibleRows (s : Store) (req : RangeRequest) (t : Int) (key : Bytes) :
    valueMap (visibleRows s req t) key =
      if req.contains key = true then (latestAt s key t).bind Row.content else none := by
  unfold valueMap
  cases hf : (visibleRows s req t).find? fun r => decide (r.key = key) with
  | some r =>
    have hk : r.key = key := by simpa using List.find?_some hf
    obtain ⟨hl, hlive, hc⟩ := mem_visibleRows.1 (List.mem_of_find?_eq_some hf)
    subst hk
    have hd : r.deleted = false := by simpa [Row.isLive] using hlive
    simp [hc, hl, Row.content, hd]
  | none =>
    have hno := List.find?_eq_none.1 hf
    split_ifs with hc
    · cases hl : latestAt s key t with
      | none => rfl
      | some r =>
        have hk : r.key = key := (VersionedLog.lastAt_mem hl).2.1
        subst hk
        have hdead : r.deleted = true := by
          by_contra hd
          exact hno r (mem_visibleRows.2 ⟨hl, by simpa [Row.isLive] using hd, hc⟩) (by simp)
        simp [Row.content, hdead]
    · rfl

theorem replay_valueMap {s : Store} (h : s.Wf) (req : RangeRequest) (t : Int) :
    VersionedLog.replay Row.key Row.content (valueMap (visibleRows s req t))
        (s.rows.filter fun r => decide (r.modRevision > t) && req.contains r.key) =
      valueMap (visibleRows s req s.currentRevision) := by
  funext key
  have hrows : (s.rows.filter fun r => decide (r.modRevision > t) && req.contains r.key) =
      (s.rows.filter fun r => decide (t < r.modRevision)).filter fun r => req.contains r.key := by
    rw [List.filter_filter]
    simp only [gt_iff_lt, Bool.and_comm]
  rw [VersionedLog.replay_apply, hrows, VersionedLog.last_filter_key, valueMap_visibleRows,
    valueMap_visibleRows, latestAt_eq_latestRow h.le_current, Store.latestRow_eq_last]
  split_ifs with hc
  · -- the log is its part up to `t` followed by its part after `t`
    have hsplit := VersionedLog.last_append Row.key
      (s.rows.filter fun r => decide (r.modRevision ≤ t))
      (s.rows.filter fun r => decide (t < r.modRevision)) key
    rw [VersionedLog.filter_le_append_filter_lt h.pairwise_le,
      ← VersionedLog.lastAt_eq_last_filter] at hsplit
    rw [hsplit, latestAt_eq_lastAt]
    cases VersionedLog.last Row.key (s.rows.filter fun r => decide (t < r.modRevision)) key <;> rfl
  · rfl

theorem run_compacted {s : Store} {ops : List StoreOp} (hw : ∀ op ∈ ops, op.isWrite = true) :
    (run s ops).compacted = s.compacted := by
  induction ops generalizing s with
  | nil => rfl
  | cons op ops ih =>
    obtain ⟨hop, hops⟩ := List.forall_mem_cons.1 hw
    obtain ⟨l, hl⟩ := op.run_writes s hop
    exact (ih hops).trans hl.compacted_eq

/-- List-then-watch consistency: applying the events after a revision to the map read at that
revision gives the map of the current revision. -/
theorem list_then_watch (ops : List StoreOp) (hw : ∀ op ∈ ops, op.isWrite = true)
    (key : Bytes) (rangeEnd : RangeEnd) (hv : validateFilter { key, rangeEnd } = .ok ())
    (r : Int) (h₀ : 0 < r) (hr : r ≤ (run .new ops).currentRevision)
    (rev : Int) (hrev : rev = 0 ∨ rev = (run .new ops).currentRevision) :
    ∃ listed events now,
      execute (run .new ops) { key, rangeEnd, revision := r } = .ok listed ∧
      watch (run .new ops) { key, rangeEnd } r = .ok events ∧
      execute (run .new ops) { key, rangeEnd, revision := rev } = .ok now ∧
      events.foldl WatchEvent.apply (valueMap listed.kvs) = valueMap now.kvs := by
  have hs := Store.wf_run ops
  have hcomp : (run .new ops).compacted = 0 := run_compacted hw
  have hadm : ∀ t : Int, 0 ≤ t → t = 0 ∨ (run .new ops).compacted ≤ t := by omega
  have hvalid : ∀ revision, validate { key, rangeEnd, revision } = .ok () := fun revision => by
    rw [← validateFilter_eq_validate le_rfl]
    exact hv
  refine ⟨_, _, _, execute_of_valid (hvalid r) (Clock.resolveRead_of_pos h₀ hr) (hadm r h₀.le),
    watch_of_valid hs.pairwise_le h₀.le (hadm r h₀.le) hv,
    execute_of_valid (hvalid rev) (hs.resolveRead_current hrev) (hadm rev (by omega)), ?_⟩
  rw [foldl_apply_ofRow]
  exact replay_valueMap hs { key, rangeEnd } r

/-- A list at revision `1`, with an update, a delete and a create after it. -/
theorem list_then_watch_recreated :
    ∃ listed events now,
      execute (run .new [.put [1] [1] 0, .put [1] [2] 0, .delete [1], .create [1, 2] [3] 0])
        { key := [1], rangeEnd := .prefixScan, revision := 1 } = .ok listed ∧
      watch (run .new [.put [1] [1] 0, .put [1] [2] 0, .delete [1], .create [1, 2] [3] 0])
        { key := [1], rangeEnd := .prefixScan } 1 = .ok events ∧
      execute (run .new [.put [1] [1] 0, .put [1] [2] 0, .delete [1], .create [1, 2] [3] 0])
        { key := [1], rangeEnd := .prefixScan, revision := 4 } = .ok now ∧
      events.foldl WatchEvent.apply (valueMap listed.kvs) = valueMap now.kvs :=
  list_then_watch _ (by decide) [1] .prefixScan (by decide) 1 (by decide) (by decide) 4 (by decide)

end CaveHome.Kine
