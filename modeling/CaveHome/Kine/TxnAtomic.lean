import CaveHome.Kine.Invariant
import Mathlib.Data.Finset.Card
import Mathlib.Data.Finset.Dedup

/-!
# Atomicity of transactions

A transaction that is rejected by its guard leaves the store alone.  An operation of the chosen
branch is rejected only when it is its turn, after the operations before it have written.

`BranchView` abstracts a store to what decides the fate of an operation: the live keys and the
header revision.  `runOp_spec` shows that running an operation follows the view, so that the view
alone tells which operation is the first to be rejected and what was written before it.
-/

namespace CaveHome.Kine

/-- The live keys and the header revision of a store. -/
structure BranchView where
  live : Finset Bytes
  revision : Int
  deriving DecidableEq

def Store.view (s : Store) : BranchView := ⟨s.liveKeys.toFinset, s.currentRevision⟩

/-- The live keys that an operation deletes. -/
def BranchView.victims (v : BranchView) (key : Bytes) (rangeEnd : RangeEnd) : Finset Bytes :=
  v.live.filter fun k => RangeRequest.contains { key, rangeEnd } k = true

namespace TxnOp

/-- How many rows an operation writes. -/
def rows (v : BranchView) : TxnOp → Nat
  | .range _ => 0
  | .put _ _ _ => 1
  | .deleteRange key rangeEnd => (v.victims key rangeEnd).card

/-- Whether an operation is rejected in a view, above the compacted floor. -/
def rejected (floor : Int) (v : BranchView) : TxnOp → Bool
  | .range req => decide (validate req ≠ .ok ()) || decide (req.revision < 0) ||
      decide (v.revision < req.revision) ||
      (decide (req.revision ≠ 0) && decide (req.revision < floor))
  | .put key _ _ => key.isEmpty
  | .deleteRange key rangeEnd => decide (validate { key, rangeEnd } ≠ .ok ())

/-- The view after an operation. -/
def next (v : BranchView) (op : TxnOp) : BranchView where
  live := match op with
    | .range _ => v.live
    | .put key _ _ => insert key v.live
    | .deleteRange key rangeEnd => v.live \ v.victims key rangeEnd
  revision := min (v.revision + op.rows v) I64.maxValue

end TxnOp

/-- The first operation that is rejected comes before anything is written; `written` counts the
rows written so far. -/
def RejectedFirst (floor : Int) : Nat → BranchView → List TxnOp → Prop
  | _, _, [] => True
  | written, v, op :: ops =>
    if op.rejected floor v then written = 0
    else RejectedFirst floor (written + op.rows v) (op.next v) ops

/-! ## Operations follow the view -/

namespace Store

theorem mem_view {s : Store} {key : Bytes} :
    key ∈ s.view.live ↔ (s.getLive key).isSome = true := by
  simp [view, mem_liveKeys]

theorem view_live_eq {s : Store} {live : Finset Bytes}
    (h : ∀ key, (s.getLive key).isSome = true ↔ key ∈ live) : s.view.live = live := by
  ext key
  rw [mem_view, h]

theorem Wf.getLive_nil {s : Store} (h : s.Wf) : s.getLive [] = none := by
  by_contra hne
  obtain ⟨r, hr⟩ := Option.ne_none_iff_exists'.1 hne
  exact h.key_ne_nil r (Wf.getLive_mem hr) (VersionedLog.last_key (getLive_eq_some_iff.1 hr).1)

end Store

theorem mem_map_key_visibleRows {s : Store} (h : s.Wf) (req : RangeRequest) (key : Bytes) :
    key ∈ (visibleRows s req s.currentRevision).map Row.key ↔
      (s.getLive key).isSome = true ∧ req.contains key = true := by
  rw [List.mem_map, Option.isSome_iff_exists]
  constructor
  · rintro ⟨row, hrow, rfl⟩
    obtain ⟨hl, hlive, hc⟩ := mem_visibleRows.1 hrow
    rw [latestAt_eq_latestRow h.le_current] at hl
    exact ⟨⟨row, Store.getLive_eq_some_iff.2 ⟨hl, hlive⟩⟩, hc⟩
  · rintro ⟨⟨row, hrow⟩, hc⟩
    obtain ⟨hl, hlive⟩ := Store.getLive_eq_some_iff.1 hrow
    have hk : row.key = key := VersionedLog.last_key hl
    subst hk
    refine ⟨row, mem_visibleRows.2 ⟨?_, hlive, hc⟩, rfl⟩
    rw [latestAt_eq_latestRow h.le_current]
    exact hl

theorem deleteVictims_spec {s : Store} (hw : s.Wf) {keys : List Bytes} (hn : keys.Nodup)
    (hl : ∀ k ∈ keys, (s.getLive k).isSome = true) (deleted : Int) :
    (∃ n, (deleteVictims keys deleted s).1 = .ok n) ∧
      (∃ l, s.Writes l (deleteVictims keys deleted s).2 ∧ l.length = keys.length) ∧
      ∀ k, (deleteVictims keys deleted s).2.getLive k =
        if k ∈ keys then none else s.getLive k := by
  induction keys generalizing s deleted with
  | nil => exact ⟨⟨_, rfl⟩, ⟨[], .nil, rfl⟩, fun k => by simp [deleteVictims]⟩
  | cons key keys ih =>
    obtain ⟨hkey, hn⟩ := List.nodup_cons.1 hn
    have hlive := hl key List.mem_cons_self
    have hne : key ≠ [] := by
      rintro rfl
      simp [hw.getLive_nil] at hlive
    obtain ⟨hok, row, hrow, hdel, ha⟩ := Store.delete_appends hne hlive
    have hget := ha.getLive_eq
    rw [hrow, hdel] at hget
    unfold deleteVictims
    cases hd : s.delete key with
    | mk res s' =>
      rw [hd] at hok ha hget
      rw [show res = .ok (some s'.currentRevision) from hok]
      have hl' : ∀ k ∈ keys, (s'.getLive k).isSome = true := fun k hk => by
        rw [hget, if_neg (by rintro rfl; exact hkey hk)]
        exact hl k (List.mem_cons_of_mem _ hk)
      obtain ⟨hok', ⟨l, hl₁, hl₂⟩, hget'⟩ := ih (hw.appends ha) hn hl' (deleted + 1)
      refine ⟨hok', ⟨[row] ++ l, (Store.Writes.single ha).trans hl₁, by simp [hl₂]⟩, fun k => ?_⟩
      refine (hget' k).trans ?_
      rw [hget]
      by_cases hk : key = k
      · subst hk
        simp
      · simp [hk, Ne.symm hk]

theorem execute_rejected_iff {s : Store} (hw : s.Wf) {req : RangeRequest} :
    TxnOp.rejected s.compacted s.view (.range req) = true ↔ ∃ e, execute s req = .error e := by
  simp only [TxnOp.rejected, Bool.or_eq_true, Bool.and_eq_true, decide_eq_true_eq]
  cases hv : validate req with
  | error e => simp [execute_of_invalid hv]
  | ok u =>
    have hres := Clock.resolveRead_error_iff (r := req.revision) hw.current_nonneg
    cases ht : s.clock.resolveRead req.revision with
    | error e =>
      have := hres.1 ⟨e, ht⟩
      simp only [execute_of_unreadable hv ht, Store.view, Store.currentRevision]
      exact ⟨fun _ => ⟨e, rfl⟩, fun _ => by tauto⟩
    | ok t =>
      have hno : ¬ (req.revision < 0 ∨ s.clock.current < req.revision) := by simp [← hres, ht]
      by_cases hc : req.revision ≠ 0 ∧ req.revision < s.compacted
      · simp only [execute_of_compacted hv ht hc]
        exact ⟨fun _ => ⟨_, rfl⟩, fun _ => Or.inr hc⟩
      · rw [execute_of_valid hv ht (by omega)]
        simp only [Store.view, Store.currentRevision]
        constructor
        · intro h
          exact absurd h (by simp only [ne_eq, not_true_eq_false]; tauto)
        · rintro ⟨e, he⟩
          cases he

theorem view_eq_next {s s' : Store} (hw : s.Wf) {op : TxnOp} {l : List Row}
    (hl : s.Writes l s') (hlen : l.length = op.rows s.view)
    (hlive : ∀ k, (s'.getLive k).isSome = true ↔ k ∈ (op.next s.view).live) :
    s'.view = op.next s.view := by
  have hrev : s'.currentRevision = (op.next s.view).revision := by
    rw [hl.current_eq_min hw, hlen]
    rfl
  unfold Store.view at hrev ⊢
  rw [BranchView.mk.injEq]
  exact ⟨Store.view_live_eq hlive, hrev⟩

/-- What running an operation does, as its view tells. -/
def FollowsView (s : Store) (op : TxnOp) (x : Result TxnOpResponse × Store) : Prop :=
  if op.rejected s.compacted s.view then (∃ e, x.1 = .error e) ∧ x.2 = s
  else (∃ r, x.1 = .ok r) ∧ x.2.view = op.next s.view ∧
    ∃ l, s.Writes l x.2 ∧ l.length = op.rows s.view

theorem runOp_range {s : Store} (hw : s.Wf) (req : RangeRequest) :
    FollowsView s (.range req) (runOp s (.range req)) := by
  unfold FollowsView
  split_ifs with hrej
  · obtain ⟨e, he⟩ := (execute_rejected_iff hw).1 hrej
    exact ⟨⟨e, by simp [runOp, he, Except.map]⟩, rfl⟩
  · refine ⟨?_, view_eq_next hw .nil rfl fun k => Store.mem_view.symm, [], .nil, rfl⟩
    cases hx : execute s req with
    | error e => exact absurd ((execute_rejected_iff hw).2 ⟨e, hx⟩) hrej
    | ok r => exact ⟨.range r, by simp [runOp, hx, Except.map]⟩

theorem runOp_put {s : Store} (hw : s.Wf) (key value : Bytes) (lease : Int) :
    FollowsView s (.put key value lease) (runOp s (.put key value lease)) := by
  unfold FollowsView
  split_ifs with hrej
  · obtain rfl : key = [] := by simpa [TxnOp.rejected] using hrej
    exact ⟨⟨.emptyKey, rfl⟩, rfl⟩
  · have hk : key ≠ [] := by simpa [TxnOp.rejected] using hrej
    obtain ⟨hok, row, hrow, hdel, ha⟩ := Store.put_appends (s := s) hk value lease
    have hget := ha.getLive_eq
    rw [runOp]
    cases hp : s.put key value lease with
    | mk res s' =>
      rw [hp] at hok ha hget
      rw [show res = .ok s'.currentRevision from hok]
      refine ⟨⟨_, rfl⟩, view_eq_next hw (.single ha) rfl fun k => ?_, [row], .single ha, rfl⟩
      dsimp only [andThen] at hget ⊢
      rw [hget, hrow, hdel]
      by_cases hkk : key = k
      · simp [TxnOp.next, hkk]
      · simp [TxnOp.next, hkk, Ne.symm hkk, Store.mem_view]

theorem deleteRange_of_valid {s : Store} (hw : s.Wf) {key : Bytes} {rangeEnd : RangeEnd}
    (hv : validate { key, rangeEnd } = .ok ()) :
    (∃ n, (deleteRange s key rangeEnd).1 = .ok n) ∧
      (∃ l, s.Writes l (deleteRange s key rangeEnd).2 ∧
        l.length = (s.view.victims key rangeEnd).card) ∧
      ∀ k, ((deleteRange s key rangeEnd).2.getLive k).isSome = true ↔
        k ∈ s.view.live \ s.view.victims key rangeEnd := by
  have hkeys := mem_map_key_visibleRows hw { key, rangeEnd }
  have hn : ((visibleRows s { key, rangeEnd } s.currentRevision).map Row.key).Nodup :=
    (visibleRows_sorted s { key, rangeEnd } s.currentRevision).map _ fun _ _ h he => by
      simp [he] at h
  have hd : deleteRange s key rangeEnd =
      deleteVictims ((visibleRows s { key, rangeEnd } s.currentRevision).map Row.key) 0 s := by
    unfold deleteRange
    rw [execute_of_valid hv s.clock.resolveRead_zero (Or.inl rfl)]
    rfl
  rw [hd]
  obtain ⟨hok, ⟨l, hl, hlen⟩, hget⟩ := deleteVictims_spec hw hn
    (fun k hk => ((hkeys k).1 hk).1) 0
  refine ⟨hok, ⟨l, hl, ?_⟩, fun k => ?_⟩
  · rw [hlen, ← List.toFinset_card_of_nodup hn]
    congr 1
    ext k
    simp only [List.mem_toFinset, hkeys, BranchView.victims, Finset.mem_filter, Store.mem_view]
  · rw [hget]
    simp only [BranchView.victims, Finset.mem_sdiff, Finset.mem_filter, Store.mem_view, hkeys]
    split_ifs with h
    · simp [h]
    · tauto

theorem runOp_deleteRange {s : Store} (hw : s.Wf) (key : Bytes) (rangeEnd : RangeEnd) :
    FollowsView s (.deleteRange key rangeEnd) (runOp s (.deleteRange key rangeEnd)) := by
  unfold FollowsView
  rw [runOp]
  split_ifs with hrej
  · cases hv : validate { key, rangeEnd } with
    | error e =>
      unfold deleteRange
      rw [execute_of_invalid hv]
      exact ⟨⟨e, rfl⟩, rfl⟩
    | ok u => simp [TxnOp.rejected, hv] at hrej
  · have hv : validate { key, rangeEnd } = .ok () := by simpa [TxnOp.rejected] using hrej
    obtain ⟨⟨n, hok⟩, ⟨l, hl, hlen⟩, hlive⟩ := deleteRange_of_valid hw hv
    cases hd : deleteRange s key rangeEnd with
    | mk res s' =>
      rw [hd] at hok hl hlive
      rw [show res = .ok n from hok]
      exact ⟨⟨_, rfl⟩, view_eq_next hw hl hlen hlive, l, hl, hlen⟩

theorem runOp_spec {s : Store} (hw : s.Wf) (op : TxnOp) : FollowsView s op (runOp s op) := by
  cases op with
  | range req => exact runOp_range hw req
  | put key value lease => exact runOp_put hw key value lease
  | deleteRange key rangeEnd => exact runOp_deleteRange hw key rangeEnd

theorem runOps_atomic_iff {s t : Store} {l : List Row} (hw : s.Wf) (hl : s.Writes l t)
    (ops : List TxnOp) (out : List TxnOpResponse) :
    (∀ e, (runOps ops out t).1 = .error e → (runOps ops out t).2 = s) ↔
      RejectedFirst s.compacted l.length t.view ops := by
  induction ops generalizing t l out with
  | nil => simp [runOps, RejectedFirst]
  | cons op ops ih =>
    have hspec := runOp_spec (hw.writes hl) op
    unfold FollowsView at hspec
    rw [hl.compacted_eq] at hspec
    unfold runOps RejectedFirst
    cases hr : runOp t op with
    | mk res t' =>
      rw [hr] at hspec
      split_ifs at hspec ⊢ with hrej
      · obtain ⟨⟨e, he⟩, ht⟩ := hspec
        simp only at he ht
        subst he ht
        have hiff : t' = s ↔ l.length = 0 := by
          constructor
          · rintro rfl
            have := congrArg List.length hl.rows_eq
            simpa using this
          · intro h0
            obtain rfl := List.length_eq_zero_iff.1 h0
            exact hl.eq_of_nil
        simpa [andThen] using hiff
      · obtain ⟨⟨r, hok⟩, hview, m, hm, hlen⟩ := hspec
        simp only at hok hview hm
        subst hok
        have := ih (hl.trans hm) (out ++ [r])
        rw [List.length_append, hlen, hview] at this
        exact this

/-- A failed transaction leaves the store as it was exactly when its guard rejects it, or the first
operation of the chosen branch that is rejected comes before every operation that writes. -/
theorem apply_atomic_iff (ops : List StoreOp) (txn : Txn) :
    (∀ e, (apply (run .new ops) txn).1 = .error e → (apply (run .new ops) txn).2 = run .new ops) ↔
      ∀ succeeded, txn.guard (run .new ops) = .ok succeeded →
        RejectedFirst (run .new ops).compacted 0 (run .new ops).view
          (if succeeded then txn.success else txn.failure) := by
  have hw := Store.wf_run ops
  revert hw
  generalize run .new ops = s
  intro hw
  unfold apply
  cases hg : txn.guard s with
  | error e => simp
  | ok succeeded =>
    have hrun := runOps_atomic_iff hw .nil (if succeeded then txn.success else txn.failure) []
    simp only [Except.ok.injEq, forall_eq']
    rw [List.length_nil] at hrun
    rw [← hrun]
    generalize runOps (if succeeded then txn.success else txn.failure) [] s = x
    obtain ⟨r | r, s'⟩ := x <;> simp [andThen]

/-- A put before a read with a negative limit stays in the store. -/
theorem apply_torn :
    (apply .new { success := [.put [97] [1] 0, .range ⟨[98], .single, 0, -1⟩] }).1 =
      .error (.negativeLimit (-1)) ∧
    (apply .new { success := [.put [97] [1] 0, .range ⟨[98], .single, 0, -1⟩] }).2 ≠ .new := by
  decide

end CaveHome.Kine
