import CaveHome.Kine.Compact
import CaveHome.Kine.Store
import CaveHome.Kine.Txn
import Mathlib.Data.List.Chain

/-!
# Runs of the store

`StoreOp` lists everything that changes a store, and `run` performs any sequence of it.  A change
is a sequence of writes or one compaction (`StoreOp.run_cases`), so an invariant is shown for
`Store.Appends` and `Compacts` and follows for every run.

Two invariants are used.  `Store.Wf` holds in every run.  `Store.Generations` needs revisions to be
handed out strictly, which the clock does as long as it has not reached its largest value.
-/

namespace CaveHome.Kine

/-- One call that changes a store. -/
inductive StoreOp
  | create (key value : Bytes) (lease : Int)
  | update (key value : Bytes) (lease : Int)
  | put (key value : Bytes) (lease : Int)
  | delete (key : Bytes)
  | txn (request : Txn)
  | expire (table : LeaseTable) (now : Int)
  | compact (target : Int)

namespace StoreOp

/-- The store after a call, whether or not the call failed. -/
def run (s : Store) : StoreOp → Store
  | .create key value lease => (s.create key value lease).2
  | .update key value lease => (s.update key value lease).2
  | .put key value lease => (s.put key value lease).2
  | .delete key => (s.delete key).2
  | .txn request => (apply s request).2
  | .expire table now => (table.expire s now).2.2
  | .compact target => (Kine.compact s target).2

/-- How many rows a call appends. -/
def writes (s : Store) (op : StoreOp) : Nat := (op.run s).rows.length - s.rows.length

/-- Calls other than compaction. -/
def isWrite : StoreOp → Bool
  | .compact _ => false
  | _ => true

theorem run_writes (s : Store) {op : StoreOp} (h : op.isWrite = true) :
    ∃ l, s.Writes l (op.run s) := by
  cases op with
  | create key value lease =>
    obtain ⟨l, hl, -⟩ := Store.writes_of_cases (s.create_cases key value lease)
    exact ⟨l, hl⟩
  | update key value lease =>
    obtain ⟨l, hl, -⟩ := Store.writes_of_cases (s.update_cases key value lease)
    exact ⟨l, hl⟩
  | put key value lease =>
    obtain ⟨l, hl, -⟩ := Store.writes_of_cases (s.put_cases key value lease)
    exact ⟨l, hl⟩
  | delete key =>
    obtain ⟨l, hl, -⟩ := Store.writes_of_cases (s.delete_cases key)
    exact ⟨l, hl⟩
  | txn request => exact apply_writes s request
  | expire table now => exact table.expire_writes s now
  | compact target => cases h

theorem run_cases (s : Store) (op : StoreOp) :
    (∃ l, s.Writes l (op.run s)) ∨ ∃ target, Compacts s target (op.run s) := by
  by_cases h : op.isWrite = true
  · exact Or.inl (run_writes s h)
  cases op with
  | compact target =>
    rcases compact_cases s target with ⟨-, h⟩ | ⟨-, h⟩
    · have hrun : run s (.compact target) = s := h
      rw [hrun]
      exact Or.inl ⟨[], .nil⟩
    · exact Or.inr ⟨target, h⟩
  | _ => exact absurd rfl h

end StoreOp

/-- The store after a sequence of calls. -/
def run (s : Store) (ops : List StoreOp) : Store := ops.foldl StoreOp.run s

/-- How many rows a sequence of calls appends. -/
def writes (s : Store) : List StoreOp → Nat
  | [] => 0
  | op :: ops => op.writes s + writes (op.run s) ops

theorem run_induction {P : Store → Prop}
    (hw : ∀ s row s', P s → s.Appends row s' → P s')
    (hc : ∀ s target s', P s → Compacts s target s' → P s') {s : Store} (h : P s)
    (ops : List StoreOp) : P (run s ops) := by
  induction ops generalizing s with
  | nil => exact h
  | cons op ops ih =>
    refine ih ?_
    rcases op.run_cases s with ⟨l, hl⟩ | ⟨target, ht⟩
    · exact hl.preserves hw h
    · exact hc s target _ h ht

/-! ## What holds in every run -/

/-- Revisions are positive, do not decrease along the log, repeat only at the end of the clock, and
do not exceed the current one; the floor lies between `0` and the current revision; no row has an
empty key. -/
structure Store.Wf (s : Store) : Prop where
  sorted : s.rows.Pairwise fun a b =>
    a.modRevision < b.modRevision ∨ a.modRevision = b.modRevision ∧ b.modRevision = I64.maxValue
  le_current : ∀ r ∈ s.rows, r.modRevision ≤ s.currentRevision
  create_pos : ∀ r ∈ s.rows, 0 < r.createRevision ∧ r.createRevision ≤ r.modRevision
  key_ne_nil : ∀ r ∈ s.rows, r.key ≠ []
  compacted_nonneg : 0 ≤ s.compacted
  compacted_le : s.compacted ≤ s.currentRevision
  current_le : s.currentRevision ≤ I64.maxValue

namespace Store

theorem wf_new : Store.new.Wf := by
  refine ⟨List.Pairwise.nil, ?_, ?_, ?_, le_rfl, le_rfl, by decide⟩ <;> simp [new]

namespace Wf

variable {s s' : Store}

theorem pairwise_le (h : s.Wf) : s.rows.Pairwise fun a b => a.modRevision ≤ b.modRevision :=
  h.sorted.imp fun h => by omega

theorem current_nonneg (h : s.Wf) : 0 ≤ s.currentRevision :=
  h.compacted_nonneg.trans h.compacted_le

theorem next_current (h : s.Wf) :
    s.clock.next.current =
      if s.currentRevision = I64.maxValue then I64.maxValue else s.currentRevision + 1 :=
  Clock.next_current h.current_nonneg h.current_le

theorem getLive_mem {key : Bytes} {r : Row} (h : s.getLive key = some r) : r ∈ s.rows :=
  VersionedLog.last_mem (getLive_eq_some_iff.1 h).1

theorem appends (h : s.Wf) {row : Row} (ha : s.Appends row s') : s'.Wf := by
  have hcur : s'.currentRevision = row.modRevision := by
    rw [ha.modRevision]
    exact congrArg Clock.current ha.clock
  have hnext := h.next_current
  rw [← ha.modRevision] at hnext
  have hle := h.current_le
  have hpos := h.current_nonneg
  have hgt : s.currentRevision < row.modRevision ∨ row.modRevision = I64.maxValue := by
    split_ifs at hnext <;> omega
  have hmono : s.currentRevision ≤ row.modRevision := by
    split_ifs at hnext <;> omega
  have hrow : 0 < row.modRevision := by
    have : (0 : Int) < I64.maxValue := by decide
    split_ifs at hnext <;> omega
  refine ⟨?_, ?_, ?_, ?_, ?_, ?_, ?_⟩
  · rw [ha.rows, List.pairwise_append]
    refine ⟨h.sorted, List.pairwise_singleton _ _, fun a hm b hb => ?_⟩
    obtain rfl := List.mem_singleton.1 hb
    have := h.le_current a hm
    omega
  · rw [ha.rows, hcur]
    intro r hr
    rcases List.mem_append.1 hr with hr | hr
    · exact (h.le_current r hr).trans hmono
    · obtain rfl := List.mem_singleton.1 hr
      exact le_rfl
  · rw [ha.rows]
    intro r hr
    rcases List.mem_append.1 hr with hr | hr
    · exact h.create_pos r hr
    · obtain rfl := List.mem_singleton.1 hr
      -- a row takes the generation of the live row it follows, which is older
      rw [ha.createRevision]
      cases hl : s.getLive r.key with
      | none => exact ⟨hrow, le_rfl⟩
      | some q =>
        have hq := getLive_mem hl
        have h1 := h.create_pos q hq
        have h2 := h.le_current q hq
        exact ⟨h1.1, h1.2.trans (h2.trans hmono)⟩
  · rw [ha.rows]
    intro r hr
    rcases List.mem_append.1 hr with hr | hr
    · exact h.key_ne_nil r hr
    · obtain rfl := List.mem_singleton.1 hr
      exact ha.key
  · rw [ha.compacted]
    exact h.compacted_nonneg
  · rw [ha.compacted, hcur]
    exact h.compacted_le.trans hmono
  · rw [hcur]
    split_ifs at hnext <;> omega

theorem compacts (h : s.Wf) {target : Int} (hc : Compacts s target s') : s'.Wf := by
  have hcur := hc.current_eq
  have hsub : ∀ r ∈ s'.rows, r ∈ s.rows := fun r hr => by
    rw [hc.rows] at hr
    exact List.mem_of_mem_filter hr
  refine ⟨?_, ?_, ?_, ?_, ?_, ?_, ?_⟩
  · rw [hc.rows]
    exact h.sorted.filter _
  · rw [hcur]
    exact fun r hr => h.le_current r (hsub r hr)
  · exact fun r hr => h.create_pos r (hsub r hr)
  · exact fun r hr => h.key_ne_nil r (hsub r hr)
  · rw [hc.compacted]
    exact (h.compacted_nonneg.trans_lt hc.forward).le
  · rw [hc.compacted, hcur]
    exact hc.le_current
  · rw [hcur]
    exact h.current_le

theorem writes (h : s.Wf) {l : List Row} (hl : s.Writes l s') : s'.Wf :=
  hl.preserves (fun _ _ _ h ha => h.appends ha) h

theorem run (h : s.Wf) (ops : List StoreOp) : (run s ops).Wf :=
  run_induction (fun _ _ _ h ha => h.appends ha) (fun _ _ _ h hc => h.compacts hc) h ops

end Wf

theorem wf_run (ops : List StoreOp) : (run new ops).Wf := wf_new.run ops

end Store

/-! ## Generations -/

/-- What a row may follow: after a tombstone a new generation starts, after a live row the
generation goes on. -/
def Row.Continues (a b : Row) : Prop :=
  if a.deleted then b.createRevision = b.modRevision else b.createRevision = a.createRevision

/-- Revisions strictly increase along the log, and along the rows of each key generations follow
each other. -/
structure Store.Generations (s : Store) : Prop where
  strict : s.rows.Pairwise fun a b => a.modRevision < b.modRevision
  chain : ∀ k : Bytes, (s.rows.filter fun r => decide (r.key = k)).IsChain Row.Continues

namespace Store

theorem generations_new : Store.new.Generations :=
  ⟨List.Pairwise.nil, fun _ => List.IsChain.nil⟩

theorem Wf.strict {s : Store} (h : s.Wf) (hlt : s.currentRevision < I64.maxValue) :
    s.rows.Pairwise fun a b => a.modRevision < b.modRevision := by
  refine h.sorted.imp_of_mem ?_
  rintro a b - hb (hab | ⟨-, hmax⟩)
  · exact hab
  · have := h.le_current b hb
    omega

theorem Appends.continues {s s' : Store} {row a : Row} (h : s.Appends row s')
    (ha : s.latestRow row.key = some a) : a.Continues row := by
  have hc := h.createRevision
  unfold getLive at hc
  rw [ha, Option.filter_some] at hc
  unfold Row.Continues
  by_cases hd : a.deleted = true
  · simpa [Row.isLive, hd] using hc
  · simpa [Row.isLive, hd] using hc

theorem Generations.appends {s s' : Store} {row : Row} (h : s.Generations)
    (ha : s.Appends row s')
    (hstrict : s'.rows.Pairwise fun a b => a.modRevision < b.modRevision) : s'.Generations := by
  refine ⟨hstrict, fun k => ?_⟩
  rw [ha.rows, List.filter_append]
  by_cases hk : row.key = k
  · have hrow : ([row].filter fun r => decide (r.key = k)) = [row] := by simp [hk]
    rw [hrow, List.isChain_append]
    refine ⟨h.chain k, List.isChain_singleton _, ?_⟩
    intro x hx y hy
    rw [List.head?_cons, Option.mem_some_iff] at hy
    subst hy
    refine ha.continues ?_
    rw [latestRow_eq_last, VersionedLog.last_eq_getLast?, hk]
    exact hx
  · have hrow : ([row].filter fun r => decide (r.key = k)) = [] := by simp [hk]
    rw [hrow, List.append_nil]
    exact h.chain k

theorem Generations.compacts {s s' : Store} {target : Int} (h : s.Generations)
    (hc : Compacts s target s') : s'.Generations := by
  refine ⟨?_, fun k => ?_⟩
  · rw [hc.rows]
    exact h.strict.filter _
  rw [hc.rows, List.filter_filter, funext fun r => Bool.and_comm _ _, ← List.filter_filter]
  refine (h.chain k).suffix (VersionedLog.filter_isSuffix (h.strict.filter _) ?_)
  intro a b hab ha hb hpa
  obtain ⟨ha, hak⟩ := List.mem_filter.1 ha
  obtain ⟨hb, hbk⟩ := List.mem_filter.1 hb
  rw [retains_iff hb]
  rcases (retains_iff ha).1 hpa with hgt | ⟨-, hmax⟩
  · exact Or.inl (hgt.trans hab)
  · -- `a` is not the newest row of its key, since `b` follows it
    have hkey : b.key = a.key := (of_decide_eq_true hbk).trans (of_decide_eq_true hak).symm
    exact absurd (hmax b hb hkey) (not_le.2 hab)

theorem Appends.current_eq {s s' : Store} {row : Row} (hw : s.Wf) (ha : s.Appends row s') :
    s'.currentRevision =
      if s.currentRevision = I64.maxValue then I64.maxValue else s.currentRevision + 1 := by
  rw [← hw.next_current]
  exact congrArg Clock.current ha.clock

theorem Generations.writes {s s' : Store} {l : List Row} (hw : s.Wf) (h : s.Generations)
    (hl : s.Writes l s') (hlt : s'.currentRevision < I64.maxValue) : s'.Generations := by
  induction hl with
  | nil => exact h
  | snoc ht ha ih =>
    have hcur := ha.current_eq (hw.writes ht)
    refine (ih ?_).appends ha (((hw.writes ht).appends ha).strict hlt)
    split_ifs at hcur <;> omega

theorem Writes.current_eq_min {s s' : Store} {l : List Row} (hw : s.Wf) (hl : s.Writes l s') :
    s'.currentRevision = min (s.currentRevision + l.length) I64.maxValue := by
  induction hl with
  | nil => simpa using hw.current_le
  | snoc ht ha ih =>
    have hcur := ha.current_eq (hw.writes ht)
    rw [List.length_append, List.length_singleton]
    split_ifs at hcur <;> omega

end Store

/-! ## Runs below the end of the clock -/

theorem StoreOp.writes_of_writes {s : Store} {op : StoreOp} {l : List Row}
    (h : s.Writes l (op.run s)) : op.writes s = l.length := by
  unfold StoreOp.writes
  rw [h.rows_eq, List.length_append]
  omega

theorem StoreOp.run_current {s : Store} (hw : s.Wf) {op : StoreOp}
    (hle : s.currentRevision + op.writes s ≤ I64.maxValue) :
    (op.run s).currentRevision = s.currentRevision + op.writes s := by
  rcases op.run_cases s with ⟨l, hl⟩ | ⟨target, hc⟩
  · rw [writes_of_writes hl] at hle ⊢
    rw [hl.current_eq_min hw]
    exact min_eq_left hle
  · have hlen : (op.run s).rows.length ≤ s.rows.length := by
      rw [hc.rows]
      exact List.length_filter_le _ _
    have hzero : op.writes s = 0 := Nat.sub_eq_zero_of_le hlen
    rw [hzero, hc.current_eq]
    simp

theorem StoreOp.current_le_run {s : Store} (hw : s.Wf) (op : StoreOp) :
    s.currentRevision ≤ (op.run s).currentRevision := by
  rcases op.run_cases s with ⟨l, hl⟩ | ⟨target, hc⟩
  · rw [hl.current_eq_min hw]
    have := hw.current_le
    omega
  · exact hc.current_eq.ge

theorem StoreOp.run_generations {s : Store} (hw : s.Wf) (h : s.Generations) {op : StoreOp}
    (hlt : s.currentRevision + op.writes s < I64.maxValue) : (op.run s).Generations := by
  have hcur := StoreOp.run_current hw hlt.le
  rcases op.run_cases s with ⟨l, hl⟩ | ⟨target, hc⟩
  · exact h.writes hw hl (by omega)
  · exact h.compacts hc

theorem generations_run {s : Store} (hw : s.Wf) (h : s.Generations) (ops : List StoreOp)
    (hlt : s.currentRevision + writes s ops < I64.maxValue) : (run s ops).Generations := by
  induction ops generalizing s with
  | nil => exact h
  | cons op ops ih =>
    have hcons : writes s (op :: ops) = op.writes s + writes (op.run s) ops := rfl
    have hop : s.currentRevision + op.writes s < I64.maxValue := by omega
    have hcur := StoreOp.run_current hw hop.le
    exact ih (hw.run [op]) (StoreOp.run_generations hw h hop) (by omega)

/-! ## Point reads -/

theorem Store.Wf.resolveRead_current {s : Store} (h : s.Wf) {rev : Int}
    (hrev : rev = 0 ∨ rev = s.currentRevision) :
    s.clock.resolveRead rev = .ok s.currentRevision := by
  have := h.current_nonneg
  rcases hrev with rfl | rfl
  · exact s.clock.resolveRead_zero
  · by_cases hz : s.currentRevision = 0
    · rw [hz]
      exact hz ▸ s.clock.resolveRead_zero
    · exact Clock.resolveRead_of_pos (by omega) le_rfl

theorem execute_ofKey {s : Store} (h : s.Wf) {key : Bytes} (hk : key ≠ []) {rev : Int}
    (hrev : rev = 0 ∨ rev = s.currentRevision) :
    ∃ res, execute s ((RangeRequest.ofKey key).atRevision rev) = .ok res ∧
      res.kvs = (s.getLive key).toList := by
  have hcomp : rev = 0 ∨ s.compacted ≤ rev := by
    have := h.compacted_le
    omega
  refine ⟨_, execute_of_valid (validate_ofKey hk) (h.resolveRead_current hrev) hcomp, ?_⟩
  refine (eq_visibleRows ?_ fun row => ?_).symm
  · cases s.getLive key <;> simp
  · rw [latestAt_eq_latestRow h.le_current, Option.mem_toList,
      Store.getLive_eq_some_iff]
    have hcontains : ((RangeRequest.ofKey key).atRevision rev).contains row.key = true ↔
        row.key = key := decide_eq_true_iff
    rw [hcontains]
    constructor
    · rintro ⟨hl, hlive⟩
      have : row.key = key := VersionedLog.last_key hl
      exact ⟨this ▸ hl, hlive, this⟩
    · rintro ⟨hl, hlive, rfl⟩
      exact ⟨hl, hlive⟩

/-- The log invariant of every run that stays below the end of the clock. -/
theorem log_invariant (ops : List StoreOp) (hw : writes .new ops < I64.maxValue) :
    ((run .new ops).rows.Pairwise fun a b => a.modRevision < b.modRevision) ∧
    (∀ r ∈ (run .new ops).rows, r.modRevision ≤ (run .new ops).currentRevision) ∧
    (∀ r ∈ (run .new ops).rows, 0 < r.createRevision ∧ r.createRevision ≤ r.modRevision) ∧
    (∀ k : Bytes, ((run .new ops).rows.filter fun r => decide (r.key = k)).IsChain
      fun a b => (a.deleted = true → b.createRevision = b.modRevision) ∧
        (a.deleted = false → b.createRevision = a.createRevision)) ∧
    (run .new ops).getLive [] = none ∧
    (∀ k : Bytes, k ≠ [] → ∀ rev : Int, rev = 0 ∨ rev = (run .new ops).currentRevision →
      ∃ res, execute (run .new ops) ((RangeRequest.ofKey k).atRevision rev) = .ok res ∧
        res.kvs = ((run .new ops).getLive k).toList) := by
  have hwf := Store.wf_run ops
  have hgen : (run .new ops).Generations := by
    refine generations_run Store.wf_new Store.generations_new ops ?_
    have : Store.new.currentRevision = 0 := rfl
    omega
  refine ⟨hgen.strict, hwf.le_current, hwf.create_pos, fun k => ?_, ?_, ?_⟩
  · refine (hgen.chain k).imp fun a b h => ?_
    unfold Row.Continues at h
    split_ifs at h with hd
    · simp [hd, h]
    · simp [hd, h]
  · by_contra hne
    obtain ⟨r, hr⟩ := Option.ne_none_iff_exists'.1 hne
    exact hwf.key_ne_nil r (Store.Wf.getLive_mem hr) (VersionedLog.last_key
      (Store.getLive_eq_some_iff.1 hr).1)
  · exact fun k hk rev hrev => execute_ofKey hwf hk hrev

theorem log_invariant_recreated :
    writes .new [.create [1] [2] 0, .delete [1], .put [1] [3] 0, .compact 2] < I64.maxValue ∧
    (∀ r ∈ (run .new [.create [1] [2] 0, .delete [1], .put [1] [3] 0, .compact 2]).rows,
      0 < r.createRevision ∧ r.createRevision ≤ r.modRevision) :=
  ⟨by decide, (log_invariant _ (by decide)).2.2.1⟩

end CaveHome.Kine
