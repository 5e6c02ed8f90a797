import CaveHome.Kine.Backend
import CaveHome.Kine.Compact
import CaveHome.Kine.Watch

/-!
# The SQLite backend

One table holds the row log.  Its auto-increment primary key is the revision, a sentinel row keeps
the compacted floor, and a unique index guards the pair of name and previous revision.  A store
here is the table with the guarantees the database gives for it: the primary keys increase in scan
order, and none exceeds the last key handed out, which is never negative.  Each statement of the
source is one expression over the rows.
-/

namespace CaveHome.Kine

/-- One row of the `kine` table. -/
structure SqlRow where
  id : Int
  name : String
  created : Bool
  deleted : Bool
  createRevision : Int
  prevRevision : Int
  lease : Int
  value : Bytes
  oldValue : Bytes
  deriving DecidableEq

/-- The name of the row that records the compacted floor. -/
def compactRevKey : String := "compact_rev_key"

namespace SqlRow

/-- Rows other than the sentinel. -/
def isUser (r : SqlRow) : Bool := decide (r.name ≠ compactRevKey)

/-- The key of a row. -/
def key (r : SqlRow) : Bytes := Bytes.ofString r.name

/-- The row a list query returns. -/
def toRow (r : SqlRow) : Row where
  key := r.key
  createRevision := r.createRevision
  modRevision := r.id
  value := r.value
  lease := r.lease
  deleted := r.deleted

/-- The event a watch poll returns. -/
def toEvent (r : SqlRow) : WatchEvent where
  kind := if r.deleted then .delete else .put
  key := r.key
  value := r.value
  prevValue := r.oldValue
  revision := r.id
  createRevision := r.createRevision

/-- The sentinel, pinned at id `0` so that it takes no revision. -/
def sentinel (floor : Int) : SqlRow where
  id := 0
  name := compactRevKey
  created := false
  deleted := true
  createRevision := 0
  prevRevision := floor
  lease := 0
  value := []
  oldValue := []

theorem isUser_iff {r : SqlRow} :
    r.isUser = true ↔ r.key ≠ Bytes.ofString compactRevKey := by
  simp only [isUser, decide_eq_true_eq, ne_eq, not_iff_not]
  exact ⟨congrArg Bytes.ofString, fun hk => Bytes.ofString_injective hk⟩

theorem name_eq_of_key_eq {r q : SqlRow} (h : q.key = r.key) : q.name = r.name :=
  Bytes.ofString_injective h

/-- Record a compacted floor in the sentinel. -/
def setFloor (floor : Int) (r : SqlRow) : SqlRow :=
  if r.name = compactRevKey then { r with prevRevision := floor } else r

theorem setFloor_id (floor : Int) (r : SqlRow) : (r.setFloor floor).id = r.id := by
  unfold setFloor
  split_ifs <;> rfl

end SqlRow

/-- The table and its auto-increment counter. -/
structure SqliteStore where
  rows : List SqlRow
  seq : Int
  sorted : rows.Pairwise fun a b => a.id < b.id
  le_seq : ∀ r ∈ rows, r.id ≤ seq
  seq_nonneg : 0 ≤ seq
  deriving DecidableEq

namespace SqliteStore

/-! ## Statements -/

/-- Append a row at the next key. -/
def insertRow (t : SqliteStore) (row : Int → SqlRow) (hid : ∀ id, (row id).id = id) :
    SqliteStore where
  rows := t.rows ++ [row (t.seq + 1)]
  seq := t.seq + 1
  sorted := by
    refine List.pairwise_append.2 ⟨t.sorted, List.pairwise_singleton _ _, fun a ha b hb => ?_⟩
    rw [List.mem_singleton.1 hb, hid]
    exact Int.lt_add_one_of_le (t.le_seq a ha)
  le_seq := by
    intro r hr
    rcases List.mem_append.1 hr with hr | hr
    · exact (t.le_seq r hr).trans (Int.le_add_one le_rfl)
    · rw [List.mem_singleton.1 hr, hid]
  seq_nonneg := Int.add_nonneg t.seq_nonneg (by decide)

/-- Keep the rows that pass a test. -/
def keepWhere (t : SqliteStore) (p : SqlRow → Bool) : SqliteStore where
  rows := t.rows.filter p
  seq := t.seq
  sorted := t.sorted.filter _
  le_seq r hr := t.le_seq r (List.mem_of_mem_filter hr)
  seq_nonneg := t.seq_nonneg

/-- Change the columns of rows other than their keys. -/
def updateRows (t : SqliteStore) (f : SqlRow → SqlRow) (hid : ∀ r, (f r).id = r.id) :
    SqliteStore where
  rows := t.rows.map f
  seq := t.seq
  sorted := t.sorted.map _ fun a b h => by rwa [hid, hid]
  le_seq := by
    intro r hr
    obtain ⟨q, hq, rfl⟩ := List.mem_map.1 hr
    rw [hid]
    exact t.le_seq q hq
  seq_nonneg := t.seq_nonneg

/-- The newest row of every name: `MAX(id) … GROUP BY name`. -/
def newestPerName (rows : List SqlRow) : List SqlRow :=
  rows.filter fun r => rows.all fun q => decide (q.name = r.name → q.id ≤ r.id)

/-! ## The store -/

/-- A fresh database: the sentinel alone. -/
def openInMemory : SqliteStore where
  rows := [SqlRow.sentinel 0]
  seq := 0
  sorted := List.pairwise_singleton _ _
  le_seq := by simp [SqlRow.sentinel]
  seq_nonneg := le_rfl

/-- The header revision: the largest id of a user row. -/
def currentRevision (t : SqliteStore) : Int :=
  ((t.rows.filter SqlRow.isUser).map SqlRow.id).max?.getD 0

/-- The compacted floor. -/
def compactedRevision (t : SqliteStore) : Int :=
  ((t.rows.filter fun r => decide (r.name = compactRevKey)).map SqlRow.prevRevision).max?.getD 0

/-- The newest row of a name, live or not. -/
def latest (t : SqliteStore) (key : String) : Option SqlRow :=
  t.rows.reverse.find? fun r => decide (r.name = key)

/-- Insert one row and return its id; a new generation is created at its own id. -/
def insert (t : SqliteStore) (key : String) (created deleted : Bool)
    (createRevision prevRevision lease : Int) (value oldValue : Bytes) :
    Result Int × SqliteStore :=
  if t.seq = I64.maxValue then (.error (.backend "database or disk is full"), t)
  else if t.rows.any fun r => decide (r.name = key) && decide (r.prevRevision = prevRevision) then
    (.error (.backend "UNIQUE constraint failed: kine.name, kine.prev_revision"), t)
  else
    (.ok (t.seq + 1), t.insertRow (fun id =>
      { id, name := key, created, deleted,
        createRevision := if created then id else createRevision,
        prevRevision, lease, value, oldValue }) fun _ => rfl)

/-- Create a key that has no live row. -/
def create (t : SqliteStore) (key value : Bytes) (lease : Int) :
    Result (Option Int) × SqliteStore :=
  match keyStr key with
  | .error e => (.error e, t)
  | .ok k =>
    let latest := t.latest k
    if latest.any fun r => !r.deleted then (.ok none, t)
    else
      let prevId := (latest.map SqlRow.id).getD 0
      (t.insert k true false 0 prevId lease value []).map (·.map some) id

/-- Update a key that has a live row. -/
def update (t : SqliteStore) (key value : Bytes) (lease : Int) :
    Result (Option Int) × SqliteStore :=
  match keyStr key with
  | .error e => (.error e, t)
  | .ok k =>
    match t.latest k with
    | none => (.ok none, t)
    | some r =>
      if r.deleted then (.ok none, t)
      else (t.insert k false false r.createRevision r.id lease value r.value).map (·.map some) id

/-- Create the key if it is absent, else update it. -/
def put (t : SqliteStore) (key value : Bytes) (lease : Int) : Result Int × SqliteStore :=
  match keyStr key with
  | .error e => (.error e, t)
  | .ok k =>
    match t.latest k with
    | none => t.insert k true false 0 0 lease value []
    | some r =>
      if r.deleted then t.insert k true false 0 r.id lease value []
      else t.insert k false false r.createRevision r.id lease value r.value

/-- Append a tombstone for a key that has a live row. -/
def delete (t : SqliteStore) (key : Bytes) : Result (Option Int) × SqliteStore :=
  match keyStr key with
  | .error e => (.error e, t)
  | .ok k =>
    match t.latest k with
    | none => (.ok none, t)
    | some r =>
      if r.deleted then (.ok none, t)
      else (t.insert k false true r.createRevision r.id 0 [] r.value).map (·.map some) id

/-- The latest row of every key of a request, as of the read revision. -/
def listRows (t : SqliteStore) (req : RangeRequest) (readRev : Int) : List Row :=
  let atRev := decide (req.revision ≠ 0)
  let pattern := (likePattern req).toList
  let maxkv := newestPerName (t.rows.filter fun r =>
    SqlLike.like pattern r.name.toList && (!atRev || decide (r.id ≤ readRev)))
  let kv := t.rows.filter fun r => maxkv.any (fun m => decide (m.id = r.id)) && !r.deleted
  (kv.map SqlRow.toRow).filter fun row =>
    decide (row.key ≠ Bytes.ofString compactRevKey) && backendContains req row.key

/-- Execute a range request. -/
def range (t : SqliteStore) (req : RangeRequest) : Result RangeResponse := do
  validateRange req
  let readRev ← resolveRead req.revision t.currentRevision
  if req.revision ≠ 0 ∧ req.revision < t.compactedRevision then
    throw (.compacted req.revision t.compactedRevision)
  return respond req readRev ((t.listRows req readRev).insertionSort fun a b => a.key ≤ b.key)

/-- The watch poll: every change of a filter after a revision. -/
def watchAfter (t : SqliteStore) (filter : RangeRequest) (startRevision : Int) :
    Result (List WatchEvent) := do
  if startRevision < 0 then throw (.negativeRevision startRevision)
  if startRevision ≠ 0 ∧ startRevision < t.compactedRevision then
    throw (.compacted startRevision t.compactedRevision)
  validateRange filter
  let pattern := (likePattern filter).toList
  let rows := t.rows.filter fun r =>
    SqlLike.like pattern r.name.toList && decide (r.id > startRevision)
  return (rows.map SqlRow.toEvent).filter fun e =>
    decide (e.key ≠ Bytes.ofString compactRevKey) && backendContains filter e.key

/-- The rows that compaction keeps: above the floor, or the newest row of its name and live. -/
def retained (t : SqliteStore) (target : Int) (r : SqlRow) : Bool :=
  !(r.isUser && decide (r.id ≤ target) &&
    !((newestPerName t.rows).any fun m => !m.deleted && decide (m.id = r.id)))

/-- The number of user rows. -/
def countRows (t : SqliteStore) : Nat := (t.rows.filter SqlRow.isUser).length

/-- Compact the store up to and including `target`.  The deletion and the new floor are one
database transaction, which the unique index aborts when another row has the sentinel's name. -/
def compact (t : SqliteStore) (target : Int) : Result CompactReport × SqliteStore :=
  if target < 0 then (.error (.negativeRevision target), t)
  else if target > t.currentRevision then
    (.error (.compactFutureRevision target t.currentRevision), t)
  else if target ≤ t.compactedRevision then
    (.error (.compactionNotForward target t.compactedRevision), t)
  else
    let purged := t.keepWhere (t.retained target)
    if 1 < (purged.rows.filter fun r => decide (r.name = compactRevKey)).length then
      (.error (.backend "UNIQUE constraint failed: kine.name, kine.prev_revision"), t)
    else
      let t' := purged.updateRows (SqlRow.setFloor target) (SqlRow.setFloor_id target)
      (.ok { compacted := target, removed := t.countRows - t'.countRows,
             remaining := t'.countRows }, t')

/-! ## Reading the table -/

variable {t : SqliteStore}

theorem eq_of_id_eq {a b : SqlRow} (ha : a ∈ t.rows) (hb : b ∈ t.rows) (hab : a.id = b.id) :
    a = b := by
  by_contra hne
  have : Std.Symm fun a b : SqlRow => a.id ≠ b.id := ⟨fun _ _ h => h.symm⟩
  exact (t.sorted.imp (S := fun a b => a.id ≠ b.id) ne_of_lt).forall ha hb hne hab

theorem mem_newestPerName {rows : List SqlRow} {r : SqlRow} :
    r ∈ newestPerName rows ↔ r ∈ rows ∧ ∀ q ∈ rows, q.name = r.name → q.id ≤ r.id := by
  simp only [newestPerName, List.mem_filter, List.all_eq_true, decide_eq_true_eq]

theorem latest_mem {k : String} {r : SqlRow} (h : t.latest k = some r) :
    r ∈ t.rows ∧ r.name = k :=
  ⟨VersionedLog.last_mem h, VersionedLog.last_key h⟩

theorem id_le_of_latest {k : String} {r q : SqlRow} (h : t.latest k = some r) (hq : q ∈ t.rows)
    (hk : q.name = k) : q.id ≤ r.id :=
  VersionedLog.rev_le_of_last (t.sorted.imp le_of_lt) h hq hk

theorem le_currentRevision {r : SqlRow} (hr : r ∈ t.rows) (hu : r.isUser = true) :
    r.id ≤ t.currentRevision := by
  unfold currentRevision
  have hmem : r.id ∈ (t.rows.filter SqlRow.isUser).map SqlRow.id :=
    List.mem_map_of_mem (List.mem_filter.2 ⟨hr, hu⟩)
  cases hm : ((t.rows.filter SqlRow.isUser).map SqlRow.id).max? with
  | none => rw [List.max?_eq_none_iff.1 hm] at hmem; cases hmem
  | some m => exact (List.max?_eq_some_iff.1 hm).2 _ hmem

theorem currentRevision_le_seq (t : SqliteStore) : t.currentRevision ≤ t.seq := by
  unfold currentRevision
  cases hm : ((t.rows.filter SqlRow.isUser).map SqlRow.id).max? with
  | none => exact t.seq_nonneg
  | some m =>
    obtain ⟨r, hr, rfl⟩ := List.mem_map.1 (List.max?_eq_some_iff.1 hm).1
    exact t.le_seq r (List.mem_of_mem_filter hr)

theorem mem_listRows {req : RangeRequest} (hp : req.patternExact = true) {readRev : Int}
    (hrev : req.revision = 0 → readRev = t.currentRevision) {row : Row} :
    row ∈ t.listRows req readRev ↔ ∃ r ∈ t.rows, r.toRow = row ∧ r.isUser = true ∧
      r.deleted = false ∧ req.contains row.key = true ∧ r.id ≤ readRev ∧
      ∀ q ∈ t.rows, q.name = r.name → q.id ≤ readRev → q.id ≤ r.id := by
  -- a row is among the candidates exactly when it lies at or below the read revision
  have hcand : ∀ r ∈ t.rows, r.isUser = true →
      ((!decide (req.revision ≠ 0) || decide (r.id ≤ readRev)) = true ↔ r.id ≤ readRev) := by
    intro r hr hu
    by_cases h0 : req.revision = 0
    · simp [h0, hrev h0, le_currentRevision hr hu]
    · simp [h0]
  have huser : ∀ r : SqlRow, r.isUser = true ↔ r.toRow.key ≠ Bytes.ofString compactRevKey :=
    fun r => SqlRow.isUser_iff
  have hsame : ∀ {q r : SqlRow}, q.name = r.name → r.isUser = true → q.isUser = true :=
    fun hn hu => by simpa [SqlRow.isUser, hn] using hu
  simp only [listRows, List.mem_filter, List.mem_map, List.any_eq_true, Bool.and_eq_true,
    decide_eq_true_eq, mem_newestPerName, backendContains_eq]
  constructor
  · rintro ⟨⟨r, ⟨hr, ⟨m, ⟨⟨hm, hlike, hmc⟩, hmax⟩, hid⟩, hd⟩, rfl⟩, hne, hc⟩
    obtain rfl := eq_of_id_eq hm hr hid
    have hu := (huser m).2 hne
    refine ⟨m, hr, rfl, hu, by simpa using hd, hc, (hcand m hr hu).1 hmc, fun q hq hqn hqt => ?_⟩
    exact hmax q ⟨hq, hqn ▸ hlike, (hcand q hq (hsame hqn hu)).2 hqt⟩ hqn
  · rintro ⟨r, hr, rfl, hu, hd, hc, hle, hmax⟩
    refine ⟨⟨r, ⟨hr, ⟨r, ⟨⟨hr, like_likePattern hp hc, (hcand r hr hu).2 hle⟩, ?_⟩, rfl⟩, by
      simpa using hd⟩, rfl⟩, (huser r).1 hu, hc⟩
    rintro q ⟨hq, -, hqc⟩ hqn
    exact hmax q hq hqn ((hcand q hq (hsame hqn hu)).1 hqc)

theorem range_eq_ok {req : RangeRequest} {resp : RangeResponse} (h : t.range req = .ok resp) :
    ∃ readRev, resolveRead req.revision t.currentRevision = .ok readRev ∧
      resp = respond req readRev
        ((t.listRows req readRev).insertionSort fun a b => a.key ≤ b.key) := by
  unfold range at h
  cases hv : validateRange req with
  | error e => simp [hv, bind, Except.bind] at h
  | ok u =>
    cases hr : resolveRead req.revision t.currentRevision with
    | error e => simp [hv, hr, bind, Except.bind] at h
    | ok readRev =>
      refine ⟨readRev, rfl, ?_⟩
      simp only [hv, hr, bind, Except.bind] at h
      split_ifs at h
      exact (Except.ok.inj h).symm

theorem contains_of_mem_range {req : RangeRequest} {resp : RangeResponse}
    (h : t.range req = .ok resp) {row : Row} (hrow : row ∈ resp.kvs) :
    req.contains row.key = true := by
  obtain ⟨readRev, -, rfl⟩ := range_eq_ok h
  have hmem := (List.mem_insertionSort _).1 (mem_of_mem_respond hrow)
  simp only [listRows, List.mem_filter, Bool.and_eq_true] at hmem
  exact hmem.2.2

theorem watchAfter_of_valid {filter : RangeRequest}
    (hp : ∀ r ∈ t.rows, r.isUser = true → filter.contains r.key = true →
      SqlLike.like (likePattern filter).toList r.name.toList = true)
    (hv : validateRange filter = .ok ()) {start : Int} (h₀ : 0 ≤ start)
    (hf : start = 0 ∨ t.compactedRevision ≤ start) :
    t.watchAfter filter start = .ok ((t.rows.filter fun r =>
      r.isUser && filter.contains r.key && decide (start < r.id)).map
        SqlRow.toEvent) := by
  have hn : ¬ (start ≠ 0 ∧ start < t.compactedRevision) := by omega
  unfold watchAfter
  simp only [bind, Except.bind, if_neg (not_lt.2 h₀), if_neg hn, hv, pure, Except.pure,
    Except.ok.injEq]
  rw [List.filter_map, List.filter_filter]
  congr 1
  refine List.filter_congr fun r hr => ?_
  have huser : decide (r.toEvent.key ≠ Bytes.ofString compactRevKey) = r.isUser := by
    rw [Bool.eq_iff_iff, decide_eq_true_eq, SqlRow.isUser_iff]
    rfl
  have hcont : backendContains filter r.toEvent.key = filter.contains r.key := rfl
  simp only [Function.comp_def, huser, hcont]
  cases hu : r.isUser with
  | false => simp
  | true =>
    cases hc : filter.contains r.key with
    | false => simp
    | true => simp [hp r hr hu hc]

/-! ## What one statement does -/

/-- `t'` is `t` with `row` inserted at the next id. -/
structure Inserted (t : SqliteStore) (row : SqlRow) (t' : SqliteStore) : Prop where
  rows : t'.rows = t.rows ++ [row]
  id : row.id = t.seq + 1
  seq : t'.seq = t.seq + 1

/-- A write failed and changed nothing, or inserted a row of the name. -/
def Wrote (t : SqliteStore) (key : String) (deleted : Bool) (x : Result Int × SqliteStore) : Prop :=
  ((∃ e, x.1 = .error e) ∧ x.2 = t) ∨
    ∃ row, x.1 = .ok row.id ∧ row.name = key ∧ row.deleted = deleted ∧ Inserted t row x.2

theorem insert_wrote (t : SqliteStore) (key : String) (created deleted : Bool)
    (createRevision prevRevision lease : Int) (value oldValue : Bytes) :
    Wrote t key deleted
      (t.insert key created deleted createRevision prevRevision lease value oldValue) := by
  unfold insert
  split_ifs
  · exact Or.inl ⟨⟨_, rfl⟩, rfl⟩
  · exact Or.inl ⟨⟨_, rfl⟩, rfl⟩
  · exact Or.inr ⟨_, rfl, rfl, rfl, rfl, rfl, rfl⟩
  · exact Or.inr ⟨_, rfl, rfl, rfl, rfl, rfl, rfl⟩

theorem put_cases (t : SqliteStore) (key value : Bytes) (lease : Int) :
    ((∃ e, (t.put key value lease).1 = .error e) ∧ (t.put key value lease).2 = t) ∨
    ∃ row, (t.put key value lease).1 = .ok row.id ∧ row.key = key ∧
      row.deleted = false ∧ Inserted t row (t.put key value lease).2 := by
  cases hk : keyStr key with
  | error e => exact Or.inl ⟨⟨e, by simp [put, hk]⟩, by simp [put, hk]⟩
  | ok k =>
    obtain ⟨-, rfl⟩ := keyStr_ok_iff.1 hk
    have hw : Wrote t k false (t.put (Bytes.ofString k) value lease) := by
      simp only [put, hk]
      split
      · exact insert_wrote _ _ _ _ _ _ _ _ _
      · split_ifs
        · exact insert_wrote _ _ _ _ _ _ _ _ _
        · exact insert_wrote _ _ _ _ _ _ _ _ _
    exact hw.imp_right fun ⟨row, h₁, h₂, h₃⟩ => ⟨row, h₁, congrArg Bytes.ofString h₂, h₃⟩

theorem delete_cases (t : SqliteStore) (key : Bytes) :
    (t.delete key).2 = t ∨ ∃ row, row.key = key ∧ row.deleted = true ∧
      Inserted t row (t.delete key).2 := by
  cases hk : keyStr key with
  | error e => exact Or.inl (by simp [delete, hk])
  | ok k =>
    obtain ⟨-, rfl⟩ := keyStr_ok_iff.1 hk
    simp only [delete, hk]
    split
    · exact Or.inl rfl
    · split_ifs
      · exact Or.inl rfl
      · rename_i r _ _
        rcases t.insert_wrote k false true r.createRevision r.id 0 [] r.value with
          ⟨-, h⟩ | ⟨row, -, h₁, h₂, h₃⟩
        · exact Or.inl h
        · exact Or.inr ⟨row, congrArg Bytes.ofString h₁, h₂, h₃⟩

theorem delete_of_absent {key : Bytes} (h : ∀ r ∈ t.rows, r.key ≠ key) : (t.delete key).2 = t := by
  cases hk : keyStr key with
  | error e => simp [delete, hk]
  | ok k =>
    obtain ⟨-, rfl⟩ := keyStr_ok_iff.1 hk
    have hnone : t.latest k = none :=
      VersionedLog.last_eq_none_iff.2 fun r hr hn => h r hr (congrArg Bytes.ofString hn)
    simp [delete, hk, hnone]

/-- `t'` is `t` compacted to `target`. -/
structure Purged (t : SqliteStore) (target : Int) (t' : SqliteStore) : Prop where
  le_current : target ≤ t.currentRevision
  forward : t.compactedRevision < target
  rows : t'.rows = (t.rows.filter (t.retained target)).map (SqlRow.setFloor target)
  seq : t'.seq = t.seq

theorem compact_cases (t : SqliteStore) (target : Int) :
    ((∃ e, (t.compact target).1 = .error e) ∧ (t.compact target).2 = t) ∨
      ((∃ report, (t.compact target).1 = .ok report) ∧ Purged t target (t.compact target).2) := by
  unfold compact
  split_ifs with h1 h2 h3
  · exact Or.inl ⟨⟨_, rfl⟩, rfl⟩
  · exact Or.inl ⟨⟨_, rfl⟩, rfl⟩
  · exact Or.inl ⟨⟨_, rfl⟩, rfl⟩
  · dsimp only
    split_ifs
    · exact Or.inl ⟨⟨_, rfl⟩, rfl⟩
    · exact Or.inr ⟨⟨_, rfl⟩, not_lt.1 h2, not_le.1 h3, rfl, rfl⟩

/-! ## The sentinel and the user rows across a compaction -/

theorem sentinel_keepWhere (t : SqliteStore) (target : Int) :
    ((t.keepWhere (t.retained target)).rows.filter fun r => decide (r.name = compactRevKey)) =
      t.rows.filter fun r => decide (r.name = compactRevKey) := by
  simp only [keepWhere, List.filter_filter]
  refine List.filter_congr fun r _ => ?_
  by_cases hn : r.name = compactRevKey <;> simp [hn, retained, SqlRow.isUser]

theorem users_setFloor (t : SqliteStore) (floor : Int) :
    ((t.updateRows (SqlRow.setFloor floor) (SqlRow.setFloor_id floor)).rows.filter
      SqlRow.isUser) = t.rows.filter SqlRow.isUser := by
  have hname : ∀ r : SqlRow, (r.setFloor floor).name = r.name := fun r => by
    unfold SqlRow.setFloor
    split_ifs <;> rfl
  have hcomp : SqlRow.isUser ∘ SqlRow.setFloor floor = SqlRow.isUser := by
    funext r
    simp [SqlRow.isUser, hname]
  simp only [updateRows]
  rw [List.filter_map, hcomp]
  refine (List.map_congr_left fun r hr => ?_).trans (List.map_id _)
  have hu : r.name ≠ compactRevKey := by simpa [SqlRow.isUser] using (List.mem_filter.1 hr).2
  simp [SqlRow.setFloor, hu]

theorem sentinel_setFloor {floor₀ : Int}
    (h : (t.rows.filter fun r => decide (r.name = compactRevKey)) = [.sentinel floor₀])
    (floor : Int) :
    ((t.updateRows (SqlRow.setFloor floor) (SqlRow.setFloor_id floor)).rows.filter
      fun r => decide (r.name = compactRevKey)) = [.sentinel floor] := by
  have hcomp : ((fun r : SqlRow => decide (r.name = compactRevKey)) ∘ SqlRow.setFloor floor) =
      fun r => decide (r.name = compactRevKey) := by
    funext r
    by_cases hn : r.name = compactRevKey <;> simp [SqlRow.setFloor, hn]
  simp only [updateRows]
  rw [List.filter_map, hcomp, h]
  rfl

theorem compactedRevision_of_sentinel {floor : Int}
    (h : (t.rows.filter fun r => decide (r.name = compactRevKey)) = [.sentinel floor]) :
    t.compactedRevision = floor := by
  unfold compactedRevision
  rw [h]
  rfl

theorem Purged.sentinel {t' : SqliteStore} {target floor : Int} (h : Purged t target t')
    (hs : (t.rows.filter fun r => decide (r.name = compactRevKey)) = [.sentinel floor]) :
    (t'.rows.filter fun r => decide (r.name = compactRevKey)) = [.sentinel target] := by
  rw [h.rows]
  exact sentinel_setFloor ((t.sentinel_keepWhere target).trans hs) target

theorem retained_of_lt {target : Int} {r : SqlRow} (h : target < r.id) :
    t.retained target r = true := by
  simp [retained, not_le.2 h]

theorem Purged.users {t' : SqliteStore} {target : Int} (h : Purged t target t') :
    t'.rows.filter SqlRow.isUser = (t.rows.filter (t.retained target)).filter SqlRow.isUser := by
  rw [h.rows]
  exact users_setFloor (t.keepWhere (t.retained target)) target

theorem Purged.filter_eq {t' : SqliteStore} {target : Int} (h : Purged t target t')
    {q : SqlRow → Bool} (hq : ∀ r, q r = true → r.isUser = true)
    (hkeep : ∀ r ∈ t.rows, q r = true → t.retained target r = true) :
    t'.rows.filter q = t.rows.filter q := by
  have hsplit : ∀ l : List SqlRow, l.filter q = (l.filter SqlRow.isUser).filter q := fun l => by
    rw [List.filter_filter]
    refine List.filter_congr fun r _ => ?_
    cases hr : q r with
    | false => simp
    | true => simp [hq r hr]
  rw [hsplit t'.rows, h.users, ← hsplit, List.filter_filter]
  refine List.filter_congr fun r hr => ?_
  cases hr' : q r with
  | false => simp
  | true => simp [hkeep r hr hr']

end SqliteStore

end CaveHome.Kine
