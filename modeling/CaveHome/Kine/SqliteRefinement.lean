import CaveHome.Kine.Invariant
import CaveHome.Kine.Sqlite

/-!
# The SQLite backend refines the row log

`Refines t s` relates a table and a store: the user rows are the rows of the log, the sentinel
holds the floor, and the counter and the largest id are the current revision.  Every call with a
key that can be stored keeps the relation and gives the same reply on both sides, except a
compaction that removes the newest row: the header of the table is derived from the rows that are
left, so it falls back, while the clock of the store stays.
-/

namespace CaveHome.Kine

/-- The table `t` stores what `s` holds. -/
structure Refines (t : SqliteStore) (s : Store) : Prop where
  rows : (t.rows.filter SqlRow.isUser).map SqlRow.toRow = s.rows
  floor : (t.rows.filter fun r => decide (r.name = compactRevKey)) = [.sentinel s.compacted]
  seq : t.seq = s.currentRevision
  header : t.currentRevision = s.currentRevision
  prev : ∀ r ∈ t.rows, r.isUser = true → r.prevRevision < r.id
  wf : s.Wf

namespace SqliteStore

variable {t : SqliteStore} {s : Store}

/-! ## Reading the table -/

theorem currentRevision_eq (t : SqliteStore) :
    t.currentRevision = ((t.rows.filter SqlRow.isUser).getLast?.map SqlRow.id).getD 0 := by
  unfold currentRevision
  cases hl : (t.rows.filter SqlRow.isUser).getLast? with
  | none =>
    rw [List.getLast?_eq_none_iff.1 hl]
    rfl
  | some r =>
    obtain ⟨as, has⟩ := List.getLast?_eq_some_iff.1 hl
    have hsorted := t.sorted.filter SqlRow.isUser
    rw [has, List.pairwise_append] at hsorted
    have hmax : ((t.rows.filter SqlRow.isUser).map SqlRow.id).max? = some r.id := by
      rw [List.max?_eq_some_iff, has]
      refine ⟨by simp, fun b hb => ?_⟩
      simp only [List.map_append, List.map_cons, List.map_nil, List.mem_append, List.mem_map,
        List.mem_singleton] at hb
      rcases hb with ⟨a, ha, rfl⟩ | rfl
      · exact (hsorted.2.2 a ha r (by simp)).le
      · exact le_rfl
    rw [hmax]
    rfl

theorem compactedRevision_eq (h : Refines t s) : t.compactedRevision = s.compactedRevision :=
  compactedRevision_of_sentinel h.floor

theorem latest_eq (h : Refines t s) {k : String} (hk : k ≠ compactRevKey) :
    (t.latest k).map SqlRow.toRow = s.latestRow (Bytes.ofString k) := by
  have hfilter := VersionedLog.last_filter_key SqlRow.name t.rows
    (fun k => decide (k ≠ compactRevKey)) k
  rw [if_pos (by simpa using hk)] at hfilter
  rw [Store.latestRow_eq_last, ← h.rows,
    VersionedLog.last_map SqlRow.name Row.key Bytes.ofString_injective (fun _ => rfl)]
  exact congrArg _ hfilter.symm

theorem getLive_eq (h : Refines t s) {k : String} (hk : k ≠ compactRevKey) :
    s.getLive (Bytes.ofString k) = match t.latest k with
      | none => none
      | some r => if r.deleted then none else some r.toRow := by
  unfold Store.getLive
  rw [← latest_eq h hk]
  cases t.latest k with
  | none => rfl
  | some r => cases hd : r.deleted <;> simp [Option.filter_some, Row.isLive, SqlRow.toRow, hd]

theorem next_current_of_lt (h : s.Wf) (hlt : s.currentRevision < I64.maxValue) :
    s.clock.next.current = s.currentRevision + 1 := by
  rw [h.next_current, if_neg (by omega)]

theorem insert_refines (h : Refines t s) (hlt : s.currentRevision < I64.maxValue) {k : String}
    (hk : k ≠ compactRevKey) (created deleted : Bool) (c prev lease : Int) (value old : Bytes)
    (hprev : prev = ((t.latest k).map SqlRow.id).getD 0) {f : Int → Row}
    (hf : ∀ rev, f rev =
      ⟨Bytes.ofString k, if created then rev else c, rev, value, lease, deleted⟩)
    (hwf : (s.push f).Wf) :
    (t.insert k created deleted c prev lease value old).1 = .ok (s.push f).currentRevision ∧
      Refines (t.insert k created deleted c prev lease value old).2 (s.push f) := by
  have hnext := next_current_of_lt h.wf hlt
  have hseq := h.seq
  have hpos := h.wf.current_nonneg
  have hfree : ¬ (t.rows.any fun r => decide (r.name = k) && decide (r.prevRevision = prev)) = true
      := by
    simp only [List.any_eq_true, Bool.and_eq_true, decide_eq_true_eq]
    rintro ⟨r, hr, hrk, hrp⟩
    have hlt := h.prev r hr (by simp [SqlRow.isUser, hrk, hk])
    cases hl : t.latest k with
    | none => exact VersionedLog.last_eq_none_iff.1 hl r hr hrk
    | some q =>
      have := id_le_of_latest hl hr hrk
      rw [hl] at hprev
      simp only [Option.map_some, Option.getD_some] at hprev
      omega
  have hple : prev ≤ t.seq := by
    rw [hprev]
    cases hl : t.latest k with
    | none => simpa [hseq] using hpos
    | some q => exact t.le_seq q (latest_mem hl).1
  unfold insert
  rw [if_neg (by omega), if_neg hfree]
  have hcur : (s.push f).currentRevision = t.seq + 1 := by
    rw [hseq]
    exact hnext
  refine ⟨by rw [hcur], ?_, ?_, ?_, ?_, ?_, hwf⟩
  · simp only [insertRow, List.filter_append, List.map_append, h.rows, Store.push_rows]
    rw [hf, hnext, ← hseq]
    simp [SqlRow.isUser, hk, SqlRow.toRow, SqlRow.key]
  · simp only [insertRow, List.filter_append, h.floor, Store.push_compacted]
    simp [hk]
  · rw [hcur]
    rfl
  · rw [currentRevision_eq, hcur]
    simp [insertRow, List.filter_append, SqlRow.isUser, hk]
  · intro r hr
    rcases List.mem_append.1 hr with hr | hr
    · exact h.prev r hr
    · intro _
      rw [List.mem_singleton.1 hr]
      exact Int.lt_add_one_of_le hple

end SqliteStore

/-! ## Calls with a key -/

/-- A key that can be stored: valid UTF-8, and not the name of the sentinel. -/
def UserKey (key : Bytes) : Prop := ∃ name, Bytes.ofString name = key ∧ name ≠ compactRevKey

/-- The two sides give the same reply and stay related. -/
def Agree {α : Type} (x : Result α × SqliteStore) (y : Result α × Store) : Prop :=
  x.1 = y.1 ∧ Refines x.2 y.2

section Calls

variable {t : SqliteStore} {s : Store}

theorem Agree.unchanged {α : Type} (h : Refines t s) (r : Result α) : Agree (r, t) (r, s) :=
  ⟨rfl, h⟩

theorem Agree.mapSome {x : Result Int × SqliteStore} {s' : Store}
    (h : Agree x (.ok s'.currentRevision, s')) :
    Agree (x.map (·.map some) id) (.ok (some s'.currentRevision), s') := by
  obtain ⟨r, t'⟩ := x
  obtain ⟨rfl, h⟩ := h
  exact ⟨rfl, h⟩

theorem create_agree (h : Refines t s) (hlt : s.currentRevision < I64.maxValue) {key : Bytes}
    (hkey : UserKey key) (value : Bytes) (lease : Int) :
    Agree (t.create key value lease) (s.create key value lease) := by
  have hwf : (s.create key value lease).2.Wf := h.wf.run [.create key value lease]
  obtain ⟨k, rfl, hk⟩ := hkey
  unfold SqliteStore.create
  unfold Store.create at hwf ⊢
  by_cases hne : Bytes.ofString k = []
  · rw [hne]
    exact .unchanged h _
  rw [keyStr_ok_iff.2 ⟨hne, rfl⟩]
  rw [if_neg (by simpa using hne), SqliteStore.getLive_eq h hk] at hwf ⊢
  have hins := fun hwf => SqliteStore.insert_refines h hlt hk true false 0 _ lease value [] rfl
    (f := fun rev => ⟨Bytes.ofString k, rev, rev, value, lease, false⟩) (fun _ => rfl) hwf
  dsimp only
  cases hl : t.latest k with
  | none =>
    rw [hl] at hwf hins
    exact Agree.mapSome (hins hwf)
  | some r =>
    rw [hl] at hwf hins
    cases hd : r.deleted with
    | true =>
      simp only [hd, if_true, Option.isSome_none, Bool.false_eq_true, if_false, Option.any_some,
        Bool.not_true] at hwf ⊢
      exact Agree.mapSome (hins hwf)
    | false => simpa [hd] using Agree.unchanged h _

theorem update_agree (h : Refines t s) (hlt : s.currentRevision < I64.maxValue) {key : Bytes}
    (hkey : UserKey key) (value : Bytes) (lease : Int) :
    Agree (t.update key value lease) (s.update key value lease) := by
  have hwf : (s.update key value lease).2.Wf := h.wf.run [.update key value lease]
  obtain ⟨k, rfl, hk⟩ := hkey
  unfold SqliteStore.update
  unfold Store.update at hwf ⊢
  by_cases hne : Bytes.ofString k = []
  · rw [hne]
    exact .unchanged h _
  rw [keyStr_ok_iff.2 ⟨hne, rfl⟩]
  rw [if_neg (by simpa using hne), SqliteStore.getLive_eq h hk] at hwf ⊢
  dsimp only
  cases hl : t.latest k with
  | none => exact .unchanged h _
  | some r =>
    rw [hl] at hwf
    cases hd : r.deleted with
    | true => simpa [hd] using Agree.unchanged h _
    | false =>
      simp only [hd, Bool.false_eq_true, if_false, Option.map_some] at hwf ⊢
      exact Agree.mapSome (SqliteStore.insert_refines h hlt hk false false r.createRevision r.id
        lease value r.value (by simp [hl]) (fun _ => rfl) hwf)

theorem put_agree (h : Refines t s) (hlt : s.currentRevision < I64.maxValue) {key : Bytes}
    (hkey : UserKey key) (value : Bytes) (lease : Int) :
    Agree (t.put key value lease) (s.put key value lease) := by
  have hwf : (s.put key value lease).2.Wf := h.wf.run [.put key value lease]
  obtain ⟨k, rfl, hk⟩ := hkey
  unfold SqliteStore.put
  unfold Store.put at hwf ⊢
  by_cases hne : Bytes.ofString k = []
  · rw [hne]
    exact .unchanged h _
  rw [keyStr_ok_iff.2 ⟨hne, rfl⟩]
  rw [if_neg (by simpa using hne), SqliteStore.getLive_eq h hk] at hwf ⊢
  dsimp only
  cases hl : t.latest k with
  | none =>
    rw [hl] at hwf
    exact SqliteStore.insert_refines h hlt hk true false 0 0 lease value [] (by simp [hl])
      (fun _ => rfl) hwf
  | some r =>
    rw [hl] at hwf
    cases hd : r.deleted with
    | true =>
      simp only [hd, if_true] at hwf ⊢
      exact SqliteStore.insert_refines h hlt hk true false 0 r.id lease value [] (by simp [hl])
        (fun _ => rfl) hwf
    | false =>
      simp only [hd, Bool.false_eq_true, if_false, Option.map_some] at hwf ⊢
      exact SqliteStore.insert_refines h hlt hk false false r.createRevision r.id lease value
        r.value (by simp [hl]) (fun _ => rfl) hwf

theorem delete_agree (h : Refines t s) (hlt : s.currentRevision < I64.maxValue) {key : Bytes}
    (hkey : UserKey key) : Agree (t.delete key) (s.delete key) := by
  have hwf : (s.delete key).2.Wf := h.wf.run [.delete key]
  obtain ⟨k, rfl, hk⟩ := hkey
  unfold SqliteStore.delete
  unfold Store.delete at hwf ⊢
  by_cases hne : Bytes.ofString k = []
  · rw [hne]
    exact .unchanged h _
  rw [keyStr_ok_iff.2 ⟨hne, rfl⟩]
  rw [if_neg (by simpa using hne), SqliteStore.getLive_eq h hk] at hwf ⊢
  dsimp only
  cases hl : t.latest k with
  | none => exact .unchanged h _
  | some r =>
    rw [hl] at hwf
    cases hd : r.deleted with
    | true => simpa [hd] using Agree.unchanged h _
    | false =>
      simp only [hd, Bool.false_eq_true, if_false, Option.map_some] at hwf ⊢
      exact Agree.mapSome (SqliteStore.insert_refines h hlt hk false true r.createRevision r.id
        0 [] r.value (by simp [hl]) (fun _ => rfl) hwf)

end Calls

/-! ## Compaction -/

section Compaction

variable {t : SqliteStore} {s : Store}

theorem Refines.mem_rows (h : Refines t s) {row : Row} :
    row ∈ s.rows ↔ ∃ r ∈ t.rows, r.isUser = true ∧ r.toRow = row := by
  rw [← h.rows]
  simp [and_assoc]

theorem Refines.strict (h : Refines t s) :
    s.rows.Pairwise fun a b => a.modRevision < b.modRevision := by
  rw [← h.rows]
  exact (t.sorted.filter _).map _ fun _ _ hab => hab

theorem retained_eq_retains (h : Refines t s) (target : Int) {r : SqlRow} (hr : r ∈ t.rows)
    (hu : r.isUser = true) :
    t.retained target r = retains (latestRowRevisionPerKey s.rows) target r.toRow := by
  have hrow : r.toRow ∈ s.rows := h.mem_rows.2 ⟨r, hr, hu, rfl⟩
  have hnewest : (∃ m ∈ SqliteStore.newestPerName t.rows, m.deleted = false ∧ m.id = r.id) ↔
      r.toRow.isLive = true ∧
        ∀ q ∈ s.rows, q.key = r.toRow.key → q.modRevision ≤ r.toRow.modRevision := by
    constructor
    · rintro ⟨m, hm, hd, hid⟩
      obtain ⟨hmem, hmax⟩ := SqliteStore.mem_newestPerName.1 hm
      obtain rfl := SqliteStore.eq_of_id_eq hmem hr hid
      refine ⟨by simp [Row.isLive, SqlRow.toRow, hd], fun q hq hqk => ?_⟩
      obtain ⟨q, hq', -, rfl⟩ := h.mem_rows.1 hq
      exact hmax q hq' (Bytes.ofString_injective hqk)
    · rintro ⟨hd, hmax⟩
      refine ⟨r, SqliteStore.mem_newestPerName.2 ⟨hr, fun q hq hqk => ?_⟩, ?_, rfl⟩
      · have hqu : q.isUser = true := by simpa [SqlRow.isUser, hqk] using hu
        exact hmax q.toRow (h.mem_rows.2 ⟨q, hq, hqu, rfl⟩) (congrArg Bytes.ofString hqk)
      · simpa [Row.isLive, SqlRow.toRow] using hd
  rw [Bool.eq_iff_iff, retains_iff hrow, ← hnewest]
  simp only [SqliteStore.retained, hu, Bool.true_and, Bool.not_and, Bool.not_not, Bool.or_eq_true,
    Bool.not_eq_true', decide_eq_false_iff_not, not_le, List.any_eq_true, Bool.and_eq_true,
    decide_eq_true_eq]
  rfl

theorem currentRevision_of_rows {rows : List Row}
    (h : (t.rows.filter SqlRow.isUser).map SqlRow.toRow = rows) :
    t.currentRevision = (rows.getLast?.map Row.modRevision).getD 0 := by
  rw [t.currentRevision_eq, ← h, List.getLast?_map, Option.map_map]
  rfl

theorem getLast?_filter_retains (h : Refines t s) (target : Int) (hpos : 0 < target)
    (hle : target ≤ s.currentRevision)
    (hnew : target = s.currentRevision → ∀ r ∈ s.rows.getLast?, r.isLive = true) :
    (s.rows.filter (retains (latestRowRevisionPerKey s.rows) target)).getLast? =
      s.rows.getLast? := by
  have hhead := h.header
  rw [currentRevision_of_rows h.rows] at hhead
  cases hl : s.rows.getLast? with
  | none =>
    rw [hl] at hhead
    simp only [Option.map_none, Option.getD_none] at hhead
    omega
  | some r =>
    rw [hl] at hhead
    simp only [Option.map_some, Option.getD_some] at hhead
    obtain ⟨as, has⟩ := List.getLast?_eq_some_iff.1 hl
    have hr : r ∈ s.rows := by simp [has]
    have hkeep : retains (latestRowRevisionPerKey s.rows) target r = true := by
      rw [retains_iff hr]
      by_cases hlt : target < r.modRevision
      · exact Or.inl hlt
      · refine Or.inr ⟨hnew (by omega) r hl, fun q hq _ => ?_⟩
        have := h.wf.le_current q hq
        omega
    rw [has, List.filter_append, List.filter_cons_of_pos (by rw [← has]; exact hkeep)]
    simp

namespace SqliteStore

theorem users_keepWhere (h : Refines t s) (target : Int) :
    ((t.keepWhere (t.retained target)).rows.filter SqlRow.isUser).map SqlRow.toRow =
      s.rows.filter (retains (latestRowRevisionPerKey s.rows) target) := by
  have hcomm : (t.keepWhere (t.retained target)).rows.filter SqlRow.isUser =
      (t.rows.filter SqlRow.isUser).filter (t.retained target) := by
    simp only [keepWhere, List.filter_filter, Bool.and_comm]
  conv_rhs => rw [← h.rows]
  rw [hcomm, List.filter_map, h.rows]
  congr 1
  refine List.filter_congr fun r hr => ?_
  obtain ⟨hr, hu⟩ := List.mem_filter.1 hr
  exact retained_eq_retains h target hr hu

theorem countRows_eq {rows : List Row}
    (h : (t.rows.filter SqlRow.isUser).map SqlRow.toRow = rows) : t.countRows = rows.length := by
  rw [← h, List.length_map]
  rfl

end SqliteStore

theorem compact_agree (h : Refines t s) {target : Int}
    (hnew : target = s.currentRevision → ∀ r ∈ s.rows.getLast?, r.isLive = true) :
    Agree (t.compact target) (compact s target) := by
  have hwf : (compact s target).2.Wf := h.wf.run [.compact target]
  unfold SqliteStore.compact
  unfold compact at hwf ⊢
  rw [h.header, SqliteStore.compactedRevision_eq h]
  split_ifs at hwf ⊢ with h1 h2 h3
  · exact .unchanged h _
  · exact .unchanged h _
  · exact .unchanged h _
  · have hnonneg : 0 ≤ s.compactedRevision := h.wf.compacted_nonneg
    have hlast := getLast?_filter_retains h target (by omega) (by omega) hnew
    have hsent := (t.sentinel_keepWhere target).trans h.floor
    have husers : (((t.keepWhere (t.retained target)).updateRows (SqlRow.setFloor target)
        (SqlRow.setFloor_id target)).rows.filter SqlRow.isUser).map SqlRow.toRow =
        s.rows.filter (retains (latestRowRevisionPerKey s.rows) target) := by
      rw [SqliteStore.users_setFloor, SqliteStore.users_keepWhere h target]
    dsimp only at hwf ⊢
    rw [hsent]
    simp only [List.length_singleton, lt_irrefl, if_false]
    refine ⟨?_, ?_, ?_, ?_, ?_, ?_, ?_⟩
    · simp only [SqliteStore.countRows_eq husers, SqliteStore.countRows_eq h.rows]
    · exact husers
    · exact SqliteStore.sentinel_setFloor hsent target
    · exact h.seq
    · rw [currentRevision_of_rows husers, hlast, ← currentRevision_of_rows h.rows]
      exact h.header
    · intro r hr hu
      obtain ⟨q, hq, rfl⟩ := List.mem_map.1 hr
      have hqu : q.name ≠ compactRevKey := by
        intro hn
        simp [SqlRow.isUser, SqlRow.setFloor, hn] at hu
      rw [show SqlRow.setFloor target q = q by simp [SqlRow.setFloor, hqu]]
      exact h.prev q (List.mem_of_mem_filter hq) (by simpa [SqlRow.isUser] using hqu)
    · exact hwf

end Compaction

section Range

variable {t : SqliteStore} {s : Store}

theorem mem_listRows_iff (h : Refines t s) {req : RangeRequest} (hp : req.patternExact = true)
    {readRev : Int} (hrev : req.revision = 0 → readRev = s.currentRevision) {row : Row} :
    row ∈ t.listRows req readRev ↔
      latestAt s row.key readRev = some row ∧ row.isLive = true ∧
        req.contains row.key = true := by
  rw [SqliteStore.mem_listRows hp (by rwa [h.header]), latestAt_eq_lastAt,
    VersionedLog.lastAt_eq_some_iff h.strict]
  constructor
  · rintro ⟨r, hr, rfl, hu, hd, hc, hle, hmax⟩
    refine ⟨⟨h.mem_rows.2 ⟨r, hr, hu, rfl⟩, rfl, hle, ?_⟩, ?_, hc⟩
    · intro q hq hqk hqt
      obtain ⟨q', hq', -, rfl⟩ := h.mem_rows.1 hq
      exact hmax q' hq' (Bytes.ofString_injective hqk) hqt
    · simp [Row.isLive, SqlRow.toRow, hd]
  · rintro ⟨⟨hmem, -, hle, hmax⟩, hlive, hc⟩
    obtain ⟨r, hr, hu, rfl⟩ := h.mem_rows.1 hmem
    refine ⟨r, hr, rfl, hu, by simpa [Row.isLive, SqlRow.toRow] using hlive, hc, hle, ?_⟩
    intro q hq hqn hqt
    have hqu : q.isUser = true := by simpa [SqlRow.isUser, hqn] using hu
    exact hmax q.toRow (h.mem_rows.2 ⟨q, hq, hqu, rfl⟩) (congrArg Bytes.ofString hqn) hqt

theorem listRows_sorted_eq (h : Refines t s) {req : RangeRequest}
    (hp : req.patternExact = true) {readRev : Int}
    (hrev : req.revision = 0 → readRev = s.currentRevision) :
    (t.listRows req readRev).insertionSort (fun a b => a.key ≤ b.key) =
      visibleRows s req readRev := by
  have hmem : ∀ row, row ∈ (t.listRows req readRev).insertionSort (fun a b => a.key ≤ b.key) ↔ _ :=
    fun row => (List.mem_insertionSort _).trans (mem_listRows_iff h hp hrev)
  refine eq_visibleRows ?_ hmem
  have hle := List.pairwise_insertionSort (fun a b : Row => a.key ≤ b.key) (t.listRows req readRev)
  have hne : ((t.listRows req readRev).insertionSort fun a b => a.key ≤ b.key).Pairwise
      fun a b => a ≠ b := by
    refine (List.perm_insertionSort _ _).pairwise_iff (fun h => h.symm) |>.2 ?_
    have hmod : (t.listRows req readRev).Pairwise fun a b => a.modRevision < b.modRevision :=
      (List.Pairwise.map SqlRow.toRow (fun _ _ hab => hab) (t.sorted.filter _)).filter _
    exact hmod.imp fun hab he => by simp [he] at hab
  refine (hle.and hne).imp_of_mem fun {a b} ha hb hab => lt_of_le_of_ne hab.1 fun hk => hab.2 ?_
  -- two rows of one key are both the newest row of that key
  have h₁ := ((hmem a).1 ha).1
  have h₂ := ((hmem b).1 hb).1
  rw [hk, h₂] at h₁
  exact (Option.some.inj h₁).symm

theorem range_eq (h : Refines t s) {req : RangeRequest} (hp : req.patternExact = true) :
    t.range req = execute s req := by
  unfold SqliteStore.range execute
  rw [validateRange_eq, h.header, SqliteStore.compactedRevision_eq h]
  rw [Store.currentRevision, resolveRead_eq]
  cases validate req with
  | error e => rfl
  | ok u =>
    cases ht : s.clock.resolveRead req.revision with
    | error e => rfl
    | ok readRev =>
      have hrev : req.revision = 0 → readRev = s.currentRevision := fun h0 => by
        rcases Clock.resolveRead_ok ht with ⟨-, h⟩ | ⟨h, -⟩
        · exact h
        · omega
      simp only [bind, Except.bind, listRows_sorted_eq h hp hrev]

end Range

/-! ## Runs -/

/-- A call on a store. -/
inductive Call
  | create (key value : Bytes) (lease : Int)
  | update (key value : Bytes) (lease : Int)
  | put (key value : Bytes) (lease : Int)
  | delete (key : Bytes)
  | compact (target : Int)
  | range (req : RangeRequest)

/-- What a call returns. -/
inductive Reply
  | revision (r : Result (Option Int))
  | put (r : Result Int)
  | compact (r : Result CompactReport)
  | range (r : Result RangeResponse)
  deriving DecidableEq

namespace Call

/-- The call on the SQLite backend. -/
def onSqlite (t : SqliteStore) : Call → Reply × SqliteStore
  | .create key value lease => (t.create key value lease).map .revision id
  | .update key value lease => (t.update key value lease).map .revision id
  | .put key value lease => (t.put key value lease).map .put id
  | .delete key => (t.delete key).map .revision id
  | .compact target => (t.compact target).map .compact id
  | .range req => (.range (t.range req), t)

/-- The call on the row log. -/
def onStore (s : Store) : Call → Reply × Store
  | .create key value lease => (s.create key value lease).map .revision id
  | .update key value lease => (s.update key value lease).map .revision id
  | .put key value lease => (s.put key value lease).map .put id
  | .delete key => (s.delete key).map .revision id
  | .compact target => (Kine.compact s target).map .compact id
  | .range req => (.range (execute s req), s)

/-- The calls both sides answer alike in `s`: writes to keys that can be stored while revisions
last; compactions that do not remove the newest row; queries whose pattern cuts no character in
two. -/
def Faithful (s : Store) : Call → Prop
  | .create key _ _ | .update key _ _ | .put key _ _ | .delete key =>
    UserKey key ∧ s.currentRevision < I64.maxValue
  | .compact target => target = s.currentRevision → ∀ r ∈ s.rows.getLast?, r.isLive = true
  | .range req => req.patternExact = true

theorem Faithful.agree {t : SqliteStore} {s : Store} {c : Call} (h : Refines t s)
    (hc : c.Faithful s) :
    (c.onSqlite t).1 = (c.onStore s).1 ∧ Refines (c.onSqlite t).2 (c.onStore s).2 := by
  have key : ∀ {α : Type} {f : Result α → Reply} {x : Result α × SqliteStore}
      {y : Result α × Store}, Agree x y →
      (x.map f id).1 = (y.map f id).1 ∧ Refines (x.map f id).2 (y.map f id).2 := by
    intro α f x y hxy
    exact ⟨congrArg f hxy.1, hxy.2⟩
  cases c with
  | create k v l => exact key (create_agree h hc.2 hc.1 v l)
  | update k v l => exact key (update_agree h hc.2 hc.1 v l)
  | put k v l => exact key (put_agree h hc.2 hc.1 v l)
  | delete k => exact key (delete_agree h hc.2 hc.1)
  | compact target => exact key (compact_agree h hc)
  | range req => exact ⟨congrArg Reply.range (range_eq h hc), h⟩

end Call

/-- Every call of a sequence is faithful in the store it meets. -/
def FaithfulRun : Store → List Call → Prop
  | _, [] => True
  | s, c :: calls => c.Faithful s ∧ FaithfulRun (c.onStore s).2 calls

/-- The table after a sequence of calls. -/
def runSqlite (t : SqliteStore) (calls : List Call) : SqliteStore :=
  calls.foldl (fun t c => (c.onSqlite t).2) t

/-- The log after a sequence of calls. -/
def runStore (s : Store) (calls : List Call) : Store :=
  calls.foldl (fun s c => (c.onStore s).2) s

theorem refines_openInMemory : Refines .openInMemory .new :=
  ⟨by decide, by decide, rfl, by decide, by decide, Store.wf_new⟩

theorem refines_run {t : SqliteStore} {s : Store} (h : Refines t s) {calls : List Call}
    (hc : FaithfulRun s calls) : Refines (runSqlite t calls) (runStore s calls) := by
  induction calls generalizing t s with
  | nil => exact h
  | cons c calls ih => exact ih (hc.1.agree h).2 hc.2

theorem FaithfulRun.append {s : Store} {l m : List Call} (h : FaithfulRun s (l ++ m)) :
    FaithfulRun s l ∧ FaithfulRun (runStore s l) m := by
  induction l generalizing s with
  | nil => exact ⟨trivial, h⟩
  | cons c l ih => exact ⟨⟨h.1, (ih h.2).1⟩, (ih h.2).2⟩

theorem Call.current_le {s : Store} (hw : s.Wf) (c : Call) :
    s.currentRevision ≤ (c.onStore s).2.currentRevision := by
  cases c with
  | create k v l => exact StoreOp.current_le_run hw (.create k v l)
  | update k v l => exact StoreOp.current_le_run hw (.update k v l)
  | put k v l => exact StoreOp.current_le_run hw (.put k v l)
  | delete k => exact StoreOp.current_le_run hw (.delete k)
  | compact target => exact StoreOp.current_le_run hw (.compact target)
  | range req => exact le_rfl

/-- In every run of faithful calls from empty, each call gives the same reply on the table and on
the log, after it the two have the same header and the same floor, and the header does not
decrease. -/
theorem sqlite_refines_store (calls : List Call) (h : FaithfulRun .new calls) :
    ∀ pre c post, calls = pre ++ c :: post →
      (c.onSqlite (runSqlite .openInMemory pre)).1 = (c.onStore (runStore .new pre)).1 ∧
      (c.onSqlite (runSqlite .openInMemory pre)).2.currentRevision =
        (c.onStore (runStore .new pre)).2.currentRevision ∧
      (c.onSqlite (runSqlite .openInMemory pre)).2.compactedRevision =
        (c.onStore (runStore .new pre)).2.compactedRevision ∧
      (runSqlite .openInMemory pre).currentRevision ≤
        (c.onSqlite (runSqlite .openInMemory pre)).2.currentRevision := by
  rintro pre c post rfl
  obtain ⟨hpre, hc, -⟩ := h.append
  have href := refines_run refines_openInMemory hpre
  obtain ⟨hreply, hnext⟩ := hc.agree href
  refine ⟨hreply, hnext.header, SqliteStore.compactedRevision_eq hnext, ?_⟩
  rw [href.header, hnext.header]
  exact Call.current_le href.wf c

/-- A key is created, deleted and created again, and the compaction below the new row is answered
alike. -/
theorem sqlite_refines_store_recreated :
    (Call.onSqlite (runSqlite .openInMemory [.create [97] [1] 0, .delete [97], .put [97] [2] 0])
        (.compact 3)).1 =
      (Call.onStore (runStore .new [.create [97] [1] 0, .delete [97], .put [97] [2] 0])
        (.compact 3)).1 ∧
    (Call.onSqlite (runSqlite .openInMemory [.create [97] [1] 0, .delete [97], .put [97] [2] 0])
        (.compact 3)).2.currentRevision =
      (Call.onStore (runStore .new [.create [97] [1] 0, .delete [97], .put [97] [2] 0])
        (.compact 3)).2.currentRevision := by
  have hkey : UserKey [97] := ⟨"a", by decide, by decide⟩
  obtain ⟨hreply, hcurrent, -⟩ := sqlite_refines_store
    [.create [97] [1] 0, .delete [97], .put [97] [2] 0, .compact 3]
    ⟨⟨hkey, by decide⟩, ⟨hkey, by decide⟩, ⟨hkey, by decide⟩, fun _ => by decide, trivial⟩
    [.create [97] [1] 0, .delete [97], .put [97] [2] 0] (.compact 3) [] rfl
  exact ⟨hreply, hcurrent⟩

/-- A compaction at a tombstone that is the newest row takes the header of the table back to
nothing, while the log keeps it. -/
theorem sqlite_header_falls :
    (Call.onSqlite (runSqlite .openInMemory [.create [97] [1] 0, .delete [97]])
      (.compact 2)).2.currentRevision = 0 ∧
    (Call.onStore (runStore .new [.create [97] [1] 0, .delete [97]])
      (.compact 2)).2.currentRevision = 2 := by
  decide

end CaveHome.Kine
