import CaveHome.Kine.Store

/-!
# Range queries

A range query selects the keys of an interval and returns, for each of them, the row that was
newest at the read revision, unless that row is a tombstone.  `mem_visibleRows` and
`visibleRows_sorted` describe the selected rows completely: they are the live rows of the interval
as of the revision, in key order, so two stores with the same view answer alike.
-/

namespace CaveHome.Kine

/-- The upper bound of a range request. -/
inductive RangeEnd
  | single
  | prefixScan
  | explicit (e : Bytes)
  | allKeys
  deriving DecidableEq

/-- A range query; revision `0` reads the current state, limit `0` is no limit. -/
structure RangeRequest where
  key : Bytes
  rangeEnd : RangeEnd
  revision : Int := 0
  limit : Int := 0
  deriving DecidableEq

namespace RangeRequest

/-- A point get. -/
def ofKey (key : Bytes) : RangeRequest := { key, rangeEnd := .single }

/-- A scan of the keys that begin with `key`. -/
def ofPrefix (key : Bytes) : RangeRequest := { key, rangeEnd := .prefixScan }

/-- The whole keyspace. -/
def all : RangeRequest := { key := [], rangeEnd := .allKeys }

/-- The same request at a past revision. -/
def atRevision (req : RangeRequest) (revision : Int) : RangeRequest := { req with revision }

/-- Whether a key lies in the interval of the request. -/
def contains (req : RangeRequest) (candidate : Bytes) : Bool :=
  match req.rangeEnd with
  | .single => decide (candidate = req.key)
  | .prefixScan => req.key.isPrefixOf candidate
  | .allKeys => true
  | .explicit e => decide (req.key ≤ candidate) && decide (candidate < e)

end RangeRequest

/-- The rows of an answer, with the revision it was served at, whether a limit cut it short, and
how many keys matched before the limit. -/
structure RangeResponse where
  revision : Int
  kvs : List Row
  more : Bool
  count : Int
  deriving DecidableEq

/-- The checks of a request that do not depend on the store. -/
def validate (req : RangeRequest) : Result Unit :=
  if req.limit < 0 then .error (.negativeLimit req.limit)
  else match req.rangeEnd with
    | .allKeys => .ok ()
    | .single | .prefixScan => if req.key.isEmpty then .error .emptyKey else .ok ()
    | .explicit e =>
      if req.key.isEmpty then .error .emptyKey
      else if e ≤ req.key then .error .invalidRange
      else .ok ()

/-- The keys of the log in the order they were first seen. -/
def distinctKeysInOrder (s : Store) : List Bytes :=
  s.rows.foldl (fun keys row => if keys.contains row.key then keys else keys ++ [row.key]) []

/-- The newest row of a key at or below the read revision, live or not. -/
def latestAt (s : Store) (key : Bytes) (readRev : Int) : Option Row :=
  s.rows.reverse.find? fun r => decide (r.key = key) && decide (r.modRevision ≤ readRev)

/-- The live rows of the interval as of the read revision, sorted by key. -/
def visibleRows (s : Store) (req : RangeRequest) (readRev : Int) : List Row :=
  ((distinctKeysInOrder s).filterMap fun key =>
    match latestAt s key readRev with
    | some row => if row.isLive && req.contains row.key then some row else none
    | none => none).insertionSort fun a b => a.key ≤ b.key

/-- Apply the limit of a request to the selected rows. -/
def respond (req : RangeRequest) (readRev : Int) (latest : List Row) : RangeResponse :=
  let count : Int := latest.length
  if req.limit > 0 ∧ count > req.limit then
    { revision := readRev, kvs := latest.take req.limit.toNat, more := true, count }
  else { revision := readRev, kvs := latest, more := false, count }

/-- Execute a range request. -/
def execute (s : Store) (req : RangeRequest) : Result RangeResponse := do
  validate req
  let readRev ← s.clock.resolveRead req.revision
  if req.revision ≠ 0 ∧ req.revision < s.compactedRevision then
    throw (.compacted req.revision s.compactedRevision)
  return respond req readRev (visibleRows s req readRev)

/-- Increment the last byte that is not `0xFF` of a reversed byte string, dropping those after
it. -/
def bumpLast : Bytes → Option Bytes
  | [] => none
  | last :: rest => if last < 0xFF then some ((last + 1) :: rest) else bumpLast rest

/-- The least key above every key that begins with `key`; `[0]` when there is none. -/
def prefixSuccessor (key : Bytes) : Bytes :=
  match bumpLast key.reverse with
  | some e => e.reverse
  | none => [0]

/-! ## The selected rows -/

theorem latestAt_eq_lastAt (s : Store) (key : Bytes) (t : Int) :
    latestAt s key t = VersionedLog.lastAt Row.key Row.modRevision s.rows key t := rfl

theorem latestAt_eq_latestRow {s : Store} {t : Int} (h : ∀ r ∈ s.rows, r.modRevision ≤ t)
    (key : Bytes) : latestAt s key t = s.latestRow key :=
  VersionedLog.lastAt_eq_last h key

theorem distinctKeysInOrder_spec (s : Store) :
    (distinctKeysInOrder s).Nodup ∧
      ∀ k, k ∈ distinctKeysInOrder s ↔ k ∈ [] ∨ True ∧ ∃ r ∈ s.rows, r.key = k := by
  refine VersionedLog.foldl_collect Row.key (fun ks r => ?_) s.rows List.nodup_nil
  by_cases h : r.key ∈ ks <;> simp [h]

theorem mem_distinctKeysInOrder {s : Store} {key : Bytes} :
    key ∈ distinctKeysInOrder s ↔ ∃ r ∈ s.rows, r.key = key := by
  simpa using (distinctKeysInOrder_spec s).2 key

theorem mem_visibleRows {s : Store} {req : RangeRequest} {t : Int} {row : Row} :
    row ∈ visibleRows s req t ↔
      latestAt s row.key t = some row ∧ row.isLive = true ∧ req.contains row.key = true := by
  unfold visibleRows
  rw [List.mem_insertionSort, List.mem_filterMap]
  constructor
  · rintro ⟨key, -, h⟩
    cases hl : latestAt s key t with
    | none => simp [hl] at h
    | some r =>
      rw [hl] at h
      simp only [Option.ite_none_right_eq_some, Bool.and_eq_true, Option.some.injEq] at h
      obtain ⟨⟨h1, h2⟩, rfl⟩ := h
      have hk : r.key = key := (VersionedLog.lastAt_mem hl).2.1
      exact ⟨hk ▸ hl, h1, h2⟩
  · rintro ⟨hl, h1, h2⟩
    refine ⟨row.key, mem_distinctKeysInOrder.2 ⟨row, (VersionedLog.lastAt_mem hl).1, rfl⟩, ?_⟩
    simp [hl, h1, h2]

theorem visibleRows_sorted (s : Store) (req : RangeRequest) (t : Int) :
    (visibleRows s req t).Pairwise fun a b => a.key < b.key := by
  have hle : (visibleRows s req t).Pairwise fun a b => a.key ≤ b.key :=
    List.pairwise_insertionSort (fun a b : Row => a.key ≤ b.key) _
  have hne : (visibleRows s req t).Pairwise fun a b => a.key ≠ b.key := by
    refine (List.perm_insertionSort _ _).pairwise_iff (fun h => h.symm) |>.2 ?_
    refine List.Pairwise.filterMap _ ?_ (distinctKeysInOrder_spec s).1
    intro k k' hk r hr r' hr' he
    have key_eq : ∀ {k r}, (match latestAt s k t with
        | some row => if row.isLive && req.contains row.key then some row else none
        | none => none) = some r → r.key = k := by
      intro k r h
      cases hl : latestAt s k t with
      | none => simp [hl] at h
      | some q =>
        simp only [hl, Option.ite_none_right_eq_some, Option.some.injEq] at h
        exact h.2 ▸ (VersionedLog.lastAt_mem hl).2.1
    exact hk ((key_eq hr).symm.trans (he.trans (key_eq hr')))
  exact (hle.and hne).imp fun h => lt_of_le_of_ne h.1 h.2

theorem eq_visibleRows {s : Store} {req : RangeRequest} {t : Int} {l : List Row}
    (hl : l.Pairwise fun a b => a.key < b.key)
    (hm : ∀ row, row ∈ l ↔
      latestAt s row.key t = some row ∧ row.isLive = true ∧ req.contains row.key = true) :
    l = visibleRows s req t :=
  haveI : Std.Irrefl fun a b : Row => a.key < b.key := ⟨fun a => lt_irrefl a.key⟩
  haveI : Std.Antisymm fun a b : Row => a.key < b.key :=
    ⟨fun _ _ h₁ h₂ => absurd h₁ (lt_asymm h₂)⟩
  hl.eq_of_mem_iff (visibleRows_sorted s req t) fun row => (hm row).trans mem_visibleRows.symm

/-! ## Answers -/

theorem execute_of_valid {s : Store} {req : RangeRequest} {t : Int} (hv : validate req = .ok ())
    (ht : s.clock.resolveRead req.revision = .ok t)
    (hc : req.revision = 0 ∨ s.compacted ≤ req.revision) :
    execute s req = .ok (respond req t (visibleRows s req t)) := by
  have hn : ¬ (req.revision ≠ 0 ∧ req.revision < s.compactedRevision) := by
    unfold Store.compactedRevision
    omega
  unfold execute
  rw [hv, ht]
  simp only [bind, Except.bind, if_neg hn]
  rfl

theorem execute_of_invalid {s : Store} {req : RangeRequest} {e : KineError}
    (hv : validate req = .error e) : execute s req = .error e := by
  unfold execute
  rw [hv]
  rfl

theorem execute_of_unreadable {s : Store} {req : RangeRequest} {e : KineError}
    (hv : validate req = .ok ()) (ht : s.clock.resolveRead req.revision = .error e) :
    execute s req = .error e := by
  unfold execute
  rw [hv, ht]
  rfl

theorem execute_of_compacted {s : Store} {req : RangeRequest} {t : Int}
    (hv : validate req = .ok ()) (ht : s.clock.resolveRead req.revision = .ok t)
    (hc : req.revision ≠ 0 ∧ req.revision < s.compacted) :
    execute s req = .error (.compacted req.revision s.compacted) := by
  have hp : req.revision ≠ 0 ∧ req.revision < s.compactedRevision := hc
  unfold execute
  rw [hv, ht]
  simp only [bind, Except.bind, if_pos hp]
  rfl

theorem length_eq_of_respond_eq {req : RangeRequest} {t t' : Int} {l l' : List Row}
    (h : respond req t l = respond req t' l') : l.length = l'.length := by
  have hc : (respond req t l).count = (respond req t' l').count := by rw [h]
  have hcount : ∀ (t : Int) (l : List Row), (respond req t l).count = l.length := by
    intro t l
    simp only [respond]
    split_ifs <;> rfl
  rw [hcount, hcount] at hc
  exact Int.ofNat.inj hc

theorem mem_of_mem_respond {req : RangeRequest} {t : Int} {l : List Row} {row : Row}
    (h : row ∈ (respond req t l).kvs) : row ∈ l := by
  simp only [respond] at h
  split_ifs at h
  · exact List.mem_of_mem_take h
  · exact h

theorem validate_ofKey {key : Bytes} (h : key ≠ []) : validate (.ofKey key) = .ok () := by
  simp [validate, RangeRequest.ofKey, h]

end CaveHome.Kine
