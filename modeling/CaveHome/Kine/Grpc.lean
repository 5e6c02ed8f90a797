import CaveHome.Kine.Sqlite
import CaveHome.Kine.Txn
import CaveHome.Kine.WriteSpans

/-!
# The etcd server

The messages of the wire protocol, and the handlers that translate them into calls of the SQLite
backend.  A handler is one critical section: it holds the lock of the store from its first to its
last access, so it is a function of the store.
-/

namespace CaveHome.Kine.Etcd

/-- The status codes the server answers with. -/
inductive Code
  | outOfRange
  | invalidArgument
  | notFound
  | internal
  deriving DecidableEq

/-- An error as the client sees it. -/
structure Status where
  code : Option Code
  message : String
  deriving DecidableEq

/-- The code of a store error.  The two errors of the in-memory transactions have none: the SQL
backend does not raise them. -/
def statusCode : KineError → Option Code
  | .compacted _ _ | .futureRevision _ _ | .compactionNotForward _ _
  | .compactFutureRevision _ _ => some .outOfRange
  | .emptyKey | .invalidRange | .negativeLimit _ | .negativeRevision _ | .invalidLeaseId
  | .invalidTtl _ => some .invalidArgument
  | .backend _ => some .internal
  | .txnCompareTypeMismatch | .txnDuplicateKey => none

def status (e : KineError) : Status := ⟨statusCode e, e.message⟩

/-- Raise a store error as a status. -/
def liftStatus {α : Type} (r : Result α) : Except Status α := r.mapError status

/-! ## Messages -/

structure KeyValue where
  key : Bytes
  createRevision : Int
  modRevision : Int
  version : Int
  value : Bytes
  lease : Int
  deriving DecidableEq

structure ResponseHeader where
  clusterId : Nat := 0
  memberId : Nat := 0
  revision : Int
  raftTerm : Nat := 0
  deriving DecidableEq

structure RangeRequest where
  key : Bytes
  rangeEnd : Bytes := []
  limit : Int := 0
  revision : Int := 0
  keysOnly : Bool := false
  countOnly : Bool := false
  deriving DecidableEq

structure RangeResponse where
  header : ResponseHeader
  kvs : List KeyValue
  more : Bool
  count : Int
  deriving DecidableEq

structure PutRequest where
  key : Bytes
  value : Bytes
  lease : Int := 0
  prevKv : Bool := false
  ignoreValue : Bool := false
  ignoreLease : Bool := false
  deriving DecidableEq

structure PutResponse where
  header : ResponseHeader
  prevKv : Option KeyValue
  deriving DecidableEq

structure DeleteRangeRequest where
  key : Bytes
  rangeEnd : Bytes := []
  prevKv : Bool := false
  deriving DecidableEq

structure DeleteRangeResponse where
  header : ResponseHeader
  deleted : Int
  prevKvs : List KeyValue
  deriving DecidableEq

/-- One operation of a transaction; the union of the message may be empty. -/
inductive RequestOp
  | range (r : RangeRequest)
  | put (p : PutRequest)
  | deleteRange (d : DeleteRangeRequest)
  | none
  deriving DecidableEq

inductive ResponseOp
  | range (r : RangeResponse)
  | put (p : PutResponse)
  | deleteRange (d : DeleteRangeResponse)
  deriving DecidableEq

/-- The operand of a comparison. -/
inductive TargetUnion
  | version (v : Int)
  | createRevision (v : Int)
  | modRevision (v : Int)
  | value (v : Bytes)
  | lease (v : Int)
  deriving DecidableEq

/-- A comparison; operator and target are numbers on the wire. -/
structure Compare where
  result : Int
  target : Int
  key : Bytes
  targetUnion : Option TargetUnion
  deriving DecidableEq

structure TxnRequest where
  compare : List Compare := []
  success : List RequestOp := []
  failure : List RequestOp := []
  deriving DecidableEq

structure TxnResponse where
  header : ResponseHeader
  succeeded : Bool
  responses : List ResponseOp
  deriving DecidableEq

/-- The selector of a key and a range end. -/
def toKineRangeBytes (key rangeEnd : Bytes) : Except Status Kine.RangeRequest :=
  if key.isEmpty && rangeEnd.isEmpty then
    .error ⟨some .invalidArgument, "etcdserver: key is not provided"⟩
  else
    .ok { key, rangeEnd :=
      if rangeEnd.isEmpty then .single
      else if key = [0] ∧ rangeEnd = [0] then .allKeys
      else if rangeEnd = prefixSuccessor key then .prefixScan
      else .explicit rangeEnd }

def toKineRange (req : RangeRequest) : Except Status Kine.RangeRequest := do
  let k ← toKineRangeBytes req.key req.rangeEnd
  if req.revision < 0 then
    throw ⟨some .outOfRange, "etcdserver: mvcc: revision is negative"⟩
  if req.limit < 0 then
    throw ⟨some .invalidArgument, "etcdserver: limit is negative"⟩
  return { k with revision := req.revision, limit := req.limit }

/-- A row as the client sees it; the version is derived from the revisions. -/
def rowToKv (row : Row) : KeyValue where
  key := row.key
  createRevision := row.createRevision
  modRevision := row.modRevision
  version := row.modRevision - row.createRevision + 1
  value := row.value
  lease := row.lease

def shapeRange (req : RangeRequest) (resp : Kine.RangeResponse) (revision : Int) :
    RangeResponse where
  header := { revision }
  kvs := if req.countOnly then [] else resp.kvs.map fun r =>
    let kv := rowToKv r
    if req.keysOnly then { kv with value := [] } else kv
  more := resp.more
  count := resp.count

/-! ## Handlers -/

def doRange (t : SqliteStore) (req : RangeRequest) : Except Status RangeResponse := do
  let kreq ← toKineRange req
  let resp ← liftStatus (t.range kreq)
  return shapeRange req resp resp.revision

/-- The current row of the key, when the request needs it. -/
def fetchPrev (t : SqliteStore) (req : PutRequest) : Except Status (Option Row) :=
  if req.prevKv || req.ignoreValue || req.ignoreLease then
    (liftStatus (t.range (.ofKey req.key))).map fun resp => resp.kvs.head?
  else .ok none

/-- The write of a put, with the columns it keeps taken from the current row. -/
def putOver (t : SqliteStore) (req : PutRequest) (prev : Option Row) :
    Except Status PutResponse × SqliteStore :=
  let value := if req.ignoreValue then (prev.map Row.value).getD [] else req.value
  let lease := if req.ignoreLease then (prev.map Row.lease).getD 0 else req.lease
  match t.put req.key value lease with
  | (.error e, t') => (.error (status e), t')
  | (.ok _, t') =>
    (.ok { header := { revision := t'.currentRevision },
           prevKv := if req.prevKv then prev.map rowToKv else none }, t')

def doPut (t : SqliteStore) (req : PutRequest) : Except Status PutResponse × SqliteStore :=
  if req.key.isEmpty then
    (.error ⟨some .invalidArgument, "etcdserver: key is not provided"⟩, t)
  else match fetchPrev t req with
    | .error e => (.error e, t)
    | .ok prev => putOver t req prev

/-- Delete the selected rows one after the other, up to the first error. -/
def deleteRows (wantPrev : Bool) : List Row → Int → List KeyValue → SqliteStore →
    Except Status (Int × List KeyValue) × SqliteStore
  | [], deleted, prevKvs, t => (.ok (deleted, prevKvs), t)
  | row :: victims, deleted, prevKvs, t =>
    match t.delete row.key with
    | (.error e, t') => (.error (status e), t')
    | (.ok none, t') => deleteRows wantPrev victims deleted prevKvs t'
    | (.ok (some _), t') =>
      deleteRows wantPrev victims (deleted + 1)
        (if wantPrev then prevKvs ++ [rowToKv row] else prevKvs) t'

def doDeleteRange (t : SqliteStore) (req : DeleteRangeRequest) :
    Except Status DeleteRangeResponse × SqliteStore :=
  match toKineRangeBytes req.key req.rangeEnd with
  | .error e => (.error e, t)
  | .ok selector =>
    match t.range selector with
    | .error e => (.error (status e), t)
    | .ok resp =>
      match deleteRows req.prevKv resp.kvs 0 [] t with
      | (.error e, t') => (.error e, t')
      | (.ok (deleted, prevKvs), t') =>
        (.ok { header := { revision := t'.currentRevision }, deleted, prevKvs }, t')

/-- Execute one operation of a transaction. -/
def execOp (t : SqliteStore) : RequestOp → Except Status ResponseOp × SqliteStore
  | .range r => ((doRange t r).map .range, t)
  | .put p => (doPut t p).map (·.map .put) id
  | .deleteRange d => (doDeleteRange t d).map (·.map .deleteRange) id
  | .none => (.error ⟨some .invalidArgument, "empty txn op"⟩, t)

/-- The operator of a comparison; unknown numbers mean equality. -/
def compareResult (n : Int) : CompareResult :=
  if n = 1 then .greater else if n = 2 then .less else if n = 3 then .notEqual else .equal

/-- The target of a comparison; unknown numbers mean the create revision. -/
def compareTarget (n : Int) : CompareTarget :=
  if n = 0 then .version else if n = 2 then .modRevision else if n = 3 then .value
  else if n = 4 then .lease else .createRevision

/-- Evaluate a comparison against the current row of its key; a missing key reads as zeros and the
empty value, and an operand of another kind than the target compares as equal. -/
def evalCompare (t : SqliteStore) (c : Compare) : Result Bool := do
  let resp ← t.range (.ofKey c.key)
  let current := resp.kvs.head?
  let ordering := match compareTarget c.target, c.targetUnion with
    | .createRevision, some (.createRevision v) =>
      cmp ((current.map Row.createRevision).getD 0) v
    | .modRevision, some (.modRevision v) => cmp ((current.map Row.modRevision).getD 0) v
    | .version, some (.version v) =>
      cmp ((current.map fun r => r.modRevision - r.createRevision + 1).getD 0) v
    | .lease, some (.lease v) => cmp ((current.map Row.lease).getD 0) v
    | .value, some (.value v) => cmp ((current.map Row.value).getD []) v
    | _, _ => .eq
  return (compareResult c.result).accepts ordering

/-- All comparisons hold; those after the first that fails are not evaluated. -/
def evalCompares (t : SqliteStore) : List Compare → Result Bool
  | [] => .ok true
  | c :: cs => do
    if ← evalCompare t c then evalCompares t cs else return false

/-!
## Intervals of the wire protocol

On the wire an interval is a key and a range end, where the range end `[0]` stands for the end of
the keyspace.  The translation to a selector recognises that range end beside two kinds of keys
only; `toKineRangeBytes_contains_iff` says for which keys the selector is the interval.
-/

/-- Whether a key lies in the interval that a key and a range end stand for. -/
def InInterval (key rangeEnd c : Bytes) : Prop := key ≤ c ∧ (rangeEnd = [0] ∨ c < rangeEnd)

theorem zero_le_of_ne_nil {c : Bytes} (h : c ≠ []) : [0] ≤ c := by
  cases c with
  | nil => exact absurd rfl h
  | cons b c =>
    rw [LexInterval.cons_le_cons_iff]
    rcases (byte_zero_le b).lt_or_eq with hlt | heq
    · exact Or.inl hlt
    · exact Or.inr ⟨heq, LexInterval.nil_le c⟩

theorem prefixSuccessor_cases (key : Bytes) :
    (prefixSuccessor key = [0] ∧ prefixUpper key = none ∧ ∀ x ∈ key, x = 0xFF) ∨
      ∃ e, prefixSuccessor key = e ∧ prefixUpper key = some e ∧ e ≠ [0] := by
  unfold prefixSuccessor prefixUpper
  rcases bumpLast_cases key with ⟨hall, hnone⟩ | ⟨l, a, ts, -, -, ha, hsome⟩
  · rw [hnone]
    exact Or.inl ⟨rfl, rfl, hall⟩
  · rw [hsome]
    refine Or.inr ⟨l ++ [a + 1], by simp, by simp, fun h => ?_⟩
    -- the last byte of the successor was incremented
    have hlast : a + 1 = 0 := by
      have := congrArg List.getLast? h
      simpa using this
    have hlt := (byte_covBy ha).lt
    rw [hlast] at hlt
    exact absurd (byte_zero_le a) (not_le.2 hlt)

theorem isPrefixOf_iff_inInterval (key c : Bytes) :
    key.isPrefixOf c = true ↔ InInterval key (prefixSuccessor key) c := by
  rw [isPrefixOf_iff_mem]
  unfold LexInterval.Mem InInterval
  rcases prefixSuccessor_cases key with ⟨hsucc, hnone, -⟩ | ⟨e, hsucc, hsome, hne⟩
  · simp [hsucc, hnone]
  · simp [hsucc, hsome, hne]

/-- The selector of a key and a range end holds the keys of their interval, unless the range end is
`[0]`, the key is neither `[0]` nor made of `0xFF` bytes only, and the candidate does not come
before the key. -/
theorem toKineRangeBytes_contains_iff (key rangeEnd c : Bytes) (hkey : key ≠ [])
    (hend : rangeEnd ≠ []) (hc : c ≠ []) :
    ∃ req, toKineRangeBytes key rangeEnd = .ok req ∧
      ((req.contains c = true ↔ InInterval key rangeEnd c) ↔
        rangeEnd ≠ [0] ∨ key = [0] ∨ (∀ x ∈ key, x = 0xFF) ∨ c < key) := by
  unfold toKineRangeBytes
  rw [if_neg (by simp [hkey])]
  refine ⟨_, rfl, ?_⟩
  simp only [List.isEmpty_iff, if_neg hend]
  by_cases hall : key = [0] ∧ rangeEnd = [0]
  · obtain ⟨rfl, rfl⟩ := hall
    simp [RangeRequest.contains, InInterval, zero_le_of_ne_nil hc]
  rw [if_neg hall]
  by_cases hsucc : rangeEnd = prefixSuccessor key
  · rw [if_pos hsucc]
    have hcontains : RangeRequest.contains { key, rangeEnd := .prefixScan } c = true ↔
        InInterval key rangeEnd c := by
      rw [hsucc]
      exact isPrefixOf_iff_inInterval key c
    refine iff_of_true hcontains ?_
    rcases prefixSuccessor_cases key with ⟨-, -, htops⟩ | ⟨e, he, -, hne⟩
    · exact Or.inr (Or.inr (Or.inl htops))
    · exact Or.inl (by rwa [hsucc, he])
  · rw [if_neg hsucc]
    have hcontains : RangeRequest.contains { key, rangeEnd := .explicit rangeEnd } c = true ↔
        key ≤ c ∧ c < rangeEnd := by
      simp [RangeRequest.contains]
    rw [hcontains]
    unfold InInterval
    by_cases hzero : rangeEnd = [0]
    · subst hzero
      have hkey0 : key ≠ [0] := fun h => hall ⟨h, rfl⟩
      have htops : ¬ ∀ x ∈ key, x = 0xFF := by
        intro htops
        rcases prefixSuccessor_cases key with ⟨he, -, -⟩ | ⟨e, -, he, -⟩
        · exact hsucc he.symm
        · rcases bumpLast_cases key with ⟨-, hnone⟩ | ⟨l, a, ts, rfl, -, ha, -⟩
          · rw [prefixUpper, hnone] at he
            cases he
          · exact absurd (htops a (by simp)) ha.ne
      have hnot : ¬ c < [0] := not_lt.2 (zero_le_of_ne_nil hc)
      simp [hkey0, htops, hnot]
    · simp [hzero]

/-- The interval of a prefix that ends in the largest byte. -/
theorem toKineRangeBytes_contains_carry :
    ∃ req, toKineRangeBytes [97, 255] [98] = .ok req ∧
      (req.contains [97, 255, 1] = true ↔ InInterval [97, 255] [98] [97, 255, 1]) := by
  obtain ⟨req, hreq, hiff⟩ := toKineRangeBytes_contains_iff [97, 255] [98] [97, 255, 1] (by simp)
    (by simp) (by simp)
  exact ⟨req, hreq, hiff.2 (Or.inl (by decide))⟩

/-- From a key to the end of the keyspace: the selector does not even hold the key itself. -/
theorem toKineRangeBytes_fromKey :
    toKineRangeBytes [97] [0] = .ok { key := [97], rangeEnd := .explicit [0] } ∧
      ({ key := [97], rangeEnd := .explicit [0] } : Kine.RangeRequest).contains [97] = false ∧
      InInterval [97] [0] [97] := by
  refine ⟨by decide, by decide, le_rfl, Or.inl rfl⟩

end CaveHome.Kine.Etcd
