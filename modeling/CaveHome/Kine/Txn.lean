import CaveHome.Kine.Range

/-!
# Guarded transactions

A transaction evaluates a list of comparisons against the store and runs one of two lists of
operations.  Comparisons and the disjointness of the writes are checked before anything runs; what
an operation itself rejects is found when it is its turn.
-/

namespace CaveHome.Kine

/-- The property of a key that a comparison tests. -/
inductive CompareTarget
  | version
  | createRevision
  | modRevision
  | value
  | lease
  deriving DecidableEq

inductive CompareResult
  | equal
  | notEqual
  | greater
  | less
  deriving DecidableEq

inductive CompareOperand
  | int (i : Int)
  | bytes (b : Bytes)
  deriving DecidableEq

/-- A predicate over one key. -/
structure Compare where
  key : Bytes
  target : CompareTarget
  result : CompareResult
  operand : CompareOperand
  deriving DecidableEq

/-- One operation of a branch. -/
inductive TxnOp
  | range (req : RangeRequest)
  | put (key value : Bytes) (lease : Int)
  | deleteRange (key : Bytes) (rangeEnd : RangeEnd)
  deriving DecidableEq

/-- Run `success` if every comparison holds, else `failure`. -/
structure Txn where
  compares : List Compare := []
  success : List TxnOp := []
  failure : List TxnOp := []
  deriving DecidableEq

inductive TxnOpResponse
  | range (response : RangeResponse)
  | put (revision : Int)
  | deleteRange (deleted revision : Int)
  deriving DecidableEq

structure TxnResponse where
  succeeded : Bool
  revision : Int
  responses : List TxnOpResponse
  deriving DecidableEq

/-! ## The guard -/

/-- The operand must have the kind of its target, and the key must not be empty. -/
def validateCompare (c : Compare) : Result Unit :=
  if c.key.isEmpty then .error .emptyKey
  else match c.target, c.operand with
    | .value, .bytes _ => .ok ()
    | .value, .int _ => .error .txnCompareTypeMismatch
    | _, .int _ => .ok ()
    | _, .bytes _ => .error .txnCompareTypeMismatch

/-- The number of writes of the live generation of a key. -/
def versionOf (s : Store) (key : Bytes) : Int :=
  match (s.getLive key).map Row.createRevision with
  | none => 0
  | some generation => (s.rows.filter fun r =>
      decide (r.key = key) && decide (r.createRevision = generation) && !r.deleted).length

/-- The test of an operator on the order of the two sides. -/
def CompareResult.accepts : CompareResult → Ordering → Bool
  | .equal, o => o.isEq
  | .notEqual, o => o.isNe
  | .greater, o => o.isGT
  | .less, o => o.isLT

/-- Evaluate a comparison; a missing key reads as zeros and the empty value.  A pair of target and
operand that `validateCompare` rejects is not evaluated. -/
def evalCompare (s : Store) (c : Compare) : Result Bool :=
  let live := s.getLive c.key
  match c.target, c.operand with
  | .value, .bytes want => .ok (c.result.accepts (cmp ((live.map Row.value).getD []) want))
  | .createRevision, .int want =>
    .ok (c.result.accepts (cmp ((live.map Row.createRevision).getD 0) want))
  | .modRevision, .int want =>
    .ok (c.result.accepts (cmp ((live.map Row.modRevision).getD 0) want))
  | .lease, .int want => .ok (c.result.accepts (cmp ((live.map Row.lease).getD 0) want))
  | .version, .int want => .ok (c.result.accepts (cmp (versionOf s c.key) want))
  | _, _ => .error .txnCompareTypeMismatch

def validateCompares : List Compare → Result Unit
  | [] => .ok ()
  | c :: cs => do
    validateCompare c
    validateCompares cs

/-- All comparisons hold; those after the first that fails are not evaluated. -/
def evalCompares (s : Store) : List Compare → Result Bool
  | [] => .ok true
  | c :: cs => do
    if ← evalCompare s c then evalCompares s cs else return false

/-! ## Write spans -/

/-- The keys from `lo` up to `hi`, or to the end of the keyspace. -/
structure Span where
  lo : Bytes
  hi : Option Bytes
  deriving DecidableEq

/-- Whether a key lies below the upper end of a span. -/
def Span.below (sp : Span) (key : Bytes) : Bool :=
  match sp.hi with
  | none => true
  | some h => decide (key < h)

def Span.overlaps (a b : Span) : Bool := b.below a.lo && a.below b.lo

/-- The upper end of the keys that begin with `key`. -/
def prefixUpper (key : Bytes) : Option Bytes := (bumpLast key.reverse).map List.reverse

def spanUpper (rangeEnd : RangeEnd) (key : Bytes) : Option Bytes :=
  match rangeEnd with
  | .single => some (key ++ [0])
  | .prefixScan => prefixUpper key
  | .explicit e => some e
  | .allKeys => none

/-- The span an operation writes to. -/
def writeSpan : TxnOp → Option Span
  | .range _ => none
  | .put key _ _ => some { lo := key, hi := some (key ++ [0]) }
  | .deleteRange key rangeEnd => some { lo := key, hi := spanUpper rangeEnd key }

/-- Whether a span overlaps one after it. -/
def anyOverlap : List Span → Bool
  | [] => false
  | a :: spans => spans.any a.overlaps || anyOverlap spans

/-- A branch must not write a key twice. -/
def checkDisjointWrites (ops : List TxnOp) : Result Unit :=
  if anyOverlap (ops.filterMap writeSpan) then .error .txnDuplicateKey else .ok ()

/-! ## Running a branch -/

/-- Continue with the value and the store of a call that succeeded. -/
def andThen {α β : Type} (x : Result α × Store) (f : α → Store → Result β × Store) :
    Result β × Store :=
  match x with
  | (.ok a, s) => f a s
  | (.error e, s) => (.error e, s)

/-- Delete the keys one after the other, up to the first error. -/
def deleteVictims : List Bytes → Int → Store → Result Int × Store
  | [], deleted, s => (.ok deleted, s)
  | k :: victims, deleted, s => andThen (s.delete k) fun rev s' =>
    deleteVictims victims (if rev.isSome then deleted + 1 else deleted) s'

/-- Delete every live key of an interval. -/
def deleteRange (s : Store) (key : Bytes) (rangeEnd : RangeEnd) : Result Int × Store :=
  match execute s { key, rangeEnd } with
  | .error e => (.error e, s)
  | .ok response => deleteVictims (response.kvs.map Row.key) 0 s

/-- Run one operation. -/
def runOp (s : Store) : TxnOp → Result TxnOpResponse × Store
  | .range req => ((execute s req).map .range, s)
  | .put key value lease => andThen (s.put key value lease) fun revision s' =>
    (.ok (.put revision), s')
  | .deleteRange key rangeEnd => andThen (deleteRange s key rangeEnd) fun deleted s' =>
    (.ok (.deleteRange deleted s'.currentRevision), s')

/-- Run the operations in order, up to the first error. -/
def runOps : List TxnOp → List TxnOpResponse → Store → Result (List TxnOpResponse) × Store
  | [], out, s => (.ok out, s)
  | op :: ops, out, s => andThen (runOp s op) fun resp s' => runOps ops (out ++ [resp]) s'

/-- The checks before the first operation, and the choice of the branch. -/
def Txn.guard (txn : Txn) (s : Store) : Result Bool := do
  validateCompares txn.compares
  checkDisjointWrites txn.success
  checkDisjointWrites txn.failure
  evalCompares s txn.compares

/-- Apply a transaction. -/
def apply (s : Store) (txn : Txn) : Result TxnResponse × Store :=
  match txn.guard s with
  | .error e => (.error e, s)
  | .ok succeeded =>
    andThen (runOps (if succeeded then txn.success else txn.failure) [] s) fun responses s' =>
      (.ok { succeeded, revision := s'.currentRevision, responses }, s')

/-! ## A transaction is a sequence of writes -/

theorem andThen_writes {α β : Type} {s : Store} {x : Result α × Store}
    {f : α → Store → Result β × Store} (hx : ∃ l, s.Writes l x.2)
    (hf : ∀ (a : α) (t : Store), ∃ l, t.Writes l (f a t).2) : ∃ l, s.Writes l (andThen x f).2 := by
  obtain ⟨l, hl⟩ := hx
  obtain ⟨r | a, t⟩ := x
  · exact ⟨l, hl⟩
  · obtain ⟨m, hm⟩ := hf a t
    exact ⟨l ++ m, hl.trans hm⟩

theorem deleteVictims_writes (victims : List Bytes) (deleted : Int) (s : Store) :
    ∃ l, s.Writes l (deleteVictims victims deleted s).2 := by
  induction victims generalizing deleted s with
  | nil => exact ⟨[], .nil⟩
  | cons k victims ih =>
    obtain ⟨l, hl, -⟩ := Store.writes_of_cases (s.delete_cases k)
    exact andThen_writes ⟨l, hl⟩ fun _ t => ih _ t

theorem deleteRange_writes (s : Store) (key : Bytes) (rangeEnd : RangeEnd) :
    ∃ l, s.Writes l (deleteRange s key rangeEnd).2 := by
  unfold deleteRange
  split
  · exact ⟨[], .nil⟩
  · exact deleteVictims_writes _ 0 s

theorem runOp_writes (s : Store) (op : TxnOp) : ∃ l, s.Writes l (runOp s op).2 := by
  cases op with
  | range req => exact ⟨[], .nil⟩
  | put key value lease =>
    obtain ⟨l, hl, -⟩ := Store.writes_of_cases (s.put_cases key value lease)
    exact andThen_writes ⟨l, hl⟩ fun _ t => ⟨[], .nil⟩
  | deleteRange key rangeEnd =>
    exact andThen_writes (deleteRange_writes s key rangeEnd) fun _ t => ⟨[], .nil⟩

theorem runOps_writes (ops : List TxnOp) (out : List TxnOpResponse) (s : Store) :
    ∃ l, s.Writes l (runOps ops out s).2 := by
  induction ops generalizing out s with
  | nil => exact ⟨[], .nil⟩
  | cons op ops ih => exact andThen_writes (runOp_writes s op) fun _ t => ih _ t

theorem apply_writes (s : Store) (txn : Txn) : ∃ l, s.Writes l (apply s txn).2 := by
  unfold apply
  split
  · exact ⟨[], .nil⟩
  · exact andThen_writes (runOps_writes _ [] s) fun _ t => ⟨[], .nil⟩

end CaveHome.Kine
