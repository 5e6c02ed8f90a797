import CaveHome.Lib.MachineData
import CaveHome.Lib.VersionedLog

/-!
# The revisioned row log

Every mutation of the store appends one row to a log and takes one revision from a global clock;
the current value of a key is its newest row, unless that row is a tombstone.  `Appends` says once
what a single write can do, and `Writes` what a sequence of them can do; every writer of the crate
other than compaction is a sequence of such writes.
-/

namespace CaveHome.Kine

/-- Why a store operation failed. -/
inductive KineError
  | compacted (requested compacted : Int)
  | futureRevision (requested current : Int)
  | negativeRevision (revision : Int)
  | compactionNotForward (requested current : Int)
  | compactFutureRevision (requested current : Int)
  | emptyKey
  | invalidRange
  | negativeLimit (limit : Int)
  | invalidLeaseId
  | invalidTtl (ttlSeconds : Int)
  | backend (message : String)
  | txnCompareTypeMismatch
  | txnDuplicateKey
  deriving DecidableEq

/-- The message of an error, in the vocabulary of the wire protocol. -/
def KineError.message : KineError → String
  | .compacted requested floor =>
    s!"mvcc: required revision has been compacted (requested {requested}, compacted {floor})"
  | .futureRevision requested current =>
    s!"mvcc: required revision is a future revision (requested {requested}, current {current})"
  | .negativeRevision revision => s!"revision {revision} is negative"
  | .compactionNotForward requested current =>
    s!"compact revision {requested} must be greater than the current compacted revision {current}"
  | .compactFutureRevision requested current =>
    s!"compact revision {requested} is a future revision (current {current})"
  | .emptyKey => "etcdserver: key is not provided"
  | .invalidRange => "etcdserver: range_end must sort after key"
  | .negativeLimit limit => s!"limit {limit} is negative"
  | .invalidLeaseId => "etcdserver: lease id 0 is reserved for no-lease"
  | .invalidTtl ttlSeconds => s!"lease TTL {ttlSeconds}s must be positive"
  | .backend message => s!"etcdserver: backend: {message}"
  | .txnCompareTypeMismatch => "etcdserver: compare operand does not match its target"
  | .txnDuplicateKey => "etcdserver: duplicate key given in txn request"

/-- Fallible results. -/
abbrev Result (α : Type) := Except KineError α

/-! ## The clock -/

/-- The counter that hands out one revision for each write.  Revisions are signed 64-bit numbers;
`0` in a request means the current one. -/
structure Clock where
  current : Int := 0
  deriving DecidableEq

namespace Clock

/-- Advance to the next revision; the counter stops at the largest one. -/
def next (c : Clock) : Clock := ⟨I64.saturatingAdd c.current 1⟩

/-- The revision a read request is served at. -/
def resolveRead (c : Clock) (requested : Int) : Result Int :=
  if requested < 0 then .error (.negativeRevision requested)
  else if requested = 0 then .ok c.current
  else if requested > c.current then .error (.futureRevision requested c.current)
  else .ok requested

theorem next_current {c : Clock} (h₀ : 0 ≤ c.current) (h : c.current ≤ I64.maxValue) :
    c.next.current = if c.current = I64.maxValue then I64.maxValue else c.current + 1 :=
  I64.saturatingAdd_one h₀ h

theorem resolveRead_zero (c : Clock) : c.resolveRead 0 = .ok c.current := by
  simp [resolveRead]

theorem resolveRead_of_pos {c : Clock} {r : Int} (h₀ : 0 < r) (h : r ≤ c.current) :
    c.resolveRead r = .ok r := by
  unfold resolveRead
  rw [if_neg (by omega), if_neg (by omega), if_neg (by omega)]

theorem resolveRead_error_iff {c : Clock} (hc : 0 ≤ c.current) {r : Int} :
    (∃ e, c.resolveRead r = .error e) ↔ r < 0 ∨ c.current < r := by
  unfold resolveRead
  split_ifs with h1 h2 h3
  · simp [h1]
  · simp [h2, hc]
  · simp [h3]
  · simp [h1, h3]

theorem resolveRead_ok {c : Clock} {r t : Int} (h : c.resolveRead r = .ok t) :
    (r = 0 ∧ t = c.current) ∨ (0 < r ∧ r ≤ c.current ∧ t = r) := by
  unfold resolveRead at h
  split_ifs at h with h1 h2 h3
  · exact Or.inl ⟨h2, (Except.ok.inj h).symm⟩
  · exact Or.inr ⟨by omega, by omega, (Except.ok.inj h).symm⟩

end Clock

/-! ## Rows and the store -/

/-- One immutable row of the log. -/
structure Row where
  key : Bytes
  createRevision : Int
  modRevision : Int
  value : Bytes
  lease : Int
  deleted : Bool
  deriving DecidableEq

/-- A row is live when it is not a tombstone. -/
def Row.isLive (r : Row) : Bool := !r.deleted

/-- The append-only log with its clock and its compacted floor. -/
structure Store where
  clock : Clock := {}
  rows : List Row := []
  compacted : Int := 0
  deriving DecidableEq

namespace Store

/-- The empty store at revision `0`. -/
def new : Store := {}

/-- The header revision. -/
def currentRevision (s : Store) : Int := s.clock.current

/-- The compacted floor. -/
def compactedRevision (s : Store) : Int := s.compacted

/-- The newest row of a key, live or not. -/
def latestRow (s : Store) (key : Bytes) : Option Row :=
  s.rows.reverse.find? fun r => decide (r.key = key)

/-- The newest row of a key, if it is live. -/
def getLive (s : Store) (key : Bytes) : Option Row := (s.latestRow key).filter Row.isLive

/-- Take the next revision and append the row made from it. -/
def push (s : Store) (row : Int → Row) : Store :=
  { s with clock := s.clock.next, rows := s.rows ++ [row s.clock.next.current] }

/-- Create a key that has no live row. -/
def create (s : Store) (key value : Bytes) (lease : Int) : Result (Option Int) × Store :=
  if key.isEmpty then (.error .emptyKey, s)
  else if (s.getLive key).isSome then (.ok none, s)
  else
    let s' := s.push fun rev => ⟨key, rev, rev, value, lease, false⟩
    (.ok (some s'.currentRevision), s')

/-- Update a key that has a live row. -/
def update (s : Store) (key value : Bytes) (lease : Int) : Result (Option Int) × Store :=
  if key.isEmpty then (.error .emptyKey, s)
  else match (s.getLive key).map Row.createRevision with
    | none => (.ok none, s)
    | some createRevision =>
      let s' := s.push fun rev => ⟨key, createRevision, rev, value, lease, false⟩
      (.ok (some s'.currentRevision), s')

/-- Create the key if it is absent, else update it. -/
def put (s : Store) (key value : Bytes) (lease : Int) : Result Int × Store :=
  if key.isEmpty then (.error .emptyKey, s)
  else
    let createRevision := (s.getLive key).map Row.createRevision
    let s' := s.push fun rev => ⟨key, createRevision.getD rev, rev, value, lease, false⟩
    (.ok s'.currentRevision, s')

/-- Append a tombstone for a key that has a live row. -/
def delete (s : Store) (key : Bytes) : Result (Option Int) × Store :=
  if key.isEmpty then (.error .emptyKey, s)
  else match (s.getLive key).map Row.createRevision with
    | none => (.ok none, s)
    | some createRevision =>
      let s' := s.push fun rev => ⟨key, createRevision, rev, [], 0, true⟩
      (.ok (some s'.currentRevision), s')

/-- Replace the row log and the compacted floor. -/
def installCompacted (s : Store) (rows : List Row) (compacted : Int) : Store :=
  { s with rows, compacted }

/-- The keys that have a live row, sorted. -/
def liveKeys (s : Store) : List Bytes :=
  ((s.rows.map Row.key).foldl
    (fun keys key => if (s.getLive key).isSome && !keys.contains key then keys ++ [key] else keys)
    []).insertionSort (· ≤ ·)

@[simp] theorem push_compacted (s : Store) (row : Int → Row) :
    (s.push row).compacted = s.compacted := rfl

@[simp] theorem push_clock (s : Store) (row : Int → Row) :
    (s.push row).clock = s.clock.next := rfl

@[simp] theorem push_rows (s : Store) (row : Int → Row) :
    (s.push row).rows = s.rows ++ [row s.clock.next.current] := rfl

theorem latestRow_eq_last (s : Store) (key : Bytes) :
    s.latestRow key = VersionedLog.last Row.key s.rows key := rfl

theorem collectLive_spec (s : Store) :
    let keys := (s.rows.map Row.key).foldl (fun keys key =>
      if (s.getLive key).isSome && !keys.contains key then keys ++ [key] else keys) []
    keys.Nodup ∧ ∀ k, k ∈ keys ↔
      k ∈ ([] : List Bytes) ∨ (s.getLive k).isSome = true ∧ ∃ r ∈ s.rows.map Row.key, r = k :=
  VersionedLog.foldl_collect (id : Bytes → Bytes) (fun ks k => by simp) (s.rows.map Row.key)
    List.nodup_nil

theorem liveKeys_nodup (s : Store) : s.liveKeys.Nodup :=
  (List.perm_insertionSort _ _).nodup_iff.2 s.collectLive_spec.1

theorem mem_liveKeys {s : Store} {key : Bytes} :
    key ∈ s.liveKeys ↔ (s.getLive key).isSome = true := by
  unfold liveKeys
  rw [List.mem_insertionSort, s.collectLive_spec.2 key]
  constructor
  · rintro (h | ⟨h, -⟩)
    · cases h
    · exact h
  · intro h
    obtain ⟨r, hr⟩ := Option.isSome_iff_exists.1 h
    have hl : s.latestRow key = some r := by
      unfold getLive at hr
      exact (Option.filter_eq_some_iff.1 hr).1
    exact Or.inr ⟨h, key, List.mem_map.2 ⟨r, VersionedLog.last_mem hl, VersionedLog.last_key hl⟩,
      rfl⟩

theorem getLive_eq_some_iff {s : Store} {key : Bytes} {r : Row} :
    s.getLive key = some r ↔ s.latestRow key = some r ∧ r.isLive = true := by
  simp [getLive, Option.filter_eq_some_iff]

/-! ## What one write does -/

/-- `s'` is `s` with `row` appended at the next revision.  A row continues the generation of the
live row it follows and starts a new one when there is none; a tombstone follows a live row. -/
structure Appends (s : Store) (row : Row) (s' : Store) : Prop where
  rows : s'.rows = s.rows ++ [row]
  clock : s'.clock = s.clock.next
  compacted : s'.compacted = s.compacted
  key : row.key ≠ []
  modRevision : row.modRevision = s.clock.next.current
  createRevision :
    row.createRevision = ((s.getLive row.key).map Row.createRevision).getD row.modRevision
  deleted : row.deleted = true → (s.getLive row.key).isSome

theorem Appends.getLive_eq {s s' : Store} {row : Row} (h : Appends s row s') (key : Bytes) :
    s'.getLive key = if row.key = key then (if row.deleted then none else some row)
      else s.getLive key := by
  unfold getLive
  rw [latestRow_eq_last, latestRow_eq_last, h.rows, VersionedLog.last_concat]
  split_ifs with hk hd
  · simp [Option.filter_some, Row.isLive, hd]
  · simp [Option.filter_some, Row.isLive, hd]
  · rfl

/-- `s'` is `s` after the writes of `rows`, in order. -/
inductive Writes (s : Store) : List Row → Store → Prop
  | nil : Writes s [] s
  | snoc {rows : List Row} {t u : Store} {row : Row} :
      Writes s rows t → Appends t row u → Writes s (rows ++ [row]) u

theorem Writes.single {s s' : Store} {row : Row} (h : Appends s row s') : Writes s [row] s' :=
  Writes.snoc .nil h

theorem Writes.trans {s t u : Store} {l m : List Row} (h₁ : Writes s l t) (h₂ : Writes t m u) :
    Writes s (l ++ m) u := by
  induction h₂ with
  | nil => simpa using h₁
  | snoc _ ha ih =>
    rw [← List.append_assoc]
    exact .snoc ih ha

theorem Writes.rows_eq {s s' : Store} {l : List Row} (h : Writes s l s') :
    s'.rows = s.rows ++ l := by
  induction h with
  | nil => simp
  | snoc _ ha ih => rw [ha.rows, ih, List.append_assoc]

theorem Writes.compacted_eq {s s' : Store} {l : List Row} (h : Writes s l s') :
    s'.compacted = s.compacted := by
  induction h with
  | nil => rfl
  | snoc _ ha ih => rw [ha.compacted, ih]

theorem Writes.preserves {P : Store → Prop}
    (hw : ∀ s row s', P s → Appends s row s' → P s') {s s' : Store} {l : List Row}
    (hl : Writes s l s') (h : P s) : P s' := by
  induction hl with
  | nil => exact h
  | snoc _ ha ih => exact hw _ _ _ ih ha

theorem Writes.eq_of_nil {s s' : Store} (h : Writes s [] s') : s' = s := by
  generalize hl : ([] : List Row) = l at h
  cases h with
  | nil => rfl
  | snoc => simp at hl

theorem appends_push {s : Store} {key : Bytes} (hk : key ≠ []) (value : Bytes) (lease : Int)
    (deleted : Bool) {c : Option Int} (hc : c = (s.getLive key).map Row.createRevision)
    (hd : deleted = true → (s.getLive key).isSome) :
    ∃ row, row.key = key ∧ row.deleted = deleted ∧
      Appends s row (s.push fun rev => ⟨key, c.getD rev, rev, value, lease, deleted⟩) := by
  subst hc
  exact ⟨_, rfl, rfl, rfl, rfl, rfl, hk, rfl, rfl, hd⟩

theorem create_cases (s : Store) (key value : Bytes) (lease : Int) :
    (s.create key value lease).2 = s ∨
      ∃ row, row.key = key ∧ Appends s row (s.create key value lease).2 := by
  unfold create
  split_ifs with h1 h2
  · exact Or.inl rfl
  · exact Or.inl rfl
  · have hnone : s.getLive key = none := by simpa using h2
    obtain ⟨row, hrow, -, ha⟩ := appends_push (s := s) (c := none) (by simpa using h1) value lease
      false (by simp [hnone]) (by simp)
    exact Or.inr ⟨row, hrow, ha⟩

theorem update_cases (s : Store) (key value : Bytes) (lease : Int) :
    (s.update key value lease).2 = s ∨
      ∃ row, row.key = key ∧ Appends s row (s.update key value lease).2 := by
  unfold update
  split_ifs with h1
  · exact Or.inl rfl
  · cases hl : s.getLive key with
    | none => exact Or.inl rfl
    | some r =>
      obtain ⟨row, hrow, -, ha⟩ := appends_push (s := s) (c := some r.createRevision)
        (by simpa using h1) value lease false (by simp [hl]) (by simp)
      exact Or.inr ⟨row, hrow, ha⟩

theorem put_appends {s : Store} {key : Bytes} (hk : key ≠ []) (value : Bytes) (lease : Int) :
    (s.put key value lease).1 = .ok (s.put key value lease).2.currentRevision ∧
      ∃ row, row.key = key ∧ row.deleted = false ∧ Appends s row (s.put key value lease).2 := by
  unfold put
  rw [if_neg (by simpa using hk)]
  exact ⟨rfl, appends_push hk value lease false rfl (by simp)⟩

theorem put_cases (s : Store) (key value : Bytes) (lease : Int) :
    (s.put key value lease).2 = s ∨
      ∃ row, row.key = key ∧ Appends s row (s.put key value lease).2 := by
  by_cases hk : key = []
  · left
    unfold put
    rw [if_pos (by simpa using hk)]
  · obtain ⟨-, row, hrow, -, ha⟩ := put_appends (s := s) hk value lease
    exact Or.inr ⟨row, hrow, ha⟩

theorem delete_appends {s : Store} {key : Bytes} (hk : key ≠ [])
    (hl : (s.getLive key).isSome = true) :
    (s.delete key).1 = .ok (some (s.delete key).2.currentRevision) ∧
      ∃ row, row.key = key ∧ row.deleted = true ∧ Appends s row (s.delete key).2 := by
  obtain ⟨r, hr⟩ := Option.isSome_iff_exists.1 hl
  unfold delete
  rw [if_neg (by simpa using hk), hr]
  exact ⟨rfl, appends_push (c := some r.createRevision) hk [] 0 true (by simp [hr]) (by simp [hr])⟩

theorem delete_cases (s : Store) (key : Bytes) :
    (s.delete key).2 = s ∨ ∃ row, row.key = key ∧ Appends s row (s.delete key).2 := by
  by_cases hk : key = []
  · left
    unfold delete
    rw [if_pos (by simpa using hk)]
  cases hl : s.getLive key with
  | none =>
    left
    unfold delete
    rw [if_neg (by simpa using hk), hl]
    rfl
  | some r =>
    obtain ⟨-, row, hrow, -, ha⟩ := delete_appends (s := s) hk (by simp [hl])
    exact Or.inr ⟨row, hrow, ha⟩

theorem writes_of_cases {s s' : Store} {key : Bytes}
    (h : s' = s ∨ ∃ row : Row, row.key = key ∧ Appends s row s') :
    ∃ l, Writes s l s' ∧ ∀ r ∈ l, r.key = key := by
  rcases h with rfl | ⟨row, hk, ha⟩
  · exact ⟨[], .nil, by simp⟩
  · exact ⟨[row], .single ha, by simpa using hk⟩

end Store

end CaveHome.Kine

/-!
## Leases

A lease owns the keys that were written with its id.  When it expires, every live key it owns is
deleted from the store, one tombstone each.
-/

namespace CaveHome.Kine

/-- One granted lease; times are in seconds. -/
structure Lease where
  id : Int
  ttlSeconds : Int
  grantedAt : Int
  deriving DecidableEq

namespace Lease

def expiresAt (l : Lease) : Int := I64.saturatingAdd l.grantedAt l.ttlSeconds

/-- A lease has expired at the very second its time to live is over. -/
def isExpired (l : Lease) (now : Int) : Bool := decide (now ≥ l.expiresAt)

end Lease

/-- Delete the keys one after the other and count those that were live; a failed delete is
skipped. -/
def deleteKeys : List Bytes → Nat → Store → Nat × Store
  | [], deleted, s => (deleted, s)
  | k :: keys, deleted, s =>
    match s.delete k with
    | (.ok (some _), s') => deleteKeys keys (deleted + 1) s'
    | (_, s') => deleteKeys keys deleted s'

/-- Delete every live key of a lease. -/
def revokeKeys (s : Store) (id : Int) : Nat × Store :=
  if id = 0 then (0, s)
  else
    let keys := s.liveKeys.filter fun k => (s.getLive k).any fun r => decide (r.lease = id)
    deleteKeys keys 0 s

/-- The granted leases by id. -/
structure LeaseTable where
  leases : Std.TreeMap Int Lease := {}

namespace LeaseTable

/-- Grant or renew a lease. -/
def grant (t : LeaseTable) (id ttlSeconds now : Int) : Result Lease × LeaseTable :=
  if id = 0 then (.error .invalidLeaseId, t)
  else if ttlSeconds ≤ 0 then (.error (.invalidTtl ttlSeconds), t)
  else
    let lease : Lease := { id, ttlSeconds, grantedAt := now }
    (.ok lease, { leases := t.leases.insert id lease })

/-- Remove a lease. -/
def revoke (t : LeaseTable) (id : Int) : Option Lease × LeaseTable :=
  (t.leases[id]?, { leases := t.leases.erase id })

/-- The ids of the expired leases, ascending. -/
def expired (t : LeaseTable) (now : Int) : List Int :=
  (t.leases.values.filter fun l => l.isExpired now).map Lease.id

/-- The loop of `expire` over the expired ids. -/
def expireIds : List Int → LeaseTable → Store → List (Int × Nat) →
    List (Int × Nat) × LeaseTable × Store
  | [], t, s, report => (report, t, s)
  | id :: ids, t, s, report =>
    let (deleted, s') := revokeKeys s id
    expireIds ids { leases := t.leases.erase id } s' (report ++ [(id, deleted)])

/-- Remove the expired leases and delete their keys from the store. -/
def expire (t : LeaseTable) (s : Store) (now : Int) : List (Int × Nat) × LeaseTable × Store :=
  expireIds (t.expired now) t s []

end LeaseTable

theorem deleteKeys_writes (keys : List Bytes) (deleted : Nat) (s : Store) :
    ∃ l, s.Writes l (deleteKeys keys deleted s).2 := by
  induction keys generalizing deleted s with
  | nil => exact ⟨[], .nil⟩
  | cons k keys ih =>
    obtain ⟨l, hl, -⟩ := Store.writes_of_cases (s.delete_cases k)
    unfold deleteKeys
    cases hd : s.delete k with
    | mk res s' =>
      rw [hd] at hl
      rcases res with e | _ | rev
      · obtain ⟨m, hm⟩ := ih deleted s'
        exact ⟨l ++ m, hl.trans hm⟩
      · obtain ⟨m, hm⟩ := ih deleted s'
        exact ⟨l ++ m, hl.trans hm⟩
      · obtain ⟨m, hm⟩ := ih (deleted + 1) s'
        exact ⟨l ++ m, hl.trans hm⟩

theorem revokeKeys_writes (s : Store) (id : Int) : ∃ l, s.Writes l (revokeKeys s id).2 := by
  unfold revokeKeys
  split_ifs
  · exact ⟨[], .nil⟩
  · exact deleteKeys_writes _ 0 s

theorem LeaseTable.expireIds_writes (ids : List Int) (t : LeaseTable) (s : Store)
    (report : List (Int × Nat)) : ∃ l, s.Writes l (expireIds ids t s report).2.2 := by
  induction ids generalizing t s report with
  | nil => exact ⟨[], .nil⟩
  | cons id ids ih =>
    obtain ⟨l, hl⟩ := revokeKeys_writes s id
    obtain ⟨m, hm⟩ := ih { leases := t.leases.erase id } (revokeKeys s id).2
      (report ++ [(id, (revokeKeys s id).1)])
    exact ⟨l ++ m, hl.trans hm⟩

theorem LeaseTable.expire_writes (t : LeaseTable) (s : Store) (now : Int) :
    ∃ l, s.Writes l (t.expire s now).2.2 :=
  expireIds_writes _ t s []

end CaveHome.Kine
