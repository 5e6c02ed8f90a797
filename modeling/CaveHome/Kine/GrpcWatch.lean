import CaveHome.Kine.Grpc

/-!
# Watch streams

A watch is a loop over the after query: it remembers the revision of the last row it has seen, and
each poll asks for the rows of its range above that revision.  A `WatchSystem` is one watch on a
store that other clients write and compact; its steps are the critical sections of both sides, in
any order.

The checkpoint moves only when a row of the range arrives, while the compacted floor moves with
every compaction.  A compaction above the checkpoint therefore ends a watch on a quiet range with an
error, although no row of the range was lost.  The file shows that a watch delivers every row of its
range once and in order, and never fails, as long as compactions stay at or below the checkpoint.
-/

namespace CaveHome.Kine.Etcd

/-! ## Messages -/

structure WatchCreateRequest where
  key : Bytes
  rangeEnd : Bytes := []
  startRevision : Int := 0
  progressNotify : Bool := false
  filters : List Int := []
  prevKv : Bool := false
  watchId : Int := 0
  deriving DecidableEq

structure Event where
  kind : EventKind
  kv : KeyValue
  prevKv : Option KeyValue
  deriving DecidableEq

structure WatchResponse where
  header : ResponseHeader
  watchId : Int
  created : Bool := false
  canceled : Bool := false
  compactRevision : Int := 0
  cancelReason : String := ""
  fragment : Bool := false
  events : List Event := []
  deriving DecidableEq

/-- Build a response with a header, a watch id and an event batch. -/
def watchResponse (watchId revision : Int) (created : Bool) (events : List Event) :
    WatchResponse :=
  { header := { revision }, watchId, created, events }

/-- The answer to a cancel request. -/
def watchCanceled (watchId revision : Int) : WatchResponse :=
  { header := { revision }, watchId, canceled := true, cancelReason := "watch canceled" }

/-- The end of a watch whose start revision fell below the compacted floor. -/
def watchCompacted (watchId revision compactRevision : Int) : WatchResponse :=
  { header := { revision }, watchId, canceled := true, compactRevision,
    cancelReason := "mvcc: required revision has been compacted" }

/-- The event types a watch admits. -/
structure EventFilter where
  allowPut : Bool
  allowDelete : Bool
  deriving DecidableEq

/-- Read the filter codes of a create request; unknown codes are ignored. -/
def EventFilter.fromProto (filters : List Int) : EventFilter :=
  filters.foldl (fun f code =>
    if code = 0 then { f with allowPut := false }
    else if code = 1 then { f with allowDelete := false }
    else f) { allowPut := true, allowDelete := true }

def EventFilter.admits (f : EventFilter) (e : WatchEvent) : Bool :=
  match e.kind with
  | .put => f.allowPut
  | .delete => f.allowDelete

/-- The event as the client sees it.  A create, whose two revisions agree, has no previous value. -/
def toEvent (wantPrev : Bool) (e : WatchEvent) : Event where
  kind := e.kind
  kv := { key := e.key, createRevision := e.createRevision, modRevision := e.revision,
          version := e.revision - e.createRevision + 1, value := e.value, lease := 0 }
  prevKv :=
    let hasPrev := decide (e.kind = .delete) || decide (e.createRevision ≠ e.revision)
    if wantPrev && hasPrev then
      some { key := e.key, createRevision := e.createRevision, modRevision := e.revision - 1,
             version := 0, value := e.prevValue, lease := 0 }
    else none

/-! ## The stream -/

/-- Idle polls between two progress notifications. -/
def progressIdleTicks : Nat := 3

/-- The mutable variables of the poll loop. -/
structure Cursor where
  last : Int
  inboundOpen : Bool
  idleTicks : Nat
  deriving DecidableEq

/-- Where a watch stands between two critical sections. -/
inductive WatchPhase
  | opening
  | checking (filter : Kine.RangeRequest) (revision : Int)
  | polling (filter : Kine.RangeRequest) (c : Cursor)
  | waiting (filter : Kine.RangeRequest) (c : Cursor) (headerRev : Int)
  | closed
  | failed (e : Status)
  deriving DecidableEq

/-- What wakes the loop between two polls: the pace timer, or the client's control stream. -/
inductive Inbound
  | sleep
  | cancel (watchId : Int)
  | other
  | error (e : Status)
  | ended
  deriving DecidableEq

namespace WatchCreateRequest

variable (create : WatchCreateRequest)

/-- The response of one poll, if it sends any, and the cursor after it. -/
def pollReply (c : Cursor) (events : List WatchEvent) (headerRev : Int) :
    List WatchResponse × Cursor :=
  -- the checkpoint moves past the whole batch before the event types are filtered
  let c := { c with last := (events.getLast?.map WatchEvent.revision).getD c.last }
  let events := events.filter (EventFilter.fromProto create.filters).admits
  if !events.isEmpty then
    ([watchResponse create.watchId headerRev false (events.map (toEvent create.prevKv))],
      { c with idleTicks := 0 })
  else if create.progressNotify then
    if c.idleTicks + 1 ≥ progressIdleTicks then
      ([watchResponse create.watchId headerRev false []], { c with idleTicks := 0 })
    else ([], { c with idleTicks := c.idleTicks + 1 })
  else ([], c)

/-- The next critical section of a watch: the responses it sends and the phase after it. -/
def advance (t : SqliteStore) : WatchPhase → List WatchResponse × WatchPhase
  | .opening =>
    match toKineRangeBytes create.key create.rangeEnd with
    | .error e => ([], .failed e)
    | .ok filter =>
      ([watchResponse create.watchId t.currentRevision true []],
        .checking filter t.currentRevision)
  | .checking filter revision =>
    if create.startRevision > 0 then
      if create.startRevision < t.compactedRevision then
        ([watchCompacted create.watchId revision t.compactedRevision], .closed)
      else ([], .polling filter ⟨create.startRevision - 1, true, 0⟩)
    else ([], .polling filter ⟨revision, true, 0⟩)
  | .polling filter c =>
    match t.watchAfter filter c.last with
    | .error e => ([], .failed (status e))
    | .ok events =>
      let (sent, c') := create.pollReply c events t.currentRevision
      (sent, .waiting filter c' t.currentRevision)
  | phase => ([], phase)

/-- The end of the wait between two polls.  The control stream is read only while it is open. -/
def receive (i : Inbound) : WatchPhase → List WatchResponse × WatchPhase
  | .waiting filter c headerRev =>
    match i with
    | .sleep => ([], .polling filter c)
    | i =>
      if c.inboundOpen then
        match i with
        | .cancel id =>
          ([watchCanceled (if id ≠ 0 then id else create.watchId) headerRev], .closed)
        | .error e => ([], .failed e)
        | .ended => ([], .polling filter { c with inboundOpen := false })
        | _ => ([], .polling filter c)
      else ([], .waiting filter c headerRev)
  | phase => ([], phase)

end WatchCreateRequest

/-! ## The watch and the store together -/

/-- A store, a watch on it and what the watch has sent.  Two fields are history: every row ever
inserted, and how many of them were there at the latest poll. -/
structure WatchSystem where
  store : SqliteStore
  phase : WatchPhase
  sent : List WatchResponse
  log : List SqlRow
  polled : Nat

/-- One step of the store's clients or of the watch. -/
inductive WatchStep
  | put (key value : Bytes) (lease : Int)
  | delete (key : Bytes)
  | compact (target : Int)
  | advance
  | receive (i : Inbound)

namespace WatchSystem

/-- A fresh store and a watch that has not begun. -/
def start : WatchSystem where
  store := .openInMemory
  phase := .opening
  sent := []
  log := []
  polled := 0

/-- Replace the store by one with more rows. -/
def write (sys : WatchSystem) (t : SqliteStore) : WatchSystem :=
  { sys with store := t, log := sys.log ++ t.rows.drop sys.store.rows.length }

def step (create : WatchCreateRequest) (sys : WatchSystem) : WatchStep → WatchSystem
  | .put key value lease => sys.write (sys.store.put key value lease).2
  | .delete key => sys.write (sys.store.delete key).2
  | .compact target => { sys with store := (sys.store.compact target).2 }
  | .advance =>
    let (sent, phase) := create.advance sys.store sys.phase
    { sys with
      phase, sent := sys.sent ++ sent,
      polled := match sys.phase with
        | .polling _ _ => sys.log.length
        | _ => sys.polled }
  | .receive i =>
    let (sent, phase) := create.receive i sys.phase
    { sys with phase, sent := sys.sent ++ sent }

def run (create : WatchCreateRequest) (sys : WatchSystem) (steps : List WatchStep) :
    WatchSystem :=
  steps.foldl (step create) sys

/-- The events the client has received, in order. -/
def delivered (sys : WatchSystem) : List Event := sys.sent.flatMap WatchResponse.events

end WatchSystem

/-- The filter and the cursor of a watch in its poll loop. -/
def WatchPhase.task : WatchPhase → Option (Kine.RangeRequest × Cursor)
  | .polling filter c | .waiting filter c _ => some (filter, c)
  | _ => none

def WatchPhase.isChecking : WatchPhase → Bool
  | .checking _ _ => true
  | _ => false

/-- The events a watch should deliver for some rows. -/
def WatchCreateRequest.deliverable (create : WatchCreateRequest) (rows : List SqlRow) :
    List Event :=
  ((rows.map SqlRow.toEvent).filter (EventFilter.fromProto create.filters).admits).map
    (toEvent create.prevKv)

/-- The rows a watch is about: those of its range from its start revision on. -/
def WatchCreateRequest.watches (create : WatchCreateRequest) (filter : Kine.RangeRequest)
    (r : SqlRow) : Bool :=
  filter.contains r.key && decide (create.startRevision ≤ r.id)

namespace WatchSystem

variable (create : WatchCreateRequest) (filter : Kine.RangeRequest)

/-- The watch begins above the compacted floor, and a compaction removes a row of the watch only
after a poll that could see it. -/
def Timely (sys : WatchSystem) : WatchStep → Prop
  | .advance => sys.phase.isChecking = true →
    sys.store.compactedRevision < create.startRevision
  | .compact target => sys.phase.task.isSome = true →
    ∀ r ∈ sys.store.rows, r.isUser = true → create.watches filter r = true →
      r ∉ (sys.store.compact target).2.rows → r ∈ sys.log.take sys.polled
  | _ => True

/-- A compaction to `target` leaves a poll loop with checkpoint `last` able to continue: it stays at
or below the checkpoint, or the loop has seen no row at all and its next poll, which reads from the
beginning, takes the checkpoint to the target or finds nothing. -/
def Spares (t : SqliteStore) (last target : Int) : Prop :=
  target ≤ last ∨ last = 0 ∧ ∀ r ∈ t.rows, r.isUser = true → filter.contains r.key = true →
    ∃ q ∈ t.rows, q.isUser = true ∧ filter.contains q.key = true ∧ target ≤ q.id

/-- No put names the row that keeps the floor or a key of the range that the preselection misses,
and no compaction overtakes the checkpoint of the poll loop. -/
def Sparing (sys : WatchSystem) : WatchStep → Prop
  | .put key _ _ => key ≠ Bytes.ofString compactRevKey ∧ (filter.contains key = true →
      (Bytes.toString? key).all
        (fun name => SqlLike.like (likePattern filter).toList name.toList) = true)
  | .compact target => (sys.store.compact target).1.isOk = true →
    ∀ task ∈ sys.phase.task, Spares filter sys.store task.2.last target
  | _ => True

/-- Every step of a run satisfies a condition on the state before it. -/
def Along (P : WatchSystem → WatchStep → Prop) : WatchSystem → List WatchStep → Prop
  | _, [] => True
  | sys, a :: steps => P sys a ∧ Along P (sys.step create a) steps

instance (sys : WatchSystem) : (a : WatchStep) → Decidable (sys.Timely create filter a)
  | .advance => inferInstanceAs (Decidable (_ → _))
  | .compact _ => inferInstanceAs (Decidable (_ → _))
  | .put _ _ _ | .delete _ | .receive _ => inferInstanceAs (Decidable True)

instance (t : SqliteStore) (last target : Int) : Decidable (Spares filter t last target) :=
  inferInstanceAs (Decidable (_ ∨ _))

instance (sys : WatchSystem) : (a : WatchStep) → Decidable (sys.Sparing filter a)
  | .put _ _ _ => inferInstanceAs (Decidable (_ ∧ _))
  | .compact _ => inferInstanceAs (Decidable (_ → _))
  | .advance | .delete _ | .receive _ => inferInstanceAs (Decidable True)

def Along.decide (P : WatchSystem → WatchStep → Prop) [∀ sys a, Decidable (P sys a)] :
    (sys : WatchSystem) → (steps : List WatchStep) → Decidable (Along create P sys steps)
  | _, [] => inferInstanceAs (Decidable True)
  | sys, a :: steps =>
    have := Along.decide P (sys.step create a) steps
    inferInstanceAs (Decidable (P sys a ∧ Along create P (sys.step create a) steps))

instance (P : WatchSystem → WatchStep → Prop) [∀ sys a, Decidable (P sys a)] (sys : WatchSystem)
    (steps : List WatchStep) : Decidable (Along create P sys steps) :=
  Along.decide create P sys steps

/-! ## The invariant -/

/-- A store against the history of its rows: the floor is in the sentinel, and the rows above the
floor are all there. -/
structure Logged (t : SqliteStore) (log : List SqlRow) : Prop where
  sentinel : (t.rows.filter fun r => decide (r.name = compactRevKey)) =
    [.sentinel t.compactedRevision]
  floor_nonneg : 0 ≤ t.compactedRevision
  floor_le : t.compactedRevision ≤ t.seq
  sorted : log.Pairwise fun a b => a.id < b.id
  pos : ∀ r ∈ log, 0 < r.id
  le_seq : ∀ r ∈ log, r.id ≤ t.seq
  user : ∀ r ∈ log, r.isUser = true
  sub : ∀ r ∈ t.rows, r.isUser = true → r ∈ log
  above : (t.rows.filter fun r => r.isUser && decide (t.compactedRevision < r.id)) =
    log.filter fun r => decide (t.compactedRevision < r.id)
  like : ∀ r ∈ log, filter.contains r.key = true →
    SqlLike.like (likePattern filter).toList r.name.toList = true

/-- A poll loop with checkpoint `last`: the next poll finds every row above the checkpoint and does
not fail, and the rows up to the checkpoint are those of the polls so far. -/
structure Tracks (t : SqliteStore) (log : List SqlRow) (polled : Nat) (last : Int) : Prop where
  nonneg : 0 ≤ last
  start_le : create.startRevision ≤ last + 1
  last_le : last ≤ t.seq ∨ last + 1 = create.startRevision
  floor_le : t.compactedRevision ≤ last ∨ last = 0 ∧ ∀ r ∈ log, filter.contains r.key = true →
    ∃ q ∈ log, filter.contains q.key = true ∧ t.compactedRevision ≤ q.id
  unseen : (t.rows.filter fun r => r.isUser && filter.contains r.key && decide (last < r.id)) =
    log.filter fun r => filter.contains r.key && decide (last < r.id)
  seen : (log.take polled).filter (create.watches filter) =
    log.filter fun r => create.watches filter r && decide (r.id ≤ last)

structure Inv (sys : WatchSystem) : Prop where
  logged : Logged filter sys.store sys.log
  polled_le : sys.polled ≤ sys.log.length
  delivered_eq : sys.delivered =
    create.deliverable ((sys.log.take sys.polled).filter (create.watches filter))
  opening : sys.phase = .opening → sys.polled = 0
  checking : ∀ g revision, sys.phase = .checking g revision → g = filter ∧ sys.polled = 0
  task : ∀ g c, sys.phase.task = some (g, c) →
    g = filter ∧ Tracks create filter sys.store sys.log sys.polled c.last

variable {create filter} {t t' : SqliteStore} {log : List SqlRow} {polled : Nat} {last : Int}
variable {sys : WatchSystem}

theorem logged_openInMemory : Logged filter .openInMemory [] := by
  refine ⟨by decide, by decide, by decide, .nil, ?_, ?_, ?_, ?_, by decide, ?_⟩
  · exact fun r hr => absurd hr List.not_mem_nil
  · exact fun r hr => absurd hr List.not_mem_nil
  · exact fun r hr => absurd hr List.not_mem_nil
  · intro r hr hu
    rw [List.mem_singleton.1 hr] at hu
    exact absurd hu (by decide)
  · exact fun r hr => absurd hr List.not_mem_nil

theorem inv_start : Inv create filter start :=
  ⟨logged_openInMemory, le_rfl, rfl, fun _ => rfl, nofun, nofun⟩

theorem narrow {p q : SqlRow → Bool} {lo hi : Int} (hle : lo ≤ hi)
    (h : (t.rows.filter fun r => p r && decide (lo < r.id)) =
      log.filter fun r => q r && decide (lo < r.id)) :
    (t.rows.filter fun r => p r && decide (hi < r.id)) =
      log.filter fun r => q r && decide (hi < r.id) := by
  have hboth : ∀ (f : SqlRow → Bool) (r : SqlRow),
      (f r && decide (hi < r.id)) = (decide (hi < r.id) && (f r && decide (lo < r.id))) := by
    intro f r
    by_cases hr : hi < r.id
    · simp [hr, hle.trans_lt hr]
    · simp [hr]
  have hnarrow := congrArg (List.filter fun r => decide (hi < r.id)) h
  simp only [List.filter_filter] at hnarrow
  simpa only [hboth] using hnarrow

/-! ### Writes -/

section Insert

variable {row : SqlRow}

theorem Logged.floor_insert (hl : Logged filter t log) (hu : row.isUser = true)
    (h : t.Inserted row t') : t'.compactedRevision = t.compactedRevision := by
  refine SqliteStore.compactedRevision_of_sentinel ?_
  have hname : row.name ≠ compactRevKey := by simpa [SqlRow.isUser] using hu
  rw [h.rows, List.filter_append, hl.sentinel]
  simp [hname]

theorem Logged.insert (hl : Logged filter t log) (hu : row.isUser = true)
    (hlike : filter.contains row.key = true →
      SqlLike.like (likePattern filter).toList row.name.toList = true)
    (h : t.Inserted row t') : Logged filter t' (log ++ [row]) := by
  have hfloor := hl.floor_insert hu h
  have hname : row.name ≠ compactRevKey := by simpa [SqlRow.isUser] using hu
  constructor
  · rw [hfloor, h.rows, List.filter_append, hl.sentinel]
    simp [hname]
  · exact hfloor ▸ hl.floor_nonneg
  · rw [hfloor, h.seq]
    exact hl.floor_le.trans (Int.le_add_one le_rfl)
  · refine List.pairwise_append.2 ⟨hl.sorted, List.pairwise_singleton _ _, fun a ha b hb => ?_⟩
    rw [List.mem_singleton.1 hb, h.id]
    exact Int.lt_add_one_of_le (hl.le_seq a ha)
  · refine List.forall_mem_append.2 ⟨hl.pos, List.forall_mem_singleton.2 ?_⟩
    rw [h.id]
    exact Int.lt_add_one_of_le t.seq_nonneg
  · rw [h.seq]
    refine List.forall_mem_append.2 ⟨fun r hr => ?_, List.forall_mem_singleton.2 h.id.le⟩
    exact (hl.le_seq r hr).trans (Int.le_add_one le_rfl)
  · exact List.forall_mem_append.2 ⟨hl.user, List.forall_mem_singleton.2 hu⟩
  · rw [h.rows]
    intro r hr hru
    rcases List.mem_append.1 hr with hr | hr
    · exact List.mem_append_left _ (hl.sub r hr hru)
    · exact List.mem_append_right _ hr
  · rw [hfloor, h.rows, List.filter_append, List.filter_append, hl.above]
    simp [List.filter_cons, hu]
  · exact List.forall_mem_append.2 ⟨hl.like, List.forall_mem_singleton.2 hlike⟩

theorem Tracks.insert (ht : Tracks create filter t log polled last) (hl : Logged filter t log)
    (hpolled : polled ≤ log.length) (hu : row.isUser = true) (h : t.Inserted row t') :
    Tracks create filter t' (log ++ [row]) polled last := by
  have hfloor := hl.floor_insert hu h
  have hid := h.id
  constructor
  · exact ht.nonneg
  · exact ht.start_le
  · rw [h.seq]
    exact ht.last_le.imp_left fun h => h.trans (Int.le_add_one le_rfl)
  · rw [hfloor]
    refine ht.floor_le.imp_right fun ⟨h0, hq⟩ => ⟨h0, fun r hr hc => ?_⟩
    rcases List.mem_append.1 hr with hr | hr
    · obtain ⟨q, hq, hqc, hqf⟩ := hq r hr hc
      exact ⟨q, List.mem_append_left _ hq, hqc, hqf⟩
    · refine ⟨r, List.mem_append_right _ hr, hc, ?_⟩
      rw [List.mem_singleton.1 hr, hid]
      exact hl.floor_le.trans (Int.le_add_one le_rfl)
  · rw [h.rows, List.filter_append, List.filter_append, ht.unseen]
    simp [List.filter_cons, hu]
  · -- the new row lies above the checkpoint, unless it comes before the start of the watch
    have hnew : (create.watches filter row && decide (row.id ≤ last)) = false := by
      have hlast := ht.last_le
      simp only [WatchCreateRequest.watches, Bool.and_eq_false_iff, decide_eq_false_iff_not]
      omega
    rw [List.take_append_of_le_length hpolled, List.filter_append, ht.seen]
    simp [hnew]

theorem write_self (sys : WatchSystem) : sys.write sys.store = sys := by
  simp [write]

theorem Inv.write (hi : Inv create filter sys) (hu : row.isUser = true)
    (hlike : filter.contains row.key = true →
      SqlLike.like (likePattern filter).toList row.name.toList = true)
    (h : sys.store.Inserted row t) : Inv create filter (sys.write t) := by
  have hwrite : sys.write t = { sys with store := t, log := sys.log ++ [row] } := by
    simp [WatchSystem.write, h.rows]
  rw [hwrite]
  refine ⟨hi.logged.insert hu hlike h, ?_, ?_, hi.opening, hi.checking, fun g c hc => ?_⟩
  · rw [List.length_append]
    exact hi.polled_le.trans (Nat.le_add_right _ _)
  · rw [List.take_append_of_le_length hi.polled_le]
    exact hi.delivered_eq
  · obtain ⟨rfl, ht⟩ := hi.task g c hc
    exact ⟨rfl, ht.insert hi.logged hi.polled_le hu h⟩

end Insert

theorem Inv.put (hi : Inv create filter sys) {key value : Bytes} {lease : Int}
    (hs : sys.Sparing filter (.put key value lease)) :
    Inv create filter (sys.step create (.put key value lease)) := by
  obtain ⟨hkey, hlike⟩ := hs
  rcases sys.store.put_cases key value lease with ⟨-, h⟩ | ⟨row, -, hrow, -, hins⟩
  · simpa only [step, h, write_self] using hi
  · subst hrow
    refine hi.write (SqlRow.isUser_iff.2 hkey) (fun hc => ?_) hins
    have := hlike hc
    rwa [SqlRow.key, Bytes.toString?_ofString] at this

theorem Logged.delete_sentinel (hl : Logged filter t log) :
    (t.delete (Bytes.ofString compactRevKey)).2 = t := by
  have hlatest : t.latest compactRevKey = some (.sentinel t.compactedRevision) := by
    have := VersionedLog.last_eq_getLast? SqlRow.name t.rows compactRevKey
    rw [hl.sentinel] at this
    exact this
  have hk : keyStr (Bytes.ofString compactRevKey) = .ok compactRevKey :=
    keyStr_ok_iff.2 ⟨by decide, rfl⟩
  simp [SqliteStore.delete, hk, hlatest, SqlRow.sentinel]

theorem Inv.delete (hi : Inv create filter sys) (key : Bytes) :
    Inv create filter (sys.step create (.delete key)) := by
  rcases sys.store.delete_cases key with h | ⟨row, hrow, -, hins⟩
  · simpa only [step, h, write_self] using hi
  · subst hrow
    by_cases hkey : row.key = Bytes.ofString compactRevKey
    · have := hi.logged.delete_sentinel
      simpa only [step, hkey, this, write_self] using hi
    · refine hi.write (SqlRow.isUser_iff.2 hkey) (fun hc => ?_) hins
      -- a tombstone has a row before it, with the same name
      obtain ⟨r, hr, hk⟩ : ∃ r ∈ sys.store.rows, r.key = row.key := by
        by_contra hnone
        push Not at hnone
        have := hins.rows
        rw [SqliteStore.delete_of_absent hnone] at this
        simp at this
      have hu : r.isUser = true := SqlRow.isUser_iff.2 (hk ▸ hkey)
      rw [← SqlRow.name_eq_of_key_eq hk]
      exact hi.logged.like r (hi.logged.sub r hr hu) (hk ▸ hc)

section Purge

variable {target : Int}

theorem Logged.purge (hl : Logged filter t log) (h : t.Purged target t') :
    Logged filter t' log := by
  have hsent := h.sentinel hl.sentinel
  have hfloor := SqliteStore.compactedRevision_of_sentinel hsent
  constructor
  · exact hfloor.symm ▸ hsent
  · rw [hfloor]
    exact hl.floor_nonneg.trans h.forward.le
  · rw [hfloor, h.seq]
    exact h.le_current.trans t.currentRevision_le_seq
  · exact hl.sorted
  · exact hl.pos
  · exact h.seq.symm ▸ hl.le_seq
  · exact hl.user
  · intro r hr hu
    have hmem : r ∈ t'.rows.filter SqlRow.isUser := List.mem_filter.2 ⟨hr, hu⟩
    rw [h.users] at hmem
    exact hl.sub r (List.mem_of_mem_filter (List.mem_of_mem_filter hmem)) hu
  · rw [hfloor, h.filter_eq (fun r hr => (Bool.and_eq_true _ _ ▸ hr).1) fun r _ hr =>
      SqliteStore.retained_of_lt (of_decide_eq_true (Bool.and_eq_true _ _ ▸ hr).2)]
    simpa using narrow (q := fun _ => true) h.forward.le (by simpa using hl.above)
  · exact hl.like

theorem Tracks.purge (ht : Tracks create filter t log polled last) (hl : Logged filter t log)
    (hkept : ∀ r ∈ t.rows, r.isUser = true → create.watches filter r = true →
      r ∉ t'.rows → r ∈ log.take polled)
    (hs : Spares filter t last target) (h : t.Purged target t') :
    Tracks create filter t' log polled last := by
  have hfloor := SqliteStore.compactedRevision_of_sentinel (h.sentinel hl.sentinel)
  constructor
  · exact ht.nonneg
  · exact ht.start_le
  · exact h.seq.symm ▸ ht.last_le
  · rw [hfloor]
    refine hs.imp_right fun ⟨h0, hq⟩ => ⟨h0, fun r hr hc => ?_⟩
    -- nothing has been seen, so the rows of the range in the log are those in the store
    have hmem : r ∈ log.filter fun r => filter.contains r.key && decide (last < r.id) := by
      refine List.mem_filter.2 ⟨hr, ?_⟩
      simpa [hc, h0] using hl.pos r hr
    rw [← ht.unseen, List.mem_filter] at hmem
    obtain ⟨q, hq, hqu, hqc, hqt⟩ := hq r hmem.1 (hl.user r hr) hc
    exact ⟨q, hl.sub q hq hqu, hqc, hqt⟩
  · rw [← ht.unseen]
    refine h.filter_eq (fun r hr => ?_) fun r hr hsel => ?_
    · simp only [Bool.and_eq_true] at hr
      exact hr.1.1
    · simp only [Bool.and_eq_true, decide_eq_true_eq] at hsel
      obtain ⟨⟨hu, hc⟩, hlt⟩ := hsel
      have hstart := ht.start_le
      have hwatch : create.watches filter r = true := by
        simp only [WatchCreateRequest.watches, hc, Bool.true_and, decide_eq_true_eq]
        omega
      by_contra hgone
      have hnot : r ∉ t'.rows := fun hmem => by
        have : r ∈ t'.rows.filter SqlRow.isUser := List.mem_filter.2 ⟨hmem, hu⟩
        rw [h.users] at this
        exact hgone (List.mem_filter.1 (List.mem_of_mem_filter this)).2
      have hseen : r ∈ (log.take polled).filter (create.watches filter) :=
        List.mem_filter.2 ⟨hkept r hr hu hwatch hnot, hwatch⟩
      rw [ht.seen, List.mem_filter, Bool.and_eq_true, decide_eq_true_eq] at hseen
      omega
  · exact ht.seen

theorem Inv.compact (hi : Inv create filter sys)
    (htime : sys.Timely create filter (.compact target))
    (hs : sys.Sparing filter (.compact target)) :
    Inv create filter (sys.step create (.compact target)) := by
  rcases sys.store.compact_cases target with ⟨-, h⟩ | ⟨⟨report, hok⟩, hp⟩
  · simpa only [step, h] using hi
  · refine ⟨hi.logged.purge hp, hi.polled_le, hi.delivered_eq, hi.opening, hi.checking,
      fun g c hc => ?_⟩
    have hc : sys.phase.task = some (g, c) := hc
    obtain ⟨rfl, ht⟩ := hi.task g c hc
    have hspares := hs (by rw [hok]; rfl) (g, c) hc
    exact ⟨rfl, ht.purge hi.logged (htime (by rw [hc]; rfl)) hspares hp⟩

end Purge

/-! ### Polls -/

theorem pollReply_events (c : Cursor) (events : List WatchEvent) (headerRev : Int) :
    (create.pollReply c events headerRev).1.flatMap WatchResponse.events =
      (events.filter (EventFilter.fromProto create.filters).admits).map
        (toEvent create.prevKv) := by
  unfold WatchCreateRequest.pollReply
  dsimp only
  split_ifs with h₁ h₂ h₃
  · simp [watchResponse]
  all_goals
    have hnil : events.filter (EventFilter.fromProto create.filters).admits = [] := by
      simpa using h₁
    simp [hnil, watchResponse]

theorem pollReply_last (c : Cursor) (events : List WatchEvent) (headerRev : Int) :
    (create.pollReply c events headerRev).2.last =
      (events.getLast?.map WatchEvent.revision).getD c.last := by
  unfold WatchCreateRequest.pollReply
  dsimp only
  split_ifs <;> rfl

theorem Tracks.watchAfter_eq (ht : Tracks create filter t log polled last)
    (hl : Logged filter t log) (hv : validateRange filter = .ok ()) :
    t.watchAfter filter last = .ok ((log.filter fun r =>
      filter.contains r.key && decide (last < r.id)).map SqlRow.toEvent) := by
  rw [← ht.unseen]
  refine SqliteStore.watchAfter_of_valid (fun r hr hu => hl.like r (hl.sub r hr hu)) hv ht.nonneg ?_
  exact ht.floor_le.symm.imp_left fun h => h.1

theorem Tracks.split_log (ht : Tracks create filter t log polled last)
    (hl : Logged filter t log) :
    log.filter (create.watches filter) = (log.take polled).filter (create.watches filter) ++
      log.filter fun r => filter.contains r.key && decide (last < r.id) := by
  have hsorted : (log.filter (create.watches filter)).Pairwise fun a b => a.id ≤ b.id :=
    (hl.sorted.imp le_of_lt).filter _
  have hstart := ht.start_le
  rw [ht.seen, ← VersionedLog.filter_le_append_filter_lt hsorted last, List.filter_filter,
    List.filter_filter]
  congr 1
  · exact List.filter_congr fun r _ => Bool.and_comm _ _
  · refine List.filter_congr fun r _ => ?_
    by_cases hr : last < r.id
    · have : create.startRevision ≤ r.id := by omega
      simp [WatchCreateRequest.watches, hr, this]
    · simp [hr]

theorem Tracks.poll (ht : Tracks create filter t log polled last) (hl : Logged filter t log)
    {last' : Int} (hlast : last' = (((log.filter fun r =>
      filter.contains r.key && decide (last < r.id)).getLast?.map SqlRow.id).getD last)) :
    Tracks create filter t log log.length last' := by
  set new := log.filter fun r => filter.contains r.key && decide (last < r.id) with hnew
  have hsorted : new.Pairwise fun a b => a.id ≤ b.id := (hl.sorted.imp le_of_lt).filter _
  have hle : ∀ r ∈ new, r.id ≤ last' := fun r hr =>
    hlast ▸ VersionedLog.rev_le_getLast? hsorted last hr
  have hmem : ∀ r, r ∈ new ↔ r ∈ log ∧ filter.contains r.key = true ∧ last < r.id := by
    intro r
    rw [hnew, List.mem_filter, Bool.and_eq_true, decide_eq_true_eq]
  -- the new checkpoint is the old one or the id of a row the poll returned
  have hcases : last' = last ∨ ∃ r ∈ new, last' = r.id := by
    cases hg : new.getLast? with
    | none =>
      rw [hg] at hlast
      exact Or.inl hlast
    | some r =>
      rw [hg] at hlast
      exact Or.inr ⟨r, List.mem_of_getLast? hg, hlast⟩
  have hmono : last ≤ last' := by
    rcases hcases with h | ⟨r, hr, h⟩
    · exact h.ge
    · exact h ▸ ((hmem r).1 hr).2.2.le
  have hstart := ht.start_le
  constructor
  · exact ht.nonneg.trans hmono
  · omega
  · rcases hcases with h | ⟨r, hr, h⟩
    · exact h ▸ ht.last_le
    · exact Or.inl (h ▸ hl.le_seq r ((hmem r).1 hr).1)
  · rcases ht.floor_le with hf | ⟨h0, hq⟩
    · exact Or.inl (hf.trans hmono)
    · rcases hcases with h | ⟨r, hr, -⟩
      · exact Or.inr ⟨h.trans h0, hq⟩
      · obtain ⟨q, hq, hqc, hqf⟩ := hq r ((hmem r).1 hr).1 ((hmem r).1 hr).2.1
        exact Or.inl (hqf.trans (hle q ((hmem q).2 ⟨hq, hqc, h0 ▸ hl.pos q hq⟩)))
  · exact narrow hmono ht.unseen
  · rw [List.take_length]
    refine List.filter_congr fun r hr => ?_
    cases hw : create.watches filter r with
    | false => rfl
    | true =>
      have hid : r.id ≤ last' := by
        simp only [WatchCreateRequest.watches, Bool.and_eq_true, decide_eq_true_eq] at hw
        by_cases hlt : last < r.id
        · exact hle r ((hmem r).2 ⟨hr, hw.1, hlt⟩)
        · omega
      simp [hid]

theorem tracks_of_floor_lt (hl : Logged filter t log)
    (h : t.compactedRevision < create.startRevision) :
    Tracks create filter t log 0 (create.startRevision - 1) := by
  have hnn := hl.floor_nonneg
  constructor
  · omega
  · omega
  · omega
  · left
    omega
  · have hle : t.compactedRevision ≤ create.startRevision - 1 := by omega
    have hall := congrArg (List.filter fun r => filter.contains r.key)
      (narrow (q := fun _ => true) hle (by simpa using hl.above))
    simp only [List.filter_filter] at hall
    refine (List.filter_congr fun r _ => ?_).trans (hall.trans (List.filter_congr fun r _ => ?_))
    · rw [Bool.and_assoc, Bool.and_left_comm]
    · rw [Bool.true_and]
  · rw [List.take_zero, List.filter_nil, eq_comm, List.filter_eq_nil_iff]
    intro r _
    simp only [WatchCreateRequest.watches, Bool.and_eq_true, decide_eq_true_eq]
    omega

theorem Inv.advance (hi : Inv create filter sys)
    (hf : toKineRangeBytes create.key create.rangeEnd = .ok filter)
    (hv : validateRange filter = .ok ()) (htime : sys.Timely create filter .advance) :
    Inv create filter (sys.step create .advance) := by
  cases hp : sys.phase with
  | opening =>
    have hstep : sys.step create .advance = { sys with
        phase := .checking filter sys.store.currentRevision,
        sent := sys.sent ++ [watchResponse create.watchId sys.store.currentRevision true []] } := by
      simp [step, hp, WatchCreateRequest.advance, hf]
    rw [hstep]
    refine ⟨hi.logged, hi.polled_le, ?_, nofun, ?_, nofun⟩
    · simpa [delivered, watchResponse] using hi.delivered_eq
    · rintro g revision ⟨⟩
      exact ⟨rfl, hi.opening hp⟩
  | checking g revision =>
    obtain ⟨rfl, h0⟩ := hi.checking g revision hp
    have htime : sys.store.compactedRevision < create.startRevision := htime (by rw [hp]; rfl)
    have hstep : sys.step create .advance = { sys with
        phase := .polling g ⟨create.startRevision - 1, true, 0⟩ } := by
      have hpos : create.startRevision > 0 := hi.logged.floor_nonneg.trans_lt htime
      simp [step, hp, WatchCreateRequest.advance, hpos, not_lt.2 htime.le]
    rw [hstep]
    refine ⟨hi.logged, hi.polled_le, hi.delivered_eq, nofun, nofun, ?_⟩
    rintro g' c ⟨⟩
    exact ⟨rfl, h0 ▸ tracks_of_floor_lt hi.logged htime⟩
  | polling g c =>
    obtain ⟨rfl, ht⟩ := hi.task g c (by rw [hp]; rfl)
    have hpoll := ht.watchAfter_eq hi.logged hv
    set new := sys.log.filter fun r => g.contains r.key && decide (c.last < r.id) with hnew
    set reply := create.pollReply c (new.map SqlRow.toEvent) sys.store.currentRevision with hreply
    have hstep : sys.step create .advance = { sys with
        phase := .waiting g reply.2 sys.store.currentRevision,
        sent := sys.sent ++ reply.1, polled := sys.log.length } := by
      simp [step, hp, WatchCreateRequest.advance, hpoll, hreply]
    rw [hstep]
    refine ⟨hi.logged, le_rfl, ?_, nofun, nofun, ?_⟩
    · have hevents : reply.1.flatMap WatchResponse.events = create.deliverable new :=
        pollReply_events _ _ _
      calc
        (sys.sent ++ reply.1).flatMap WatchResponse.events
          = sys.delivered ++ create.deliverable new := by
            rw [List.flatMap_append, hevents, delivered]
        _ = create.deliverable ((sys.log.take sys.polled).filter (create.watches g) ++ new) := by
            simp only [hi.delivered_eq, WatchCreateRequest.deliverable, List.map_append,
              List.filter_append]
        _ = create.deliverable ((sys.log.take sys.log.length).filter (create.watches g)) := by
            rw [← ht.split_log hi.logged, List.take_length]
    · rintro g' c' ⟨⟩
      refine ⟨rfl, ht.poll hi.logged ?_⟩
      rw [hreply, pollReply_last, List.getLast?_map, Option.map_map]
      rfl
  | waiting g c headerRev =>
    have hstep : sys.step create .advance = sys := by
      cases sys
      simp_all [step, WatchCreateRequest.advance]
    rwa [hstep]
  | closed =>
    have hstep : sys.step create .advance = sys := by
      cases sys
      simp_all [step, WatchCreateRequest.advance]
    rwa [hstep]
  | failed e =>
    have hstep : sys.step create .advance = sys := by
      cases sys
      simp_all [step, WatchCreateRequest.advance]
    rwa [hstep]

/-! ### Whole runs -/

theorem receive_cases (create : WatchCreateRequest) (i : Inbound) (phase : WatchPhase) :
    (create.receive i phase).1.flatMap WatchResponse.events = [] ∧
      ((create.receive i phase).2 = phase ∨ ∃ g c headerRev, phase = .waiting g c headerRev ∧
        ((create.receive i phase).2 = .closed ∨ (∃ e, (create.receive i phase).2 = .failed e) ∨
          ∃ c', (create.receive i phase).2 = .polling g c' ∧ c'.last = c.last)) := by
  cases phase with
  | waiting g c headerRev =>
    cases i <;> cases ho : c.inboundOpen <;>
      simp [WatchCreateRequest.receive, ho, watchCanceled]
  | opening => exact ⟨rfl, Or.inl rfl⟩
  | checking g revision => exact ⟨rfl, Or.inl rfl⟩
  | polling g c => exact ⟨rfl, Or.inl rfl⟩
  | closed => exact ⟨rfl, Or.inl rfl⟩
  | failed e => exact ⟨rfl, Or.inl rfl⟩

theorem Inv.receive (hi : Inv create filter sys) (i : Inbound) :
    Inv create filter (sys.step create (.receive i)) := by
  obtain ⟨hsent, hphase⟩ := receive_cases create i sys.phase
  have hdelivered : (sys.step create (.receive i)).delivered = sys.delivered := by
    simp [step, delivered, hsent]
  rcases hphase with h | ⟨g, c, headerRev, hp, h | ⟨e, h⟩ | ⟨c', h, hlast⟩⟩
  · refine ⟨hi.logged, hi.polled_le, hdelivered.trans hi.delivered_eq, ?_, ?_, ?_⟩
    all_goals simp only [step, h]
    · exact hi.opening
    · exact hi.checking
    · exact hi.task
  · refine ⟨hi.logged, hi.polled_le, hdelivered.trans hi.delivered_eq, ?_, ?_, ?_⟩
    all_goals simp only [step, h]; nofun
  · refine ⟨hi.logged, hi.polled_le, hdelivered.trans hi.delivered_eq, ?_, ?_, ?_⟩
    all_goals simp only [step, h]; nofun
  · obtain ⟨rfl, ht⟩ := hi.task g c (by rw [hp]; rfl)
    refine ⟨hi.logged, hi.polled_le, hdelivered.trans hi.delivered_eq, ?_, ?_, ?_⟩
    all_goals simp only [step, h]
    · nofun
    · nofun
    · rintro g' c'' ⟨⟩
      exact ⟨rfl, hlast ▸ ht⟩

theorem Inv.run (hi : Inv create filter sys)
    (hf : toKineRangeBytes create.key create.rangeEnd = .ok filter)
    (hv : validateRange filter = .ok ()) {steps : List WatchStep}
    (htime : Along create (Timely create filter) sys steps)
    (hspare : Along create (Sparing filter) sys steps) :
    Inv create filter (sys.run create steps) := by
  induction steps generalizing sys with
  | nil => exact hi
  | cons a steps ih =>
    obtain ⟨htime, htimes⟩ := htime
    obtain ⟨hspare, hspares⟩ := hspare
    refine ih ?_ htimes hspares
    cases a with
    | put key value lease => exact hi.put hspare
    | delete key => exact hi.delete key
    | compact target => exact hi.compact htime hspare
    | advance => exact hi.advance hf hv htime
    | receive i => exact hi.receive i

/-- A run of a watch and its store begins the watch above the floor and compacts a row of the watch
only after a poll that could see it.  If moreover it writes no reserved or unmatched key and lets no
compaction overtake the checkpoint, then in the state it reaches the next poll succeeds, and the
events delivered are those of the rows of the watch that were inserted before the latest poll, in
ascending order and each once. -/
theorem watch_complete (create : WatchCreateRequest) (filter : Kine.RangeRequest)
    (hf : toKineRangeBytes create.key create.rangeEnd = .ok filter)
    (hv : validateRange filter = .ok ()) (steps : List WatchStep)
    (htime : Along create (Timely create filter) start steps)
    (hspare : Along create (Sparing filter) start steps) :
    (∀ g c, (run create start steps).phase = .polling g c →
      ∃ events, (run create start steps).store.watchAfter g c.last = .ok events) ∧
    (run create start steps).delivered = create.deliverable
      (((run create start steps).log.take (run create start steps).polled).filter
        (create.watches filter)) ∧
    (run create start steps).delivered.Pairwise fun a b => a.kv.modRevision < b.kv.modRevision := by
  have hi := inv_start.run hf hv htime hspare
  refine ⟨fun g c hp => ?_, hi.delivered_eq, ?_⟩
  · obtain ⟨rfl, ht⟩ := hi.task g c (by rw [hp]; rfl)
    exact ⟨_, ht.watchAfter_eq hi.logged hv⟩
  · rw [hi.delivered_eq]
    have hsorted := (hi.logged.sorted.sublist
      (List.take_sublist (run create start steps).polled _)).filter (create.watches filter)
    exact ((hsorted.map SqlRow.toEvent (S := fun a b => a.revision < b.revision)
      fun _ _ h => h).filter _).map _ fun _ _ h => h

/-- A watch on the key `a` from revision 2. -/
def watchKey : WatchCreateRequest where
  key := [97]
  startRevision := 2

/-- The watch polls a write of its key and a tombstone, and the store is compacted to the
checkpoint. -/
theorem watch_complete_polled :
    ∃ steps : List WatchStep,
      (run watchKey start steps).delivered.map (fun e => (e.kind, e.kv.modRevision)) =
        [(.put, 2), (.delete, 3)] ∧
      ∀ g c, (run watchKey start steps).phase = .polling g c →
        ∃ events, (run watchKey start steps).store.watchAfter g c.last = .ok events :=
  ⟨[.put [98] [0] 0, .advance, .advance, .put [97] [1] 0, .advance, .receive .sleep,
      .delete [97], .advance, .compact 3, .receive .sleep],
    by decide,
    (watch_complete watchKey (.ofKey [97]) (by decide) (by decide) _ (by decide) (by decide)).1⟩

/-- Another key is written twice and the store compacted, and the next poll of the watch fails,
although no row of the watch existed, let alone was removed. -/
theorem watch_overtaken :
    ∃ steps : List WatchStep,
      toKineRangeBytes watchKey.key watchKey.rangeEnd = .ok (.ofKey [97]) ∧
      Along watchKey (Timely watchKey (.ofKey [97])) start steps ∧
      (run watchKey start steps).log.filter (watchKey.watches (.ofKey [97])) = [] ∧
      (run watchKey start steps).phase = .failed (status (.compacted 1 3)) :=
  ⟨[.put [98] [0] 0, .advance, .advance, .put [98] [1] 0, .put [98] [2] 0, .compact 3, .advance],
    by decide, by decide, by decide, by decide⟩

end WatchSystem

end CaveHome.Kine.Etcd
