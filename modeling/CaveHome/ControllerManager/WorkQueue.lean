import CaveHome.Lib.BTreeMap
import CaveHome.Lib.Dict
import Mathlib.Algebra.GroupWithZero.Nat
import Mathlib.Algebra.Ring.Int.Defs
import Mathlib.Data.Finset.Basic
import Mathlib.Data.List.Nodup

/-!
# The work queue

A queue of keys for one controller.  A key waits in `ready` or, until its time comes, in `delayed`;
one that is handed out is in `processing` until it is done.  The clock is passed in by the caller.
-/

namespace CaveHome.ControllerManager

structure RateLimitConfig where
  baseDelay : Nat := 5
  maxDelay : Nat := 1000000
  /-- The failures after which a key is dropped. -/
  maxRetries : Nat := 15

def maxU64 : Nat := 18446744073709551615

namespace RateLimitConfig

/-- The delay after so many failures in a row, which doubles with each of them. -/
def backoffFor (cfg : RateLimitConfig) (failures : Nat) : Nat :=
  if failures ≤ 1 then min cfg.baseDelay cfg.maxDelay
  else if 64 ≤ failures - 1 then cfg.maxDelay
  else min (min (cfg.baseDelay * 2 ^ (failures - 1)) maxU64) cfg.maxDelay

end RateLimitConfig

inductive AddOutcome
  | requeued (failures delay : Nat)
  | dropped (failures : Nat)
  deriving DecidableEq

structure WorkQueue where
  cfg : RateLimitConfig
  ready : List String := []
  /-- The keys in `ready` and `delayed`. -/
  queued : Finset String := ∅
  /-- The keys handed out and not yet done. -/
  processing : Finset String := ∅
  /-- The keys that were added while they were processed. -/
  dirtyWhileProcessing : Finset String := ∅
  /-- The delayed keys by the time at which they become ready. -/
  delayed : BTreeMap Nat (List String) := []
  failures : Dict String Nat := ∅

namespace WorkQueue

def withDefaults : WorkQueue := { cfg := {} }

def readyContains (q : WorkQueue) (key : String) : Bool := q.ready.contains key

def delayedReadyAt (q : WorkQueue) (key : String) : Option Nat :=
  (q.delayed.find? fun e => e.2.contains key).map (·.1)

def removeDelayed (q : WorkQueue) (key : String) : WorkQueue :=
  let kept : BTreeMap Nat (List String) := q.delayed.map fun e => (e.1, e.2.filter (· ≠ key))
  let empty := (kept.filter (·.2.isEmpty)).map (·.1)
  { q with
    delayed := empty.foldl (fun delayed at_ => delayed.remove at_) kept
    queued := q.queued.erase key }

/-- Make the key ready.  A key that is processed is marked instead, and one that is delayed is
taken out of the delay. -/
def add (q : WorkQueue) (key : String) : WorkQueue :=
  if key ∈ q.processing then
    { q with dirtyWhileProcessing := insert key q.dirtyWhileProcessing }
  else if q.readyContains key then q
  else
    let q := if (q.delayedReadyAt key).isSome then q.removeDelayed key else q
    { q with queued := insert key q.queued, ready := q.ready ++ [key] }

def pushDelayed (q : WorkQueue) (key : String) (readyAt : Nat) : WorkQueue :=
  { q with
    queued := insert key q.queued
    delayed := q.delayed.insert readyAt ((q.delayed.get readyAt).getD [] ++ [key]) }

/-- Make the key ready after a delay, unless it will be ready earlier anyway. -/
def addAfter (q : WorkQueue) (key : String) (delay now : Nat) : WorkQueue :=
  if delay = 0 then q.add key
  else if key ∈ q.processing then
    { q with dirtyWhileProcessing := insert key q.dirtyWhileProcessing }
  else if q.readyContains key then q
  else
    let readyAt := min (now + delay) maxU64
    match q.delayedReadyAt key with
    | none => q.pushDelayed key readyAt
    | some existing => if existing ≤ readyAt then q else (q.removeDelayed key).pushDelayed key readyAt

/-- Count a failure, and add the key with the delay that follows from it.  The counter goes round
at the end of its range. -/
def addRateLimited (q : WorkQueue) (key : String) (now : Nat) : WorkQueue × AddOutcome :=
  let n := ((q.failures.lookup key).getD 0 + 1) % 4294967296
  if q.cfg.maxRetries < n then ({ q with failures := q.failures.erase key }, .dropped n)
  else
    let delay := q.cfg.backoffFor n
    (({ q with failures := q.failures.insert key n } : WorkQueue).addAfter key delay now,
      .requeued n delay)

def promote (q : WorkQueue) (key : String) : WorkQueue :=
  if key ∈ q.queued ∧ q.readyContains key = false then { q with ready := q.ready ++ [key] } else q

/-- Make the keys of one time ready. -/
def flushBucket (q : WorkQueue) (at_ : Nat) : WorkQueue :=
  match q.delayed.get at_ with
  | none => q
  | some keys => keys.foldl promote { q with delayed := q.delayed.remove at_ }

def flushDue (q : WorkQueue) (now : Nat) : WorkQueue :=
  ((q.delayed.map (·.1)).filter (· ≤ now)).foldl flushBucket q

/-- Hand out the next key. -/
def get (q : WorkQueue) (now : Nat) : WorkQueue × Option String :=
  let q := q.flushDue now
  match q.ready with
  | [] => (q, none)
  | key :: ready =>
    ({ q with ready, queued := q.queued.erase key, processing := insert key q.processing },
      some key)

def done (q : WorkQueue) (key : String) : WorkQueue :=
  let q := { q with processing := q.processing.erase key }
  if key ∈ q.dirtyWhileProcessing then
    ({ q with dirtyWhileProcessing := q.dirtyWhileProcessing.erase key } : WorkQueue).add key
  else q

def forget (q : WorkQueue) (key : String) : WorkQueue :=
  { q with failures := q.failures.erase key }

end WorkQueue

/-! ## Outcomes of a reconcile -/

inductive Outcome
  | done
  | requeue
  | requeueAfter (delay : Nat)
  | err (message : String)

inductive LoopAction
  | forgotten
  | requeued
  | requeuedAfter (delay : Nat)
  | rateLimited (failures delay : Nat)
  | dropped (failures : Nat)
  deriving DecidableEq

/-- What the loop does with the key it has processed. -/
def applyOutcome (q : WorkQueue) (key : String) (outcome : Outcome) (now : Nat) :
    WorkQueue × LoopAction :=
  match outcome with
  | .done => ((q.forget key).done key, .forgotten)
  | .requeue => (((q.forget key).done key).add key, .requeued)
  | .requeueAfter delay => (((q.forget key).done key).addAfter key delay now, .requeuedAfter delay)
  | .err _ =>
    match (q.done key).addRateLimited key now with
    | (q, .requeued failures delay) => (q, .rateLimited failures delay)
    | (q, .dropped failures) => (q, .dropped failures)

end CaveHome.ControllerManager

/-!
## The discipline of the work queue

A key waits at most once, is never handed out twice at a time, and once its processing is requested
stays pending until it is handed out.  Each call is described by what it does to the keys that wait:
one enters them (`Enters`), one is marked as dirty, or the first of them leaves.
-/

namespace CaveHome.ControllerManager

namespace WorkQueue

open BTreeMap (values)

/-- The keys that are delayed. -/
def delayedKeys (q : WorkQueue) : List String := values q.delayed

/-- The keys that wait, as often as they do. -/
def waiting (q : WorkQueue) : List String := q.ready ++ q.delayedKeys

/-- The collections of the queue agree with each other. -/
structure Wf (q : WorkQueue) : Prop where
  sorted : q.delayed.Sorted
  nodup : q.waiting.Nodup
  queued_iff : ∀ k, k ∈ q.queued ↔ k ∈ q.waiting
  idle : ∀ k ∈ q.waiting, k ∉ q.processing
  dirty : ∀ k ∈ q.dirtyWhileProcessing, k ∈ q.processing

/-- The key waits, or it is in flight and will wait again when it is done. -/
def Pending (q : WorkQueue) (k : String) : Prop :=
  k ∈ q.ready ∨ k ∈ q.delayedKeys ∨ (k ∈ q.processing ∧ k ∈ q.dirtyWhileProcessing)

theorem pending_iff {q : WorkQueue} {k : String} :
    q.Pending k ↔ k ∈ q.waiting ∨ (k ∈ q.processing ∧ k ∈ q.dirtyWhileProcessing) := by
  rw [Pending, waiting, List.mem_append, or_assoc]

theorem wf_new (cfg : RateLimitConfig) : Wf { cfg } where
  sorted := BTreeMap.sorted_nil
  nodup := List.nodup_nil
  queued_iff _ := by simp [waiting, delayedKeys, values]
  idle _ h := absurd h List.not_mem_nil
  dirty _ h := absurd h (Finset.notMem_empty _)

variable {q q' : WorkQueue} {k : String}

/-! ## The delayed keys -/

theorem removeDelayed_sorted (h : q.delayed.Sorted) (k : String) :
    (q.removeDelayed k).delayed.Sorted := by
  refine BTreeMap.sorted_foldl_remove _ ?_
  exact List.pairwise_map.mpr (List.Pairwise.imp (fun hlt => hlt) h)

theorem removeDelayed_delayedKeys (h : q.delayed.Sorted) (k : String) :
    (q.removeDelayed k).delayedKeys = q.delayedKeys.filter (· ≠ k) := by
  let kept : BTreeMap Nat (List String) := q.delayed.map fun e => (e.1, e.2.filter (· ≠ k))
  have hsorted : BTreeMap.Sorted kept :=
    List.pairwise_map.mpr (List.Pairwise.imp (fun hlt => hlt) h)
  have hvalues : values kept = q.delayedKeys.filter (· ≠ k) := by
    simp only [kept, values, delayedKeys, List.flatMap_map, List.filter_flatMap]
  rw [← hvalues]
  refine BTreeMap.values_foldl_remove _ _ fun e he hmem => ?_
  -- the keys are unique, so that the entry is the one that was found empty
  obtain ⟨e', he', hkey⟩ := List.mem_map.mp hmem
  obtain ⟨he', hempty⟩ := List.mem_filter.mp he'
  have hget := hsorted.mem_iff.mp (show (e.1, e.2) ∈ kept from he)
  have hget' := hsorted.mem_iff.mp (show (e'.1, e'.2) ∈ kept from he')
  rw [hkey] at hget'
  rw [Option.some.inj (hget.symm.trans hget')]
  exact List.isEmpty_iff.mp hempty

theorem pushDelayed_delayedKeys (h : q.delayed.Sorted) (k : String) (readyAt : Nat) :
    (q.pushDelayed k readyAt).delayedKeys.Perm (k :: q.delayedKeys) := by
  have hins := BTreeMap.values_perm (h.perm_insert readyAt
    ((q.delayed.get readyAt).getD [] ++ [k]))
  refine hins.trans ?_
  have hrest : (values q.delayed).Perm
      ((q.delayed.get readyAt).getD [] ++ values (BTreeMap.remove readyAt q.delayed)) := by
    cases hget : q.delayed.get readyAt with
    | none => rw [BTreeMap.remove_eq_self hget]; rfl
    | some keys => exact BTreeMap.values_perm (h.perm_cons_remove hget)
  have hmiddle : values ((readyAt, (q.delayed.get readyAt).getD [] ++ [k]) ::
      BTreeMap.remove readyAt q.delayed) =
        (q.delayed.get readyAt).getD [] ++ k :: values (BTreeMap.remove readyAt q.delayed) := by
    simp [values]
  rw [hmiddle]
  exact List.perm_middle.trans (hrest.symm.cons k)

theorem delayedReadyAt_eq_none_iff : q.delayedReadyAt k = none ↔ k ∉ q.delayedKeys := by
  rw [delayedReadyAt, Option.map_eq_none_iff, List.find?_eq_none]
  simp [delayedKeys, values]

/-! ## Requests -/

/-- The key waits now, if it did not before, and nothing else about the keys has changed. -/
structure Enters (q : WorkQueue) (k : String) (q' : WorkQueue) : Prop where
  sorted : q'.delayed.Sorted
  nodup : q'.waiting.Nodup
  mem_waiting : ∀ j, j ∈ q'.waiting ↔ j = k ∨ j ∈ q.waiting
  mem_queued : ∀ j, j ∈ q'.queued ↔ j = k ∨ j ∈ q.queued
  processing : q'.processing = q.processing
  dirty : q'.dirtyWhileProcessing = q.dirtyWhileProcessing

/-- The key is in flight and was marked, or it is not and waits. -/
def Requested (q : WorkQueue) (k : String) (q' : WorkQueue) : Prop :=
  (k ∈ q.processing ∧
      q' = { q with dirtyWhileProcessing := insert k q.dirtyWhileProcessing }) ∨
    k ∉ q.processing ∧ q.Enters k q'

theorem Wf.enters_self (h : q.Wf) (hk : k ∈ q.waiting) : q.Enters k q where
  sorted := h.sorted
  nodup := h.nodup
  mem_waiting _ := ⟨Or.inr, fun hj => hj.elim (fun he => he ▸ hk) id⟩
  mem_queued _ := ⟨Or.inr, fun hj => hj.elim (fun he => he ▸ (h.queued_iff k).mpr hk) id⟩
  processing := rfl
  dirty := rfl

theorem enters_of_perm {rest : List String} (hsorted : q'.delayed.Sorted)
    (hperm : q'.waiting.Perm (k :: rest)) (hnodup : rest.Nodup)
    (hrest : ∀ j, j ∈ rest ↔ j ∈ q.waiting ∧ j ≠ k)
    (hqueued : ∀ j, j ∈ q'.queued ↔ j = k ∨ j ∈ q.queued)
    (hprocessing : q'.processing = q.processing)
    (hdirty : q'.dirtyWhileProcessing = q.dirtyWhileProcessing) : q.Enters k q' where
  sorted := hsorted
  nodup := hperm.nodup_iff.mpr (List.nodup_cons.mpr ⟨fun h => ((hrest k).mp h).2 rfl, hnodup⟩)
  mem_waiting j := by
    rw [hperm.mem_iff, List.mem_cons, hrest]
    by_cases hj : j = k <;> simp [hj]
  mem_queued := hqueued
  processing := hprocessing
  dirty := hdirty

theorem Wf.removeDelayed (h : q.Wf) (hready : k ∉ q.ready) :
    (q.ready ++ (q.removeDelayed k).delayedKeys).Nodup ∧
      ∀ j, j ∈ q.ready ++ (q.removeDelayed k).delayedKeys ↔ j ∈ q.waiting ∧ j ≠ k := by
  rw [removeDelayed_delayedKeys h.sorted]
  constructor
  · exact h.nodup.sublist (List.Sublist.append_left List.filter_sublist _)
  · intro j
    simp only [waiting, List.mem_append, List.mem_filter, decide_eq_true_eq]
    refine ⟨fun hj => ?_, fun ⟨hj, hne⟩ => hj.imp_right fun hd => ⟨hd, hne⟩⟩
    rcases hj with hj | ⟨hj, hne⟩
    · exact ⟨Or.inl hj, fun he => hready (he ▸ hj)⟩
    · exact ⟨Or.inr hj, hne⟩

theorem Wf.not_mem_waiting (hready : k ∉ q.ready) (hdelayed : q.delayedReadyAt k = none) :
    k ∉ q.waiting := by
  rw [waiting, List.mem_append]
  exact not_or.mpr ⟨hready, delayedReadyAt_eq_none_iff.mp hdelayed⟩

theorem mem_insert_removeDelayed (q : WorkQueue) (k j : String) :
    j ∈ insert k (q.removeDelayed k).queued ↔ j = k ∨ j ∈ q.queued := by
  simp only [removeDelayed, Finset.mem_insert, Finset.mem_erase]
  by_cases hj : j = k <;> simp [hj]

theorem Wf.requested_add (h : q.Wf) (k : String) : q.Requested k (q.add k) := by
  unfold add
  split
  next hp => exact Or.inl ⟨hp, rfl⟩
  next hp =>
    refine Or.inr ⟨hp, ?_⟩
    split
    next hready => exact h.enters_self (List.mem_append_left _ (by simpa [readyContains] using hready))
    next hready =>
      replace hready : k ∉ q.ready := by simpa [readyContains] using hready
      have hmiddle : ∀ ks : List String, (q.ready ++ [k] ++ ks).Perm (k :: (q.ready ++ ks)) := by
        intro ks
        rw [List.append_assoc]
        exact List.perm_middle
      dsimp only
      split
      next =>
        obtain ⟨hnodup, hmem⟩ := h.removeDelayed hready
        exact enters_of_perm (removeDelayed_sorted h.sorted k) (hmiddle _) hnodup hmem
          (mem_insert_removeDelayed q k) rfl rfl
      next hd =>
        have hk := Wf.not_mem_waiting hready (by simpa using hd)
        refine enters_of_perm h.sorted (hmiddle q.delayedKeys) h.nodup (fun j => ?_)
          (fun j => Finset.mem_insert) rfl rfl
        exact ⟨fun hj => ⟨hj, fun he => hk (he ▸ hj)⟩, And.left⟩

theorem Wf.requested_addAfter (h : q.Wf) (k : String) (delay now : Nat) :
    q.Requested k (q.addAfter k delay now) := by
  unfold addAfter
  split
  · exact h.requested_add k
  split
  next hp => exact Or.inl ⟨hp, rfl⟩
  next hp =>
    refine Or.inr ⟨hp, ?_⟩
    split
    next hready => exact h.enters_self (List.mem_append_left _ (by simpa [readyContains] using hready))
    next hready =>
      replace hready : k ∉ q.ready := by simpa [readyContains] using hready
      have hmiddle : ∀ {ks ks' : List String}, ks.Perm (k :: ks') →
          (q.ready ++ ks).Perm (k :: (q.ready ++ ks')) :=
        fun hks => (hks.append_left _).trans List.perm_middle
      dsimp only
      split
      next hd =>
        have hk := Wf.not_mem_waiting hready hd
        refine enters_of_perm (h.sorted.insert _ _)
          (hmiddle (pushDelayed_delayedKeys h.sorted k _)) h.nodup (fun j => ?_)
          (fun j => Finset.mem_insert) rfl rfl
        exact ⟨fun hj => ⟨hj, fun he => hk (he ▸ hj)⟩, And.left⟩
      next existing hd =>
        split
        · refine h.enters_self (List.mem_append_right _ ?_)
          by_contra hk
          rw [delayedReadyAt_eq_none_iff.mpr hk] at hd
          cases hd
        · obtain ⟨hnodup, hmem⟩ := h.removeDelayed hready
          have hsorted := removeDelayed_sorted h.sorted k
          exact enters_of_perm (hsorted.insert _ _)
            (hmiddle (pushDelayed_delayedKeys hsorted k _)) hnodup hmem
            (mem_insert_removeDelayed q k) rfl rfl

theorem Requested.wf (h : q.Wf) (hr : q.Requested k q') : q'.Wf := by
  rcases hr with ⟨hp, rfl⟩ | ⟨hp, he⟩
  · refine ⟨h.sorted, h.nodup, h.queued_iff, h.idle, fun j hj => ?_⟩
    rcases Finset.mem_insert.mp hj with rfl | hj
    · exact hp
    · exact h.dirty j hj
  · refine ⟨he.sorted, he.nodup, fun j => ?_, fun j hj => ?_, fun j hj => ?_⟩
    · rw [he.mem_queued, he.mem_waiting, h.queued_iff]
    · rw [he.processing]
      rcases (he.mem_waiting j).mp hj with rfl | hj
      · exact hp
      · exact h.idle j hj
    · rw [he.processing]
      exact h.dirty j (he.dirty ▸ hj)

theorem Requested.processing_eq (hr : q.Requested k q') : q'.processing = q.processing := by
  rcases hr with ⟨-, rfl⟩ | ⟨-, he⟩
  · rfl
  · exact he.processing

theorem Requested.pending (hr : q.Requested k q') : q'.Pending k := by
  rw [pending_iff]
  rcases hr with ⟨hp, rfl⟩ | ⟨-, he⟩
  · exact Or.inr ⟨hp, Finset.mem_insert_self _ _⟩
  · exact Or.inl ((he.mem_waiting k).mpr (Or.inl rfl))

theorem Requested.pending_of (hr : q.Requested k q') {j : String} (hj : q.Pending j) :
    q'.Pending j := by
  rw [pending_iff] at hj ⊢
  rcases hr with ⟨-, rfl⟩ | ⟨-, he⟩
  · exact hj.imp_right fun h => ⟨h.1, Finset.mem_insert_of_mem h.2⟩
  · rw [he.processing, he.dirty]
    exact hj.imp_left fun h => (he.mem_waiting j).mpr (Or.inr h)

/-! ## Handing out -/

/-- Keys moved from the delayed to the ready ones. -/
structure Moved (q q' : WorkQueue) : Prop where
  sorted : q'.delayed.Sorted
  perm : q'.waiting.Perm q.waiting
  queued : q'.queued = q.queued
  processing : q'.processing = q.processing
  dirty : q'.dirtyWhileProcessing = q.dirtyWhileProcessing

theorem Wf.moved (h : q.Wf) (hm : q.Moved q') : q'.Wf where
  sorted := hm.sorted
  nodup := hm.perm.nodup_iff.mpr h.nodup
  queued_iff k := by rw [hm.queued, hm.perm.mem_iff, h.queued_iff]
  idle k hk := by
    rw [hm.processing]
    exact h.idle k (hm.perm.mem_iff.mp hk)
  dirty k hk := by
    rw [hm.processing]
    exact h.dirty k (hm.dirty ▸ hk)

theorem foldl_promote (keys : List String) (q : WorkQueue) (hqueued : ∀ k ∈ keys, k ∈ q.queued)
    (hnodup : (q.ready ++ keys).Nodup) :
    keys.foldl promote q = { q with ready := q.ready ++ keys } := by
  induction keys generalizing q with
  | nil => simp
  | cons k keys ih =>
    have hready : k ∉ q.ready := fun hk =>
      (List.nodup_append.mp hnodup).2.2 k hk k List.mem_cons_self rfl
    have hpromote : q.promote k = { q with ready := q.ready ++ [k] } := by
      rw [promote, if_pos ⟨hqueued k List.mem_cons_self, by simpa [readyContains] using hready⟩]
    rw [List.foldl_cons, hpromote, ih]
    · simp
    · exact fun j hj => hqueued j (List.mem_cons_of_mem _ hj)
    · simpa using hnodup

theorem Wf.flushBucket_moved (h : q.Wf) (at_ : Nat) : q.Moved (q.flushBucket at_) := by
  unfold flushBucket
  split
  · exact ⟨h.sorted, .refl _, rfl, rfl, rfl⟩
  next keys hget =>
    have hsplit : q.delayedKeys.Perm (keys ++ values (q.delayed.remove at_)) :=
      BTreeMap.values_perm (h.sorted.perm_cons_remove hget)
    have hwaiting : q.waiting.Perm (q.ready ++ keys ++ values (q.delayed.remove at_)) := by
      rw [List.append_assoc]
      exact hsplit.append_left _
    have hkeys : ∀ k ∈ keys, k ∈ q.queued := fun k hk =>
      (h.queued_iff k).mpr (hwaiting.mem_iff.mpr (by simp [hk]))
    have hnodup : (q.ready ++ keys).Nodup :=
      (List.nodup_append.mp (hwaiting.nodup_iff.mp h.nodup)).1
    rw [foldl_promote keys { q with delayed := q.delayed.remove at_ } hkeys hnodup]
    exact ⟨h.sorted.remove at_, hwaiting.symm, rfl, rfl, rfl⟩

theorem Wf.flushDue_moved (h : q.Wf) (now : Nat) : q.Moved (q.flushDue now) := by
  have hfold : ∀ (ats : List Nat) (q₀ : WorkQueue), q₀.Wf → q.Moved q₀ →
      q.Moved (ats.foldl flushBucket q₀) := by
    intro ats
    induction ats with
    | nil => exact fun q₀ _ hm => hm
    | cons at_ ats ih =>
      intro q₀ h₀ hm
      have hb := h₀.flushBucket_moved at_
      exact ih _ (h₀.moved hb) ⟨hb.sorted, hb.perm.trans hm.perm, hb.queued.trans hm.queued,
        hb.processing.trans hm.processing, hb.dirty.trans hm.dirty⟩
  exact hfold _ q h ⟨h.sorted, .refl _, rfl, rfl, rfl⟩

theorem Wf.get_cases (h : q.Wf) (now : Nat) :
    (∃ q', q.get now = (q', none) ∧ q.Moved q') ∨
      ∃ q' k, q.get now = (q', some k) ∧ k ∈ q.waiting ∧ q'.Wf ∧
        q'.processing = insert k q.processing ∧
        q'.dirtyWhileProcessing = q.dirtyWhileProcessing ∧
        ∀ j, j ∈ q'.waiting ↔ j ∈ q.waiting ∧ j ≠ k := by
  have hm := h.flushDue_moved now
  have hwf := h.moved hm
  cases hready : (q.flushDue now).ready with
  | nil => exact Or.inl ⟨q.flushDue now, by rw [get]; simp [hready], hm⟩
  | cons k ready =>
    let next : WorkQueue :=
      { q.flushDue now with
        ready, queued := (q.flushDue now).queued.erase k,
        processing := insert k (q.flushDue now).processing }
    have hget : q.get now = (next, some k) := by
      rw [get]
      simp [hready, next]
    have hwaiting : (q.flushDue now).waiting = k :: next.waiting := by
      rw [waiting, hready]
      rfl
    have hnodup := hwaiting ▸ hwf.nodup
    have hk : k ∉ next.waiting := (List.nodup_cons.mp hnodup).1
    have hmem : ∀ j, j ∈ next.waiting ↔ j ∈ q.waiting ∧ j ≠ k := by
      intro j
      rw [← hm.perm.mem_iff, hwaiting, List.mem_cons]
      refine ⟨fun hj => ⟨Or.inr hj, fun he => hk (he ▸ hj)⟩, fun hj => hj.1.resolve_left hj.2⟩
    refine Or.inr ⟨next, k, hget, ?_, ?_, ?_, hm.dirty, hmem⟩
    · exact hm.perm.mem_iff.mp (hwaiting ▸ List.mem_cons_self)
    · refine ⟨hwf.sorted, (List.nodup_cons.mp hnodup).2, fun j => ?_, fun j hj => ?_, fun j hj => ?_⟩
      · rw [Finset.mem_erase, hwf.queued_iff, hm.perm.mem_iff, hmem, and_comm]
      · rw [Finset.mem_insert, not_or, hm.processing]
        exact ⟨((hmem j).mp hj).2, h.idle j ((hmem j).mp hj).1⟩
      · exact Finset.mem_insert_of_mem (hwf.dirty j hj)
    · exact congrArg (insert k) hm.processing

/-! ## Done -/

/-- The key is no longer in flight, and what was pending still is. -/
structure Finishes (q : WorkQueue) (k : String) (q' : WorkQueue) : Prop where
  wf : q'.Wf
  processing : q'.processing = q.processing.erase k
  pending_of : ∀ j, q.Pending j → q'.Pending j

theorem Wf.finishes_done (h : q.Wf) (k : String) : q.Finishes k (q.done k) := by
  have hidle : ∀ j ∈ q.waiting, j ∉ q.processing.erase k := fun j hj hmem =>
    h.idle j hj (Finset.mem_of_mem_erase hmem)
  unfold done
  dsimp only
  split
  next hdirty =>
    have hwf : Wf { q with
        processing := q.processing.erase k
        dirtyWhileProcessing := q.dirtyWhileProcessing.erase k } := by
      refine ⟨h.sorted, h.nodup, h.queued_iff, hidle, fun j hj => ?_⟩
      obtain ⟨hne, hj⟩ := Finset.mem_erase.mp hj
      exact Finset.mem_erase.mpr ⟨hne, h.dirty j hj⟩
    have hr := hwf.requested_add k
    refine ⟨hr.wf hwf, hr.processing_eq, fun j hj => ?_⟩
    by_cases hjk : j = k
    · exact hjk ▸ hr.pending
    · refine hr.pending_of (pending_iff.mpr ((pending_iff.mp hj).imp_right fun hp => ?_))
      exact ⟨Finset.mem_erase.mpr ⟨hjk, hp.1⟩, Finset.mem_erase.mpr ⟨hjk, hp.2⟩⟩
  next hdirty =>
    have hne : ∀ j ∈ q.dirtyWhileProcessing, j ≠ k := fun j hj he => hdirty (he ▸ hj)
    refine ⟨⟨h.sorted, h.nodup, h.queued_iff, hidle, fun j hj => ?_⟩, rfl, fun j hj => ?_⟩
    · exact Finset.mem_erase.mpr ⟨hne j hj, h.dirty j hj⟩
    · refine pending_iff.mpr ((pending_iff.mp hj).imp_right fun hp => ?_)
      exact ⟨Finset.mem_erase.mpr ⟨hne j hp.2, hp.1⟩, hp.2⟩

theorem Wf.withFailures (h : q.Wf) (failures : Dict String Nat) : Wf { q with failures } :=
  ⟨h.sorted, h.nodup, h.queued_iff, h.idle, h.dirty⟩

theorem Wf.addRateLimited_cases (h : q.Wf) (k : String) (now : Nat) :
    (∃ failures n, q.addRateLimited k now = ({ q with failures }, .dropped n)) ∨
      ∃ failures n delay q', q.addRateLimited k now = (q', .requeued n delay) ∧
        Requested { q with failures } k q' := by
  unfold addRateLimited
  dsimp only
  split
  · exact Or.inl ⟨_, _, rfl⟩
  · exact Or.inr ⟨_, _, _, _, rfl, (h.withFailures _).requested_addAfter k _ now⟩

/-! ## Runs -/

inductive Call
  | add (key : String)
  | addAfter (key : String) (delay now : Nat)
  | addRateLimited (key : String) (now : Nat)
  | get (now : Nat)
  | done (key : String)
  | forget (key : String)
  | applyOutcome (key : String) (outcome : Outcome) (now : Nat)

inductive Reply
  | none
  | added (outcome : AddOutcome)
  | got (key : Option String)
  | applied (action : LoopAction)

def call (q : WorkQueue) : Call → WorkQueue × Reply
  | .add key => (q.add key, .none)
  | .addAfter key delay now => (q.addAfter key delay now, .none)
  | .addRateLimited key now => (q.addRateLimited key now).map id .added
  | .get now => (q.get now).map id .got
  | .done key => (q.done key, .none)
  | .forget key => (q.forget key, .none)
  | .applyOutcome key outcome now => (applyOutcome q key outcome now).map id .applied

/-- The state after the calls, and what they replied. -/
def run (q : WorkQueue) : List Call → WorkQueue × List (Call × Reply)
  | [] => (q, [])
  | c :: calls =>
    let next := run (q.call c).1 calls
    (next.1, (c, (q.call c).2) :: next.2)

/-- The call asked for the key to be processed, and was not told that the key is dropped. -/
def Accepts : Call → Reply → String → Prop
  | .add key, _, k => k = key
  | .addAfter key _ _, _, k => k = key
  | .addRateLimited key _, .added (.requeued _ _), k => k = key
  | .applyOutcome key _ _, .applied .requeued, k => k = key
  | .applyOutcome key _ _, .applied (.requeuedAfter _), k => k = key
  | .applyOutcome key _ _, .applied (.rateLimited _ _), k => k = key
  | _, _, _ => False

def track (flight : Finset String) : Call × Reply → Finset String
  | (_, .got (some key)) => insert key flight
  | (.done key, _) => flight.erase key
  | (.applyOutcome key _ _, _) => flight.erase key
  | _ => flight

/-- The keys that were handed out and have not been reported as done since. -/
def inFlight (history : List (Call × Reply)) : Finset String := history.foldl track ∅

/-- What every call does to the keys. -/
structure Obeys (q : WorkQueue) (c : Call) (q' : WorkQueue) (r : Reply) : Prop where
  wf : q'.Wf
  processing : q'.processing = track q.processing (c, r)
  pending_of : ∀ j, q.Pending j → r ≠ .got (some j) → q'.Pending j
  accepted : ∀ j, Accepts c r j → q'.Pending j

theorem Requested.obeys (h : q.Wf) {c : Call} {r : Reply} (hr : q.Requested k q')
    (htrack : track q.processing (c, r) = q.processing) (hc : ∀ j, Accepts c r j → j = k) :
    q.Obeys c q' r where
  wf := hr.wf h
  processing := hr.processing_eq.trans htrack.symm
  pending_of _ hj _ := hr.pending_of hj
  accepted j hj := hc j hj ▸ hr.pending

theorem Finishes.obeys {c : Call} {r : Reply} {q₁ : WorkQueue} (hf : q.Finishes k q₁)
    (hr : q₁.Requested k q') (htrack : track q.processing (c, r) = q.processing.erase k)
    (hc : ∀ j, Accepts c r j → j = k) : q.Obeys c q' r where
  wf := hr.wf hf.wf
  processing := (hr.processing_eq.trans hf.processing).trans htrack.symm
  pending_of j hj _ := hr.pending_of (hf.pending_of j hj)
  accepted j hj := hc j hj ▸ hr.pending

theorem Wf.obeys_get (h : q.Wf) (now : Nat) :
    q.Obeys (.get now) (q.get now).1 (.got (q.get now).2) := by
  rcases h.get_cases now with ⟨q', hget, hm⟩ | ⟨q', k, hget, -, hwf, hprocessing, hdirty, hmem⟩
  · rw [hget]
    refine ⟨h.moved hm, hm.processing, fun j hj _ => ?_, fun j hj => hj.elim⟩
    rw [pending_iff] at hj ⊢
    rwa [hm.perm.mem_iff, hm.processing, hm.dirty]
  · rw [hget]
    refine ⟨hwf, hprocessing, fun j hj hne => ?_, fun j hj => hj.elim⟩
    rw [pending_iff] at hj ⊢
    rw [hmem, hprocessing, hdirty]
    refine hj.imp (fun hw => ⟨hw, ?_⟩) fun hp => ⟨Finset.mem_insert_of_mem hp.1, hp.2⟩
    rintro rfl
    exact hne rfl

theorem Wf.obeys_applyOutcome (h : q.Wf) (key : String) (outcome : Outcome) (now : Nat) :
    q.Obeys (.applyOutcome key outcome now) (applyOutcome q key outcome now).1
      (.applied (applyOutcome q key outcome now).2) := by
  -- forgetting the failures changes no key
  have hforget : q.Finishes key ((q.forget key).done key) :=
    let hf := (h.withFailures (q.failures.erase key)).finishes_done key
    ⟨hf.wf, hf.processing, hf.pending_of⟩
  cases outcome with
  | done => exact ⟨hforget.wf, hforget.processing, fun j hj _ => hforget.pending_of j hj,
      fun j hj => hj.elim⟩
  | requeue => exact hforget.obeys (hforget.wf.requested_add key) rfl fun j hj => hj
  | requeueAfter delay =>
    exact hforget.obeys (hforget.wf.requested_addAfter key delay now) rfl fun j hj => hj
  | err message =>
    have hf := h.finishes_done key
    rw [applyOutcome]
    rcases hf.wf.addRateLimited_cases key now with ⟨failures, n, hadd⟩ |
      ⟨failures, n, delay, q', hadd, hr⟩
    · rw [hadd]
      exact ⟨hf.wf.withFailures failures, hf.processing, fun j hj _ => hf.pending_of j hj,
        fun j hj => hj.elim⟩
    · rw [hadd]
      have hf' : q.Finishes key { q.done key with failures } :=
        ⟨hf.wf.withFailures failures, hf.processing, hf.pending_of⟩
      exact hf'.obeys hr rfl fun j hj => hj

theorem Wf.obeys (h : q.Wf) (c : Call) : q.Obeys c (q.call c).1 (q.call c).2 := by
  cases c with
  | add key => exact (h.requested_add key).obeys h rfl fun j hj => hj
  | addAfter key delay now => exact (h.requested_addAfter key delay now).obeys h rfl fun j hj => hj
  | addRateLimited key now =>
    rw [call]
    rcases h.addRateLimited_cases key now with ⟨failures, n, hadd⟩ | ⟨failures, n, delay, q', hadd, hr⟩
    · rw [hadd]
      exact ⟨h.withFailures failures, rfl, fun j hj _ => hj, fun j hj => hj.elim⟩
    · rw [hadd]
      have ho := hr.obeys (h.withFailures failures) (c := .addRateLimited key now)
        (r := .added (.requeued n delay)) rfl fun j hj => hj
      exact ⟨ho.wf, ho.processing, ho.pending_of, ho.accepted⟩
  | get now => exact h.obeys_get now
  | done key =>
    have hf := h.finishes_done key
    exact ⟨hf.wf, hf.processing, fun j hj _ => hf.pending_of j hj, fun j hj => hj.elim⟩
  | forget key => exact ⟨h.withFailures _, rfl, fun j hj _ => hj, fun j hj => hj.elim⟩
  | applyOutcome key outcome now => exact h.obeys_applyOutcome key outcome now

theorem Wf.run (h : q.Wf) (calls : List Call) : (q.run calls).1.Wf := by
  induction calls generalizing q with
  | nil => exact h
  | cons c calls ih => exact ih (h.obeys c).wf

theorem Wf.run_processing (h : q.Wf) (calls : List Call) :
    (q.run calls).1.processing = (q.run calls).2.foldl track q.processing := by
  induction calls generalizing q with
  | nil => rfl
  | cons c calls ih =>
    have hstep := h.obeys c
    exact (ih hstep.wf).trans (by rw [hstep.processing]; rfl)

theorem Wf.run_pending (h : q.Wf) (calls : List Call) (hk : q.Pending k)
    (hgot : ∀ e ∈ (q.run calls).2, e.2 ≠ .got (some k)) : (q.run calls).1.Pending k := by
  induction calls generalizing q with
  | nil => exact hk
  | cons c calls ih =>
    refine ih (h.obeys c).wf ((h.obeys c).pending_of k hk ?_) fun e he => ?_
    · exact hgot _ List.mem_cons_self
    · exact hgot e (List.mem_cons_of_mem _ he)

theorem run_append (q : WorkQueue) (calls more : List Call) :
    (q.run (calls ++ more)).1 = ((q.run calls).1.run more).1 := by
  induction calls generalizing q with
  | nil => rfl
  | cons c calls ih => exact ih _

/-- For every run of a new queue: a key is not handed out while it is in flight; every key waits at
most once, and `queued` is the set of those that do; and a key whose request was accepted is
pending until a later call hands it out. -/
theorem run_discipline (cfg : RateLimitConfig) (calls : List Call) :
    let q := (WorkQueue.run { cfg } calls).1
    let flight := inFlight (WorkQueue.run { cfg } calls).2
    (∀ now k, (q.get now).2 = some k → k ∉ flight) ∧
      (q.ready ++ q.delayedKeys).Nodup ∧
      (∀ k, k ∈ q.queued ↔ k ∈ q.ready ∨ k ∈ q.delayedKeys) ∧
      ∀ before c after k, calls = before ++ c :: after →
        let asked := (WorkQueue.run { cfg } before).1.call c
        Accepts c asked.2 k → (∀ e ∈ (asked.1.run after).2, e.2 ≠ .got (some k)) →
          k ∈ q.ready ∨ k ∈ q.delayedKeys ∨ (k ∈ flight ∧ k ∈ q.dirtyWhileProcessing) := by
  intro q flight
  have hwf : q.Wf := (wf_new cfg).run calls
  have hflight : q.processing = flight := (wf_new cfg).run_processing calls
  refine ⟨fun now k hk => ?_, hwf.nodup, fun k => ?_, ?_⟩
  · rcases hwf.get_cases now with ⟨q', hget, -⟩ | ⟨q', k', hget, hmem, -⟩
    · rw [hget] at hk
      cases hk
    · rw [hget] at hk
      obtain rfl := Option.some.inj hk
      exact hflight ▸ hwf.idle k' hmem
  · exact (hwf.queued_iff k).trans List.mem_append
  · intro before c after k hcalls asked hk hgot
    rw [← hflight]
    have hstep := ((wf_new cfg).run before).obeys c
    have hq : q = (asked.1.run after).1 := by
      have happend := run_append { cfg } before (c :: after)
      rw [← hcalls] at happend
      exact happend
    rw [hq]
    exact hstep.wf.run_pending after (hstep.accepted k hk) hgot

end WorkQueue

end CaveHome.ControllerManager
