import CaveHome.Scheduler.Cache

/-!
# The scheduling queue

Pods to schedule wait in three places: ready ones in `active`, ones that failed and have to wait a
while in `backoff`, and ones that wait for the cluster to change in `unschedulable`.
-/

namespace CaveHome.Scheduler

/-! ## Cluster events -/

/-- A mask of what happened to a resource. -/
structure ActionType where
  bits : UInt64
  deriving DecidableEq

namespace ActionType

def add : ActionType := ⟨1⟩

def delete : ActionType := ⟨2⟩

def all : ActionType := ⟨0xFFFFFFFFFFFFFFFF⟩

/-- Do the masks share an action? -/
def intersects (a b : ActionType) : Bool := a.bits &&& b.bits != 0

end ActionType

/-- The kind of resource. -/
inductive Gvk
  | pod
  | node
  | wildCard
  deriving DecidableEq

structure ClusterEvent where
  resource : Gvk
  actionType : ActionType
  deriving DecidableEq

/-- Is the registered event `e` satisfied by the one that occurred? -/
def ClusterEvent.matches (e occurred : ClusterEvent) : Bool :=
  (e.resource == .wildCard || occurred.resource == .wildCard || e.resource == occurred.resource) &&
    e.actionType.intersects occurred.actionType

def wildCardEvent : ClusterEvent := ⟨.wildCard, .all⟩

/-! ## Queued pods -/

structure QueuedPodInfo where
  pod : Pod
  attempts : Nat := 0
  initialAttemptMs : Nat := 0
  lastAttemptMs : Nat := 0
  /-- When the pod became unschedulable. -/
  unschedulableSinceMs : Nat := 0
  /-- The events that make the pod worth another attempt. -/
  registeredEvents : List ClusterEvent := [wildCardEvent]

namespace QueuedPodInfo

def uid (info : QueuedPodInfo) : String := info.pod.uid

/-- When the wait after the last attempt is over.  The wait doubles with each attempt, from one
second up to ten. -/
def readyAtMs (info : QueuedPodInfo) : Nat :=
  if info.attempts = 0 then 0
  else
    let shift := min (info.attempts - 1) 20
    let backoff := min (1000 * 2 ^ shift) 10000
    min (info.lastAttemptMs + backoff) 18446744073709551615

def isBackingOff (info : QueuedPodInfo) (nowMs : Nat) : Bool := decide (nowMs < info.readyAtMs)

/-- The pod after another attempt. -/
def attempted (info : QueuedPodInfo) (nowMs : Nat) : QueuedPodInfo :=
  { info with attempts := info.attempts + 1, lastAttemptMs := nowMs }

def matchesEvent (info : QueuedPodInfo) (occurred : ClusterEvent) : Bool :=
  info.registeredEvents.any (·.matches occurred)

end QueuedPodInfo

/-- A pod on the heap, with the number of its arrival. -/
structure HeapEntry where
  seq : Nat
  info : QueuedPodInfo

/-- The greater entry is popped first: the one whose pod `less` puts first, or else the earlier
one. -/
def HeapEntry.cmp (less : Pod → Pod → Bool) (a b : HeapEntry) : Ordering :=
  if less a.info.pod b.info.pod then .gt
  else if less b.info.pod a.info.pod then .lt
  else compare b.seq a.seq

/-- Pods of a higher priority come first. -/
def prioritySort (a b : Pod) : Bool := decide (b.spec.priority < a.spec.priority)

/-! ## The queue -/

structure PriorityQueue where
  active : List HeapEntry := []
  backoff : List QueuedPodInfo := []
  unschedulable : Dict String QueuedPodInfo := ∅
  seq : Nat := 0
  /-- The number of calls to `pop`. -/
  schedulingCycle : Nat := 0
  /-- The cycle of the last move, if there was one. -/
  moveRequestCycle : Option Nat := none

def unschedulableLeftoverMs : Nat := 60000

/-- Take the greatest entry off the heap. -/
def takeTop (less : Pod → Pod → Bool) : List HeapEntry → Option (HeapEntry × List HeapEntry)
  | [] => none
  | e :: es =>
    match takeTop less es with
    | none => some (e, [])
    | some (best, rest) =>
      if e.cmp less best = .gt then some (e, best :: rest) else some (best, e :: rest)

namespace PriorityQueue

variable (less : Pod → Pod → Bool)

def pushActive (q : PriorityQueue) (info : QueuedPodInfo) : PriorityQueue :=
  { q with seq := q.seq + 1, active := q.active ++ [⟨q.seq + 1, info⟩] }

def add (q : PriorityQueue) (pod : Pod) : PriorityQueue := q.pushActive { pod }

def pop (q : PriorityQueue) : PriorityQueue × Option QueuedPodInfo :=
  let q := { q with schedulingCycle := q.schedulingCycle + 1 }
  match takeTop less q.active with
  | none => (q, none)
  | some (top, rest) => ({ q with active := rest }, some top.info)

def addUnschedulable (q : PriorityQueue) (pod : QueuedPodInfo) : PriorityQueue :=
  { q with backoff := q.backoff ++ [{ pod with attempts := pod.attempts + 1 }] }

/-- Park a pod that could not be scheduled in the given cycle. -/
def addUnschedulableIfNotPresent (q : PriorityQueue) (info : QueuedPodInfo)
    (podSchedulingCycle nowMs : Nat) : PriorityQueue :=
  let key := info.uid
  let info := info.attempted nowMs
  if (q.unschedulable.lookup key).isSome then q
  else if q.moveRequestCycle.any (podSchedulingCycle ≤ ·) then
    { q with backoff := q.backoff ++ [info] }
  else
    { q with unschedulable := q.unschedulable.insert key { info with unschedulableSinceMs := nowMs } }

theorem addUnschedulableIfNotPresent_cases (q : PriorityQueue) (info : QueuedPodInfo)
    (cycle nowMs : Nat) :
    (∃ parked, q.unschedulable.lookup info.uid = some parked ∧
      q.addUnschedulableIfNotPresent info cycle nowMs = q) ∨
    (q.unschedulable.lookup info.uid = none ∧
      ((∃ moved, q.moveRequestCycle = some moved ∧ cycle ≤ moved) ∧
        q.addUnschedulableIfNotPresent info cycle nowMs =
          { q with backoff := q.backoff ++ [info.attempted nowMs] } ∨
      (∀ moved, q.moveRequestCycle = some moved → moved < cycle) ∧
        q.addUnschedulableIfNotPresent info cycle nowMs =
          { q with unschedulable := q.unschedulable.insert info.uid
                    { info.attempted nowMs with unschedulableSinceMs := nowMs } })) := by
  simp only [addUnschedulableIfNotPresent]
  cases hparked : q.unschedulable.lookup info.uid with
  | some parked => exact .inl ⟨parked, rfl, if_pos rfl⟩
  | none =>
    refine .inr ⟨rfl, ?_⟩
    simp only [Option.isSome_none, Bool.false_eq_true, if_false]
    cases hmoved : q.moveRequestCycle with
    | none =>
      refine .inr ⟨?_, if_neg Bool.false_ne_true⟩
      intro m hm
      cases hm
    | some moved =>
      by_cases hcycle : cycle ≤ moved
      · exact .inl ⟨⟨moved, rfl, hcycle⟩, if_pos (by simpa using hcycle)⟩
      · refine .inr ⟨?_, if_neg (by simpa using hcycle)⟩
        intro m hm
        obtain rfl := Option.some.inj hm
        omega

/-- Take a pod out of the unschedulable ones, if it is there. -/
def reactivate (nowMs : Nat) (q : PriorityQueue) (key : String) : PriorityQueue :=
  match q.unschedulable.lookup key with
  | none => q
  | some info =>
    let q := { q with unschedulable := q.unschedulable.erase key }
    if info.isBackingOff nowMs then { q with backoff := q.backoff ++ [info] }
    else q.pushActive info

/-- The unschedulable pods that satisfy a test. -/
def keysWhere (q : PriorityQueue) (test : QueuedPodInfo → Bool) : List String :=
  (q.unschedulable.entries.filter fun e => test e.2).map (·.1)

/-- Something happened in the cluster: the pods that registered for it get another attempt. -/
def moveAllToActiveOrBackoffQueue (q : PriorityQueue) (event : ClusterEvent) (nowMs : Nat) :
    PriorityQueue :=
  let q := (q.keysWhere (·.matchesEvent event)).foldl (reactivate nowMs) q
  { q with moveRequestCycle := some q.schedulingCycle }

/-- Pods that have been unschedulable for long get another attempt. -/
def flushUnschedulablePodsLeftover (q : PriorityQueue) (nowMs : Nat) : PriorityQueue :=
  (q.keysWhere fun info => unschedulableLeftoverMs ≤ nowMs - info.unschedulableSinceMs).foldl
    (reactivate nowMs) q

/-- Pods whose wait is over become active. -/
def flushBackoff (q : PriorityQueue) (nowMs : Nat) : PriorityQueue :=
  let (due, still) := q.backoff.partition fun info => info.readyAtMs ≤ nowMs
  due.foldl pushActive { q with backoff := still }

/-- A call to the queue. -/
inductive Op
  | add (pod : Pod)
  | pop
  | addUnschedulable (info : QueuedPodInfo)
  | addUnschedulableIfNotPresent (info : QueuedPodInfo) (podSchedulingCycle nowMs : Nat)
  | moveAll (event : ClusterEvent) (nowMs : Nat)
  | flushBackoff (nowMs : Nat)
  | flushLeftover (nowMs : Nat)

def step (q : PriorityQueue) : Op → PriorityQueue
  | .add pod => q.add pod
  | .pop => (q.pop less).1
  | .addUnschedulable info => q.addUnschedulable info
  | .addUnschedulableIfNotPresent info cycle nowMs => q.addUnschedulableIfNotPresent info cycle nowMs
  | .moveAll event nowMs => q.moveAllToActiveOrBackoffQueue event nowMs
  | .flushBackoff nowMs => q.flushBackoff nowMs
  | .flushLeftover nowMs => q.flushUnschedulablePodsLeftover nowMs

/-- The calls made since `start`, each satisfying `cond`.  Between calls the map of unschedulable
pods may take another order. -/
inductive Run (cond : PriorityQueue → Op → Prop) (start : PriorityQueue) :
    List Op → PriorityQueue → Prop
  | start : Run cond start [] start
  | call {ops : List Op} {q : PriorityQueue} (hrun : Run cond start ops q) (op : Op)
      (hcond : cond q op) : Run cond start (ops ++ [op]) (q.step less op)
  | reorder {ops : List Op} {q : PriorityQueue} {unschedulable : Dict String QueuedPodInfo}
      (hrun : Run cond start ops q) (horder : Dict.Reordered q.unschedulable unschedulable) :
      Run cond start ops { q with unschedulable }

end PriorityQueue

/-!
## No missed wake-up

A move remembers the cycle it happened in.  A pod that was taken before a move and could not be
scheduled must not wait for the next move: its cycle is not later than that of the move, however
the other calls fall.
-/

namespace PriorityQueue

variable {less : Pod → Pod → Bool} {cond : PriorityQueue → Op → Prop} {start q : PriorityQueue}
  {ops : List Op} {cycle : Nat}

theorem reactivate_lookup (q : PriorityQueue) (nowMs : Nat) (key uid : String) :
    (q.reactivate nowMs key).unschedulable.lookup uid =
      if uid = key then none else q.unschedulable.lookup uid := by
  have herase : (q.unschedulable.erase key).lookup uid =
      if uid = key then none else q.unschedulable.lookup uid := by
    split
    next h => rw [h, AList.lookup_erase]
    next h => exact AList.lookup_erase_ne h
  unfold reactivate
  split
  next hnone =>
    split
    next h => rw [h, hnone]
    · rfl
  · dsimp only
    split <;> exact herase

theorem foldl_reactivate_lookup (q : PriorityQueue) (nowMs : Nat) (keys : List String)
    (uid : String) :
    (keys.foldl (reactivate nowMs) q).unschedulable.lookup uid =
      if uid ∈ keys then none else q.unschedulable.lookup uid := by
  induction keys generalizing q with
  | nil => rfl
  | cons key keys ih =>
    rw [List.foldl_cons, ih, reactivate_lookup]
    by_cases hkey : uid = key <;> by_cases hkeys : uid ∈ keys <;> simp [hkey, hkeys]

theorem moveAll_none_left (q : PriorityQueue) (event : ClusterEvent) (nowMs : Nat) :
    Dict.All (fun _ info => ¬ info.matchesEvent event)
      (q.moveAllToActiveOrBackoffQueue event nowMs).unschedulable := by
  intro uid info hinfo hmatch
  have hlookup : _ = some info := hinfo
  rw [moveAllToActiveOrBackoffQueue, foldl_reactivate_lookup] at hlookup
  split at hlookup
  · cases hlookup
  next habsent =>
    apply habsent
    rw [keysWhere, List.mem_map]
    refine ⟨⟨uid, info⟩, List.mem_filter.mpr ⟨?_, hmatch⟩, rfl⟩
    exact Dict.mem_entries_iff.mpr hlookup

/-! ## The two counters -/

theorem reactivate_cycles (q : PriorityQueue) (nowMs : Nat) (key : String) :
    (q.reactivate nowMs key).schedulingCycle = q.schedulingCycle ∧
      (q.reactivate nowMs key).moveRequestCycle = q.moveRequestCycle := by
  unfold reactivate
  split
  · exact ⟨rfl, rfl⟩
  · dsimp only
    split <;> exact ⟨rfl, rfl⟩

theorem foldl_reactivate_cycles (q : PriorityQueue) (nowMs : Nat) (keys : List String) :
    (keys.foldl (reactivate nowMs) q).schedulingCycle = q.schedulingCycle ∧
      (keys.foldl (reactivate nowMs) q).moveRequestCycle = q.moveRequestCycle := by
  induction keys generalizing q with
  | nil => exact ⟨rfl, rfl⟩
  | cons key keys ih =>
    have hkey := reactivate_cycles q nowMs key
    have hkeys := ih (q.reactivate nowMs key)
    exact ⟨hkeys.1.trans hkey.1, hkeys.2.trans hkey.2⟩

theorem foldl_pushActive_cycles (q : PriorityQueue) (infos : List QueuedPodInfo) :
    (infos.foldl pushActive q).schedulingCycle = q.schedulingCycle ∧
      (infos.foldl pushActive q).moveRequestCycle = q.moveRequestCycle := by
  induction infos generalizing q with
  | nil => exact ⟨rfl, rfl⟩
  | cons info infos ih => exact ih (q.pushActive info)

/-- Is the call a move? -/
def Op.IsMove : Op → Prop
  | .moveAll .. => True
  | _ => False

theorem step_cycles (less : Pod → Pod → Bool) (q : PriorityQueue) (op : Op) :
    (op = .pop ∧ (q.step less op).schedulingCycle = q.schedulingCycle + 1 ∧
      (q.step less op).moveRequestCycle = q.moveRequestCycle) ∨
    (op ≠ .pop ∧ (q.step less op).schedulingCycle = q.schedulingCycle ∧
      (op.IsMove ∧ (q.step less op).moveRequestCycle = some q.schedulingCycle ∨
        ¬ op.IsMove ∧ (q.step less op).moveRequestCycle = q.moveRequestCycle)) := by
  cases op with
  | pop =>
    refine .inl ⟨rfl, ?_⟩
    rw [step, pop]
    dsimp only
    split <;> exact ⟨rfl, rfl⟩
  | add pod => exact .inr ⟨Op.noConfusion, rfl, .inr ⟨id, rfl⟩⟩
  | addUnschedulable info => exact .inr ⟨Op.noConfusion, rfl, .inr ⟨id, rfl⟩⟩
  | addUnschedulableIfNotPresent info podCycle nowMs =>
    refine .inr ⟨Op.noConfusion, ?_⟩
    rw [step]
    obtain ⟨-, -, heq⟩ | ⟨-, ⟨-, heq⟩ | ⟨-, heq⟩⟩ :=
      q.addUnschedulableIfNotPresent_cases info podCycle nowMs
    all_goals
      rw [heq]
      exact ⟨rfl, .inr ⟨id, rfl⟩⟩
  | moveAll event nowMs =>
    obtain ⟨hcycle, -⟩ := foldl_reactivate_cycles q nowMs (q.keysWhere (·.matchesEvent event))
    exact .inr ⟨Op.noConfusion, hcycle, .inl ⟨trivial, congrArg some hcycle⟩⟩
  | flushBackoff nowMs =>
    obtain ⟨hcycle, hmove⟩ := foldl_pushActive_cycles _ _
    exact .inr ⟨Op.noConfusion, hcycle, .inr ⟨id, hmove⟩⟩
  | flushLeftover nowMs =>
    obtain ⟨hcycle, hmove⟩ := foldl_reactivate_cycles q nowMs _
    exact .inr ⟨Op.noConfusion, hcycle, .inr ⟨id, hmove⟩⟩

/-- The last move was not before the given cycle. -/
def Moved (q : PriorityQueue) (cycle : Nat) : Prop :=
  ∃ moved, q.moveRequestCycle = some moved ∧ cycle ≤ moved

theorem Run.cycle_le (hrun : Run less cond start ops q) :
    start.schedulingCycle ≤ q.schedulingCycle := by
  induction hrun with
  | start => exact le_refl _
  | @call _ q _ op _ ih =>
    obtain ⟨-, hcycle, -⟩ | ⟨-, hcycle, -⟩ := step_cycles less q op
    · omega
    · omega
  | reorder _ _ ih => exact ih

theorem Run.cycle_eq (hrun : Run less cond start ops q) (hpop : Op.pop ∉ ops) :
    q.schedulingCycle = start.schedulingCycle := by
  induction hrun with
  | start => rfl
  | @call ops q _ op _ ih =>
    rw [List.mem_append, List.mem_singleton, not_or] at hpop
    obtain ⟨rfl, -⟩ | ⟨-, hcycle, -⟩ := step_cycles less q op
    · exact absurd rfl hpop.2
    · exact hcycle.trans (ih hpop.1)
  | reorder _ _ ih => exact ih hpop

theorem Run.moved (hrun : Run less cond start ops q) (hcycle : cycle ≤ start.schedulingCycle)
    (hmove : start.Moved cycle ∨ ∃ op ∈ ops, op.IsMove) : q.Moved cycle := by
  induction hrun with
  | start =>
    obtain hmoved | ⟨_, hop, -⟩ := hmove
    · exact hmoved
    · cases hop
  | @call ops q hrun op _ ih =>
    have hkeep (hnot : ¬ op.IsMove) : q.Moved cycle := by
      refine ih (hmove.imp_right ?_)
      rintro ⟨move, hmem, hmove⟩
      obtain hmem | hmem := List.mem_append.mp hmem
      · exact ⟨move, hmem, hmove⟩
      · rw [List.mem_singleton.mp hmem] at hmove
        exact absurd hmove hnot
    obtain ⟨rfl, -, hsame⟩ | ⟨-, -, ⟨-, hnow⟩ | ⟨hnot, hsame⟩⟩ := step_cycles less q op
    · exact (hkeep id).imp fun moved h => ⟨hsame.trans h.1, h.2⟩
    · exact ⟨_, hnow, hcycle.trans hrun.cycle_le⟩
    · exact (hkeep hnot).imp fun moved h => ⟨hsame.trans h.1, h.2⟩
  | reorder _ _ ih => exact ih hmove

/-- The one consumer of the queue takes a pod, reads the cycle and later parks the pod.  If a move
lies between, then the pod waits a while only, unless it is parked already.  A move leaves no pod
that registered for its event. -/
theorem no_missed_wake_up {toRead toCall : List Op} {q₀ q₁ q₂ q₃ : PriorityQueue}
    {info : QueuedPodInfo} (_hpop : q₀.pop less = (q₁, some info))
    (hread : Run less (fun _ _ => True) q₁ toRead q₂) (hone : Op.pop ∉ toRead)
    (hcall : Run less (fun _ _ => True) q₂ toCall q₃)
    (hmove : ∃ op ∈ toRead ++ toCall, op.IsMove) :
    (q₃.unschedulable.lookup info.uid = none → ∀ nowMs,
      q₃.addUnschedulableIfNotPresent info q₂.schedulingCycle nowMs =
        { q₃ with backoff := q₃.backoff ++ [info.attempted nowMs] }) ∧
    ∀ q event nowMs, Dict.All (fun _ waiting => ¬ waiting.matchesEvent event)
      (moveAllToActiveOrBackoffQueue q event nowMs).unschedulable := by
  have hcycle : q₂.schedulingCycle = q₁.schedulingCycle := hread.cycle_eq hone
  have hmoved : q₃.Moved q₂.schedulingCycle := by
    obtain ⟨op, hmem, hop⟩ := hmove
    refine hcall.moved le_rfl ((List.mem_append.mp hmem).imp (fun hmem => ?_) fun hmem => ?_)
    · exact hread.moved hcycle.le (.inr ⟨op, hmem, hop⟩)
    · exact ⟨op, hmem, hop⟩
  refine ⟨fun habsent nowMs => ?_, moveAll_none_left⟩
  obtain ⟨parked, hparked, -⟩ | ⟨-, ⟨-, heq⟩ | ⟨hlate, -⟩⟩ :=
    q₃.addUnschedulableIfNotPresent_cases info q₂.schedulingCycle nowMs
  · rw [habsent] at hparked
    cases hparked
  · exact heq
  · obtain ⟨moved, hsome, hle⟩ := hmoved
    exact absurd (hlate moved hsome) hle.not_gt

/-- A node comes up after the pod was taken and another pod is taken before it is parked. -/
theorem no_missed_wake_up_lamp :
    let lamp : Pod := { metadata := { name := "lamp", uid := "u1" } }
    let added : ClusterEvent := ⟨.node, .add⟩
    let taken := (({} : PriorityQueue).add lamp).pop prioritySort
    let later := [Op.moveAll added 10, .pop].foldl (step prioritySort) taken.1
    taken.2.map (·.uid) = some "u1" ∧
    (later.addUnschedulableIfNotPresent { pod := lamp } taken.1.schedulingCycle 20).backoff =
      [({ pod := lamp } : QueuedPodInfo).attempted 20] := by
  intro lamp added taken later
  refine ⟨by decide, ?_⟩
  have hpop : (({} : PriorityQueue).add lamp).pop prioritySort = (taken.1, some { pod := lamp }) :=
    rfl
  have hcall : Run prioritySort (fun _ _ => True) taken.1 [.moveAll added 10, .pop] later :=
    (Run.start.call (.moveAll added 10) trivial).call .pop trivial
  have hmove : ∃ op ∈ [] ++ [Op.moveAll added 10, .pop], op.IsMove :=
    ⟨_, List.mem_cons_self, trivial⟩
  have hbackoff := (no_missed_wake_up hpop .start List.not_mem_nil hcall hmove).1 rfl 20
  exact congrArg PriorityQueue.backoff hbackoff

end PriorityQueue

end CaveHome.Scheduler
