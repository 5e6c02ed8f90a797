import CaveHome.Kubelet.Pleg
import CaveHome.Lib.KeyedList
import Mathlib.Data.List.Dedup
import Mathlib.Data.List.Induction

/-!
# What a relist reports

The records of a snapshot say for every pod which containers it has and in which states.  From
this the events of a container are computed: they depend on where the container was seen before
and where it is seen now, and on nothing else.
-/

namespace CaveHome.Kubelet.Pleg

open Cri (CriError)

/-! ## The records of a snapshot -/

namespace Snapshot

variable (s : Snapshot)

def podOf (c : Container) : Option String := s.sandboxUidById.lookup c.podSandboxId

/-- The record of a pod: the containers of its sandboxes. -/
def recordOf (uid : String) : PodRecord where
  uid := uid
  containers := (s.containers.items.filter fun c => s.podOf c = some uid).map fun c =>
    ⟨c.id, c.state⟩

/-- `records` says of every listed pod what `s` says, and nothing of other pods. -/
def ShownBy (records : PodRecords) : Prop :=
  ∀ uid, records.lookup uid = if uid ∈ s.currentUids then some (s.recordOf uid) else none

theorem mem_currentUids {uid : String} : uid ∈ s.currentUids ↔ ∃ sb ∈ s.sandboxes, sb.uid = uid := by
  simp [currentUids, List.mem_dedup]

theorem podOf_mem {c : Container} {uid : String} (h : s.podOf c = some uid) :
    uid ∈ s.currentUids := by
  rw [mem_currentUids]
  have hvalues : ∀ l : List PodSandbox, ∀ k v,
      (l.foldl (fun m sb => m.insert sb.id sb.uid) (∅ : Dict String String)).lookup k = some v →
        ∃ sb ∈ l, sb.uid = v := by
    intro l
    induction l using List.reverseRecOn with
    | nil => simp
    | append_singleton l sb ih =>
      intro k v hv
      rw [List.foldl_append, List.foldl_cons, List.foldl_nil] at hv
      by_cases hk : k = sb.id
      · subst hk
        rw [AList.lookup_insert] at hv
        exact ⟨sb, by simp, Option.some.inj hv⟩
      · rw [AList.lookup_insert_ne hk] at hv
        obtain ⟨sb', hsb', huid⟩ := ih k v hv
        exact ⟨sb', by simp [hsb'], huid⟩
  exact hvalues s.sandboxes c.podSandboxId uid h

theorem recordOf_of_not_mem {uid : String} (h : uid ∉ s.currentUids) :
    s.recordOf uid = ⟨uid, []⟩ := by
  have hnone : (s.containers.items.filter fun c => s.podOf c = some uid) = [] := by
    rw [List.filter_eq_nil_iff]
    intro c _ hc
    exact h (s.podOf_mem (of_decide_eq_true hc))
  simp [recordOf, hnone]

theorem lookup_addPods (l : List PodSandbox) (uid : String) :
    (l.foldl addPod (∅ : PodRecords)).lookup uid =
      if uid ∈ l.map (·.uid) then some ⟨uid, []⟩ else none := by
  induction l using List.reverseRecOn with
  | nil => simp
  | append_singleton l sb ih =>
    rw [List.foldl_append, List.foldl_cons, List.foldl_nil, addPod]
    by_cases hsb : sb.uid = uid
    · subst hsb
      split
      · rename_i hsome
        rw [ih] at hsome ⊢
        split at hsome <;> simp_all
      · simp
    · have hmem : uid ∈ (l ++ [sb]).map (·.uid) ↔ uid ∈ l.map (·.uid) := by
        simp [Ne.symm hsb]
      rw [if_congr hmem rfl rfl]
      split
      · exact ih
      · rw [AList.lookup_insert_ne (Ne.symm hsb), ih]

theorem newRecords_shown : s.ShownBy s.newRecords := by
  have hbucket : ∀ (l : List Container) (uid : String),
      (l.foldl (addContainer s.sandboxUidById) (s.sandboxes.foldl addPod ∅)).lookup uid =
        if uid ∈ s.currentUids then
          some ⟨uid, (l.filter fun c => s.podOf c = some uid).map fun c => ⟨c.id, c.state⟩⟩
        else none := by
    intro l uid
    induction l using List.reverseRecOn with
    | nil =>
      have hmem : uid ∈ s.sandboxes.map (·.uid) ↔ uid ∈ s.currentUids := by
        simp [currentUids, List.mem_dedup]
      rw [List.foldl_nil, lookup_addPods, if_congr hmem rfl rfl]
      rfl
    | append_singleton l c ih =>
      rw [List.foldl_append, List.foldl_cons, List.foldl_nil, addContainer]
      cases hpod : s.podOf c with
      | none =>
        rw [podOf] at hpod
        simp only [hpod, ih, List.filter_append]
        simp [podOf, hpod]
      | some pod =>
        have hlisted : pod ∈ s.currentUids := s.podOf_mem hpod
        rw [podOf] at hpod
        simp only [hpod]
        by_cases huid : uid = pod
        · subst huid
          rw [AList.lookup_insert, ih, if_pos hlisted, if_pos hlisted]
          simp [podOf, hpod]
        · rw [AList.lookup_insert_ne huid, ih, List.filter_append]
          simp [podOf, hpod, Ne.symm huid]
  exact hbucket s.containers.items

variable {s}

theorem ShownBy.reordered {records records' : PodRecords} (h : s.ShownBy records)
    (hr : records.Reordered records') : s.ShownBy records' := by
  intro uid
  rw [hr.lookup_eq, h uid]

theorem ShownBy.getD {records : PodRecords} (h : s.ShownBy records) (uid : String) :
    (records.lookup uid).getD ⟨uid, []⟩ = s.recordOf uid := by
  rw [h uid]
  split
  · rfl
  · rename_i hmem
    exact (s.recordOf_of_not_mem hmem).symm

theorem ShownBy.isSome_iff {records : PodRecords} (h : s.ShownBy records) (uid : String) :
    (records.lookup uid).isSome ↔ uid ∈ s.currentUids := by
  rw [h uid]
  split <;> simp_all

theorem ShownBy.mem_entries {records : PodRecords} (h : s.ShownBy records)
    {e : Sigma fun _ : String => PodRecord} :
    e ∈ records.entries ↔ e.1 ∈ s.currentUids ∧ e.2 = s.recordOf e.1 := by
  rw [Dict.mem_entries_iff, h e.1]
  split <;> simp_all [eq_comm]

theorem empty_shown : Snapshot.empty.ShownBy ∅ := by
  intro uid
  simp [currentUids, Snapshot.empty]

end Snapshot

/-! ## Where a container is seen -/

/-- A container in a snapshot: not listed, listed without its sandbox, or in a pod. -/
inductive Sighting
  | absent
  | orphan (state : Cri.ContainerState)
  | placed (uid : String) (state : Cri.ContainerState)
deriving DecidableEq

namespace Sighting

def state : Sighting → Option Cri.ContainerState
  | absent => none
  | orphan st => some st
  | placed _ st => some st

def pod : Sighting → Option String
  | absent => none
  | orphan _ => none
  | placed uid _ => some uid

/-- The state that the record of the pod `uid` holds. -/
def stateIn (uid : String) : Sighting → Option Cri.ContainerState
  | absent => none
  | orphan _ => none
  | placed uid' st => if uid' = uid then some st else none

end Sighting

def Snapshot.sight (s : Snapshot) (id : String) : Sighting :=
  match s.containers.items.find? fun c => c.id = id with
  | none => .absent
  | some c =>
    match s.podOf c with
    | none => .orphan c.state
    | some uid => .placed uid c.state

namespace Snapshot

variable (s : Snapshot)

theorem recordOf_ids_nodup (uid : String) : ((s.recordOf uid).containers.map (·.id)).Nodup := by
  have hsub : ((s.containers.items.filter fun c => s.podOf c = some uid).map (·.id)).Nodup :=
    (List.filter_sublist.map _).nodup s.containers.ids_nodup
  simpa [recordOf, List.map_map, Function.comp_def] using hsub

theorem stateIn_sight_eq_some_iff (uid id : String) (st : Cri.ContainerState) :
    (s.sight id).stateIn uid = some st ↔ ⟨id, st⟩ ∈ (s.recordOf uid).containers := by
  have hfind : ∀ c, s.containers.items.find? (fun c => c.id = id) = some c ↔
      c ∈ s.containers.items ∧ c.id = id :=
    KeyedList.find?_eq_some_iff s.containers.ids_nodup id
  simp only [recordOf, List.mem_map, List.mem_filter, decide_eq_true_eq,
    ContainerSnapshot.mk.injEq]
  unfold sight
  cases hc : s.containers.items.find? (fun c => c.id = id) with
  | none =>
    rw [KeyedList.find?_eq_none_iff] at hc
    simp only [Sighting.stateIn, reduceCtorEq, false_iff]
    rintro ⟨c, ⟨hmem, -⟩, hid, -⟩
    exact hc c hmem hid
  | some c =>
    have hone : ∀ d, (d ∈ s.containers.items ∧ d.id = id) ↔ d = c := by
      intro d
      rw [← hfind d, hc, Option.some.injEq, eq_comm]
    have hex : (∃ d, (d ∈ s.containers.items ∧ s.podOf d = some uid) ∧ d.id = id ∧ d.state = st) ↔
        s.podOf c = some uid ∧ c.state = st := by
      constructor
      · rintro ⟨d, ⟨hmem, hpod⟩, hid, hst⟩
        obtain rfl := (hone d).1 ⟨hmem, hid⟩
        exact ⟨hpod, hst⟩
      · rintro ⟨hpod, hst⟩
        obtain ⟨hmem, hid⟩ := (hone c).2 rfl
        exact ⟨c, ⟨hmem, hpod⟩, hid, hst⟩
    rw [hex]
    cases hpod : s.podOf c <;> simp [hpod, Sighting.stateIn]

theorem container_recordOf (uid id : String) :
    ((s.recordOf uid).container id).map (·.state) = (s.sight id).stateIn uid := by
  apply Option.ext
  intro st
  rw [stateIn_sight_eq_some_iff, Option.map_eq_some_iff]
  constructor
  · rintro ⟨c, hc, rfl⟩
    obtain ⟨hmem, rfl⟩ := (KeyedList.find?_eq_some_iff (s.recordOf_ids_nodup uid) id c).1 hc
    exact hmem
  · intro hmem
    exact ⟨⟨id, st⟩, (KeyedList.find?_eq_some_iff (s.recordOf_ids_nodup uid) id _).2 ⟨hmem, rfl⟩,
      rfl⟩

end Snapshot

/-! ## The events of a container -/

/-- What the code reports for one pod, from the states in its two records. -/
def change (prior now : Option Cri.ContainerState) : Option PodLifecycleEventType :=
  match now with
  | some st => transition prior st
  | none => prior.map fun _ => .containerRemoved

theorem transition_ne_removed {prior : Option Cri.ContainerState} {st : Cri.ContainerState} :
    transition prior st ≠ some .containerRemoved := by
  cases prior <;> cases st <;> simp [transition] <;> split_ifs <;> simp

theorem change_ne_podSync {prior now : Option Cri.ContainerState} :
    change prior now ≠ some .podSync := by
  cases now with
  | none => cases prior <;> simp [change]
  | some st => cases prior <;> cases st <;> simp [change, transition] <;> split_ifs <;> simp

theorem mem_podEvents {before now : Snapshot} {uid : String} {e : PodLifecycleEvent} :
    e ∈ podEvents uid (before.recordOf uid) (now.recordOf uid) ↔
      e.id = uid ∧ change ((before.sight e.containerId).stateIn uid)
        ((now.sight e.containerId).stateIn uid) = some e.eventType := by
  obtain ⟨id, cid, eventType⟩ := e
  have htransition : (∃ nc ∈ (now.recordOf uid).containers, ∃ ty,
      transition (((before.recordOf uid).container nc.id).map (·.state)) nc.state = some ty ∧
        (⟨uid, nc.id, ty⟩ : PodLifecycleEvent) = ⟨id, cid, eventType⟩) ↔
      id = uid ∧ ∃ st, (now.sight cid).stateIn uid = some st ∧
        transition ((before.sight cid).stateIn uid) st = some eventType := by
    simp only [before.container_recordOf, PodLifecycleEvent.mk.injEq,
      Snapshot.stateIn_sight_eq_some_iff]
    constructor
    · rintro ⟨⟨ncId, st⟩, hmem, ty, hty, rfl, rfl, rfl⟩
      exact ⟨rfl, st, hmem, hty⟩
    · rintro ⟨rfl, st, hmem, hty⟩
      exact ⟨⟨cid, st⟩, hmem, eventType, hty, rfl, rfl, rfl⟩
  have hremoved : (∃ oc ∈ (before.recordOf uid).containers,
      ((now.recordOf uid).container oc.id).isNone ∧
        removed uid oc = (⟨id, cid, eventType⟩ : PodLifecycleEvent)) ↔
      id = uid ∧ (∃ st, (before.sight cid).stateIn uid = some st) ∧
        (now.sight cid).stateIn uid = none ∧ eventType = .containerRemoved := by
    simp only [removed, PodLifecycleEvent.mk.injEq, Snapshot.stateIn_sight_eq_some_iff,
      ← now.container_recordOf, Option.map_eq_none_iff, Option.isNone_iff_eq_none]
    constructor
    · rintro ⟨⟨ocId, st⟩, hmem, hnone, rfl, rfl, rfl⟩
      exact ⟨rfl, ⟨st, hmem⟩, hnone, rfl⟩
    · rintro ⟨rfl, ⟨st, hmem⟩, hnone, rfl⟩
      exact ⟨⟨cid, st⟩, hmem, hnone, rfl, rfl, rfl⟩
  have hsplit : (⟨id, cid, eventType⟩ : PodLifecycleEvent) ∈
        podEvents uid (before.recordOf uid) (now.recordOf uid) ↔
      (∃ nc ∈ (now.recordOf uid).containers, ∃ ty,
        transition (((before.recordOf uid).container nc.id).map (·.state)) nc.state = some ty ∧
          (⟨uid, nc.id, ty⟩ : PodLifecycleEvent) = ⟨id, cid, eventType⟩) ∨
      (∃ oc ∈ (before.recordOf uid).containers,
        ((now.recordOf uid).container oc.id).isNone ∧
          removed uid oc = (⟨id, cid, eventType⟩ : PodLifecycleEvent)) := by
    simp only [podEvents, List.mem_append, List.mem_filterMap, List.mem_map, List.mem_filter,
      Option.map_eq_some_iff, and_assoc]
  rw [hsplit, htransition, hremoved, ← and_or_left]
  apply and_congr_right'
  cases (now.sight cid).stateIn uid with
  | none =>
    cases (before.sight cid).stateIn uid <;> simp [change, eq_comm]
  | some st => simp [change]

theorem podEvents_nodup (before now : Snapshot) (uid : String) :
    (podEvents uid (before.recordOf uid) (now.recordOf uid)).Nodup := by
  have hnow := List.pairwise_map.1 (now.recordOf_ids_nodup uid)
  have hbefore := List.pairwise_map.1 (before.recordOf_ids_nodup uid)
  apply List.Nodup.append
  · apply List.pairwise_filterMap.2
    apply hnow.imp
    intro c c' hne e he e' he' heq
    obtain ⟨ty, -, rfl⟩ := Option.map_eq_some_iff.1 he
    obtain ⟨ty', -, rfl⟩ := Option.map_eq_some_iff.1 he'
    exact hne (congrArg PodLifecycleEvent.containerId heq)
  · apply List.pairwise_map.2
    apply (hbefore.filter _).imp
    intro c c' hne heq
    exact hne (congrArg PodLifecycleEvent.containerId heq)
  · -- a transition is never a removal
    intro e he hr
    simp only [List.mem_filterMap, Option.map_eq_some_iff] at he
    obtain ⟨nc, -, ty, hty, rfl⟩ := he
    simp only [List.mem_map, removed, PodLifecycleEvent.mk.injEq] at hr
    obtain ⟨oc, -, -, -, rfl⟩ := hr
    exact transition_ne_removed hty

section

variable {before now : Snapshot} {old new : PodRecords}

theorem mem_listedEvents (hold : before.ShownBy old) (hnew : now.ShownBy new)
    {e : PodLifecycleEvent} :
    (e ∈ new.entries.flatMap fun x => podEvents x.1 ((old.lookup x.1).getD ⟨x.1, []⟩) x.2) ↔
      e.id ∈ now.currentUids ∧ change ((before.sight e.containerId).stateIn e.id)
        ((now.sight e.containerId).stateIn e.id) = some e.eventType := by
  simp only [List.mem_flatMap, hnew.mem_entries, hold.getD]
  constructor
  · rintro ⟨⟨uid, r⟩, ⟨hmem, hr⟩, he⟩
    obtain rfl : r = now.recordOf uid := hr
    obtain ⟨rfl, hchange⟩ := mem_podEvents.1 he
    exact ⟨hmem, hchange⟩
  · rintro ⟨hmem, hchange⟩
    exact ⟨⟨e.id, now.recordOf e.id⟩, ⟨hmem, rfl⟩, mem_podEvents.2 ⟨rfl, hchange⟩⟩

theorem stateIn_eq_none {s : Snapshot} {uid : String} (h : uid ∉ s.currentUids) (id : String) :
    (s.sight id).stateIn uid = none := by
  rw [← s.container_recordOf, s.recordOf_of_not_mem h]
  rfl

theorem mem_goneEvents (hold : before.ShownBy old) (hnew : now.ShownBy new)
    {e : PodLifecycleEvent} :
    (e ∈ old.entries.flatMap fun x =>
      if (new.lookup x.1).isSome then [] else x.2.containers.map (removed x.1)) ↔
      e.id ∉ now.currentUids ∧ change ((before.sight e.containerId).stateIn e.id)
        ((now.sight e.containerId).stateIn e.id) = some e.eventType := by
  obtain ⟨id, cid, eventType⟩ := e
  simp only [List.mem_flatMap, hold.mem_entries, hnew.isSome_iff]
  constructor
  · rintro ⟨⟨uid, r⟩, ⟨-, hr⟩, he⟩
    obtain rfl : r = before.recordOf uid := hr
    by_cases huid : uid ∈ now.currentUids
    · simp [huid] at he
    · rw [if_neg huid, List.mem_map] at he
      obtain ⟨c, hc, heq⟩ := he
      cases heq
      refine ⟨huid, ?_⟩
      have hst := (before.stateIn_sight_eq_some_iff uid c.id c.state).2 hc
      rw [stateIn_eq_none huid, hst]
      rfl
  · rintro ⟨hgone, hchange⟩
    rw [stateIn_eq_none hgone] at hchange
    obtain ⟨st, hst, rfl⟩ := Option.map_eq_some_iff.1 hchange
    refine ⟨⟨id, before.recordOf id⟩, ⟨?_, rfl⟩, ?_⟩
    · by_contra hmem
      rw [stateIn_eq_none hmem] at hst
      cases hst
    · rw [if_neg hgone, List.mem_map]
      exact ⟨⟨cid, st⟩, (before.stateIn_sight_eq_some_iff id cid st).1 hst, rfl⟩

theorem mem_containerEvents (hold : before.ShownBy old) (hnew : now.ShownBy new)
    {e : PodLifecycleEvent} :
    e ∈ containerEvents old new ↔
      change ((before.sight e.containerId).stateIn e.id) ((now.sight e.containerId).stateIn e.id) =
        some e.eventType := by
  rw [containerEvents, List.mem_append, mem_listedEvents hold hnew, mem_goneEvents hold hnew,
    ← or_and_right]
  exact and_iff_right (em _)

theorem containerEvents_nodup (hold : before.ShownBy old) (hnew : now.ShownBy new) :
    (containerEvents old new).Nodup := by
  have hkeys : ∀ m : PodRecords, m.entries.Pairwise fun x y => x.1 ≠ y.1 := by
    intro m
    exact List.pairwise_map.1 m.nodupKeys
  apply List.Nodup.append
  · apply List.nodup_flatMap.2
    constructor
    · intro x hx
      rw [hold.getD, (hnew.mem_entries.1 hx).2]
      exact podEvents_nodup before now x.1
    · apply (List.Pairwise.and_mem.1 (hkeys new)).imp
      rintro x y ⟨hx, hy, hne⟩ e he he'
      simp only [hold.getD, (hnew.mem_entries.1 hx).2] at he
      simp only [hold.getD, (hnew.mem_entries.1 hy).2] at he'
      exact hne ((mem_podEvents.1 he).1.symm.trans (mem_podEvents.1 he').1)
  · apply List.nodup_flatMap.2
    constructor
    · intro x hx
      rw [(hold.mem_entries.1 hx).2]
      split
      · exact List.nodup_nil
      · apply List.pairwise_map.2
        apply (List.pairwise_map.1 (before.recordOf_ids_nodup x.1)).imp
        intro c c' hne heq
        exact hne (congrArg PodLifecycleEvent.containerId heq)
    · apply (hkeys old).imp
      intro x y hne e he he'
      have hid : ∀ z : Sigma fun _ : String => PodRecord,
          (e ∈ if (new.lookup z.1).isSome then [] else z.2.containers.map (removed z.1)) →
            e.id = z.1 := by
        intro z hz
        split at hz
        · cases hz
        · obtain ⟨c, -, rfl⟩ := List.mem_map.1 hz
          rfl
      exact hne ((hid x he).symm.trans (hid y he'))
  · intro e he he'
    exact ((mem_goneEvents hold hnew).1 he').1 ((mem_listedEvents hold hnew).1 he).1

end

/-! ## The law -/

/-- The events that name a container. -/
def named (id : String) (events : List PodLifecycleEvent) : List PodLifecycleEvent :=
  events.filter fun e => e.eventType ≠ .podSync ∧ e.containerId = id

/-- What is to be reported of a container that was in one state and is in another. -/
def due : Option Cri.ContainerState → Option Cri.ContainerState → Option PodLifecycleEventType
  | none, none => none
  | some _, none => some .containerRemoved
  | none, some st =>
    match st with
    | .running => some .containerStarted
    | .exited => some .containerDied
    | .created | .unknown => some .containerChanged
  | some prev, some st =>
    if prev = st then none
    else
      match prev, st with
      | .created, .running => some .containerStarted
      | .running, .exited => some .containerDied
      | _, _ => some .containerChanged

/-- The pod of a container: the one it is in, or was in when it is gone. -/
def podOf (before now : Sighting) : Option String :=
  match now with
  | .absent => before.pod
  | .orphan _ => none
  | .placed uid _ => some uid

/-- The events name the container once, with its pod, when something is to be reported of it. -/
def Told (id : String) (before now : Sighting) (events : List PodLifecycleEvent) : Prop :=
  match due before.state now.state with
  | none => named id events = []
  | some eventType => ∃ uid, podOf before now = some uid ∧ named id events = [⟨uid, id, eventType⟩]

/-- A relist that listed `before` at first and `now` then reports the differences. -/
structure Reports (before now : Snapshot) (events : List PodLifecycleEvent) : Prop where
  containers : ∀ id, Told id (before.sight id) (now.sight id) events
  pods : ∀ uid, ¬(uid ∈ before.currentUids ↔ uid ∈ now.currentUids) → ∃ e ∈ events, e.id = uid

/-- How a container may be seen at two relists: it stays in one listed pod, and is running when it
is seen there for the first time. -/
def Followed : Sighting → Sighting → Prop
  | .absent, .absent => True
  | .absent, .orphan _ => False
  | .absent, .placed _ st => st = .running
  | .orphan _, .absent => False
  | .orphan prev, .orphan st => prev = st
  | .orphan prev, .placed _ st => if st = .running then prev = .created else prev = st
  | .placed _ _, .absent => True
  | .placed _ _, .orphan _ => False
  | .placed uid _, .placed uid' _ => uid = uid'

/-- `g` tells the pods what is due: nothing, or one event for the given pod. -/
def Tells (g : String → Option PodLifecycleEventType) (pod : Option String) :
    Option PodLifecycleEventType → Prop
  | none => ∀ uid, g uid = none
  | some eventType => ∃ uid, pod = some uid ∧
      ∀ uid', g uid' = if uid' = uid then some eventType else none

section

variable {g : String → Option PodLifecycleEventType} {pod : Option String} {uid : String}
  {d : Option PodLifecycleEventType}

theorem tells_iff (hoff : ∀ uid', uid' ≠ uid → g uid' = none) : Tells g (some uid) d ↔ g uid = d := by
  cases d with
  | none =>
    constructor
    · intro h
      exact h uid
    · intro h uid'
      by_cases huid : uid' = uid
      · rw [huid, h]
      · exact hoff uid' huid
  | some eventType =>
    constructor
    · rintro ⟨uid', huid, h⟩
      cases huid
      rw [h uid, if_pos rfl]
    · intro h
      refine ⟨uid, rfl, fun uid' => ?_⟩
      by_cases huid : uid' = uid
      · rw [huid, h, if_pos rfl]
      · rw [hoff uid' huid, if_neg huid]

theorem not_tells (uid : String) (hpod : pod ≠ some uid) (huid : g uid ≠ none) : ¬Tells g pod d := by
  cases d with
  | none =>
    intro h
    exact huid (h uid)
  | some eventType =>
    rintro ⟨uid', rfl, h⟩
    rw [h uid, if_neg (fun heq => hpod (by rw [heq]))] at huid
    exact huid rfl

theorem told_iff_tells {id : String} {before now : Sighting} {events : List PodLifecycleEvent}
    (hnodup : (named id events).Nodup)
    (hmem : ∀ e, e ∈ named id events ↔ e.containerId = id ∧ g e.id = some e.eventType) :
    Told id before now events ↔ Tells g (podOf before now) (due before.state now.state) := by
  unfold Told
  cases due before.state now.state with
  | none =>
    constructor
    · intro hnil uid
      rw [Option.eq_none_iff_forall_ne_some]
      intro ty hty
      have hin : (⟨uid, id, ty⟩ : PodLifecycleEvent) ∈ named id events := (hmem _).2 ⟨rfl, hty⟩
      rw [hnil] at hin
      cases hin
    · intro hnone
      apply List.eq_nil_iff_forall_not_mem.2
      intro e he
      have hchange := ((hmem e).1 he).2
      rw [hnone] at hchange
      cases hchange
  | some eventType =>
    apply exists_congr
    intro uid
    apply and_congr_right'
    have hone := KeyedList.eq_toList_iff hnodup (some ⟨uid, id, eventType⟩)
    rw [Option.toList_some] at hone
    rw [hone]
    constructor
    · intro hall uid'
      apply Option.ext
      intro ty
      have he := hall ⟨uid', id, ty⟩
      rw [hmem] at he
      simp only [true_and, Option.some.injEq, PodLifecycleEvent.mk.injEq] at he
      rw [he]
      by_cases huid : uid' = uid
      · simp [huid]
      · simp [huid, Ne.symm huid]
    · rintro hall ⟨uid', cid, ty⟩
      rw [hmem, hall uid']
      by_cases huid : uid' = uid
      · simp [huid, eq_comm]
      · simp [huid, Ne.symm huid]

end

theorem change_eq_due (prev st : Cri.ContainerState) :
    change (some prev) (some st) = due (some prev) (some st) := by
  cases prev <;> cases st <;> decide

theorem placed_off {uid uid' : String} (h : uid' ≠ uid) (st : Cri.ContainerState) :
    (Sighting.placed uid st).stateIn uid' = none := by
  simp [Sighting.stateIn, Ne.symm h]

theorem tells_iff_followed (before now : Sighting) :
    Tells (fun uid => change (before.stateIn uid) (now.stateIn uid)) (podOf before now)
      (due before.state now.state) ↔ Followed before now := by
  cases before with
  | absent =>
    cases now with
    | absent => simp [due, Sighting.state, Sighting.stateIn, change, Followed, Tells]
    | orphan st => cases st <;> simp [due, Sighting.state, podOf, Followed, Tells]
    | placed uid st =>
      rw [podOf, tells_iff fun uid' h => by rw [placed_off h]; rfl]
      cases st <;> simp [Sighting.stateIn, Sighting.state, due, change, transition, Followed]
  | orphan prev =>
    cases now with
    | absent => simp [due, Sighting.state, podOf, Sighting.pod, Followed, Tells]
    | orphan st =>
      cases prev <;> cases st <;>
        simp [due, Sighting.state, Sighting.stateIn, change, podOf, Followed, Tells]
    | placed uid st =>
      rw [podOf, tells_iff fun uid' h => by rw [placed_off h]; rfl]
      cases prev <;> cases st <;>
        simp [Sighting.stateIn, Sighting.state, due, change, transition, Followed]
  | placed uid prev =>
    have hself : (Sighting.placed uid prev).stateIn uid = some prev := by simp [Sighting.stateIn]
    cases now with
    | absent =>
      rw [podOf, Sighting.pod, tells_iff fun uid' h => by rw [placed_off h]; rfl, hself]
      simp [Sighting.stateIn, Sighting.state, due, change, Followed]
    | orphan st =>
      have hlost : change ((Sighting.placed uid prev).stateIn uid) ((Sighting.orphan st).stateIn uid)
          ≠ none := by
        rw [hself]
        simp [Sighting.stateIn, change]
      simp only [Followed, iff_false]
      exact not_tells uid (by simp [podOf]) hlost
    | placed uid' st =>
      by_cases huid : uid = uid'
      · subst huid
        rw [podOf, tells_iff fun uid' h => by rw [placed_off h, placed_off h]; rfl, hself]
        simp [Sighting.stateIn, Sighting.state, change_eq_due, Followed]
      · have hlost : change ((Sighting.placed uid prev).stateIn uid)
            ((Sighting.placed uid' st).stateIn uid) ≠ none := by
          rw [hself, placed_off huid]
          simp [change]
        simp only [Followed, huid, iff_false]
        exact not_tells uid (by simp [podOf, Ne.symm huid]) hlost

theorem mem_podSyncs {old : PodRecords} {currentUids emittedFor : List String}
    {e : PodLifecycleEvent} (h : e ∈ podSyncs old currentUids emittedFor) :
    e.eventType = .podSync := by
  obtain ⟨uid, -, rfl⟩ := List.mem_map.1 h
  rfl

section

variable {before now : Snapshot} {old new : PodRecords}

theorem diff_names_pod (hold : before.ShownBy old) {uids : List String}
    (huids : now.currentUids.Perm uids) {uid : String}
    (h : ¬(uid ∈ before.currentUids ↔ uid ∈ now.currentUids)) :
    ∃ e ∈ diff old new uids, e.id = uid := by
  by_cases hemitted : uid ∈ (containerEvents old new).map (·.id)
  · obtain ⟨e, he, rfl⟩ := List.mem_map.1 hemitted
    exact ⟨e, List.mem_append_left _ he, rfl⟩
  · refine ⟨⟨uid, "", .podSync⟩, List.mem_append_right _ (List.mem_map_of_mem ?_), rfl⟩
    have hkey : uid ∈ old.keys ↔ uid ∈ before.currentUids := by
      rw [← hold.isSome_iff uid, AList.lookup_isSome, AList.mem_keys]
    have hcurrent : uid ∈ uids ↔ uid ∈ now.currentUids := huids.mem_iff.symm
    have hnone : (old.lookup uid).isNone ↔ uid ∉ before.currentUids := by
      rw [← hold.isSome_iff uid]
      cases old.lookup uid <;> simp
    simp only [List.mem_append, List.mem_filter, decide_eq_true_eq, hkey, hcurrent, hnone]
    tauto

theorem diff_reports_iff (hold : before.ShownBy old) (hnew : now.ShownBy new) {uids : List String}
    (huids : now.currentUids.Perm uids) :
    Reports before now (diff old new uids) ↔ ∀ id, Followed (before.sight id) (now.sight id) := by
  have hnamed : ∀ id, named id (diff old new uids) = named id (containerEvents old new) := by
    intro id
    have hsyncs : named id (podSyncs old uids ((containerEvents old new).map (·.id))) = [] := by
      rw [named, List.filter_eq_nil_iff]
      intro e he
      simp [mem_podSyncs he]
    rw [diff, named, List.filter_append]
    exact (congrArg _ hsyncs).trans (List.append_nil _)
  have htold : ∀ id, Told id (before.sight id) (now.sight id) (diff old new uids) ↔
      Followed (before.sight id) (now.sight id) := by
    intro id
    rw [← tells_iff_followed]
    apply told_iff_tells
    · rw [hnamed]
      exact (containerEvents_nodup hold hnew).filter _
    · intro e
      rw [hnamed, named, List.mem_filter, mem_containerEvents hold hnew]
      simp only [decide_eq_true_eq]
      constructor
      · rintro ⟨hchange, -, rfl⟩
        exact ⟨rfl, hchange⟩
      · rintro ⟨rfl, hchange⟩
        refine ⟨hchange, fun hsync => ?_, rfl⟩
        rw [hsync] at hchange
        exact change_ne_podSync hchange
  constructor
  · intro h id
    exact (htold id).1 (h.containers id)
  · intro h
    exact ⟨fun id => (htold id).2 (h id), fun uid => diff_names_pod hold huids⟩

end

/-! ## Runs -/

theorem lastListed_append (answers : List Answers) (a : Answers) :
    lastListed (answers ++ [a]) = a.snapshot.getD (lastListed answers) := by
  simp [lastListed]

theorem Reaches.shown {answers : List Answers} {p : GenericPleg} (h : Reaches answers p) :
    (lastListed answers).ShownBy p.records := by
  induction h with
  | new => exact Snapshot.empty_shown
  | relist hrun hstep ih =>
    rw [lastListed_append]
    cases hstep with
    | failed hnone => simpa [hnone] using ih
    | listed hsome hold hnew huids =>
      rw [hsome]
      exact (Snapshot.newRecords_shown _).reordered hnew

/-- After any relists, a failing relist changes nothing and sends nothing; one that succeeds sets
the clock and reports exactly the differences from the last success if and only if every container
is followed. -/
theorem relist_reports_iff {answers : List Answers} {p q : GenericPleg} {a : Answers}
    {events : List PodLifecycleEvent} (hrun : Reaches answers p) (h : Relist a p q events) :
    (a.snapshot = none → q = p ∧ events = []) ∧
    ∀ now, a.snapshot = some now →
      q.lastRelistMs = a.nowUnixMillis ∧ lastListed (answers ++ [a]) = now ∧
      (Reports (lastListed answers) now events ↔
        ∀ id, Followed ((lastListed answers).sight id) (now.sight id)) := by
  cases h with
  | failed hnone =>
    refine ⟨fun _ => ⟨rfl, rfl⟩, fun now hnow => ?_⟩
    rw [hnone] at hnow
    cases hnow
  | listed hsome hold hnew huids =>
    refine ⟨fun hnone => ?_, fun now hnow => ?_⟩
    · rw [hsome] at hnone
      cases hnone
    · obtain rfl := Option.some.inj (hsome.symm.trans hnow)
      refine ⟨rfl, by rw [lastListed_append, hsome, Option.getD_some], ?_⟩
      exact diff_reports_iff (hrun.shown.reordered hold)
        ((Snapshot.newRecords_shown _).reordered hnew) huids

/-- A relist in which the sandbox of one pod is listed with the given containers. -/
def onePod (containers : ContainerList) (nowUnixMillis : Int) : Answers where
  listPodSandbox := .ok [⟨"s1", "u1"⟩]
  listContainers := .ok containers
  nowUnixMillis := nowUnixMillis

def noContainers : ContainerList := ⟨[], List.nodup_nil⟩

def oneContainer (state : Cri.ContainerState) : ContainerList :=
  ⟨[⟨"c1", "s1", state⟩], List.nodup_singleton _⟩

theorem relist_onePod (containers : ContainerList) (nowUnixMillis : Int) (p : GenericPleg) :
    Relist (onePod containers nowUnixMillis) p
      ⟨(⟨[⟨"s1", "u1"⟩], containers⟩ : Snapshot).newRecords, nowUnixMillis⟩
      (diff p.records (⟨[⟨"s1", "u1"⟩], containers⟩ : Snapshot).newRecords
        (⟨[⟨"s1", "u1"⟩], containers⟩ : Snapshot).currentUids) :=
  .listed rfl (List.Perm.refl _) (List.Perm.refl _) (List.Perm.refl _)

/-- A container that started and died between two relists of its pod is never reported. -/
theorem relist_misses_death : ∃ answers p a q now events, Reaches answers p ∧ Relist a p q events ∧
    a.snapshot = some now ∧ (lastListed answers).sight "c1" = .absent ∧
    now.sight "c1" = .placed "u1" .exited ∧ events = [] ∧
    ¬Reports (lastListed answers) now events := by
  refine ⟨[onePod noContainers 1], _, onePod (oneContainer .exited) 2, _, _, _,
    .relist .new (relist_onePod noContainers 1 _), relist_onePod (oneContainer .exited) 2 _, rfl,
    by decide, by decide, by decide, fun h => ?_⟩
  have htold := h.containers "c1"
  have hbefore : (lastListed [onePod noContainers 1]).sight "c1" = .absent := by decide
  have hnow : (⟨[⟨"s1", "u1"⟩], oneContainer .exited⟩ : Snapshot).sight "c1" =
      .placed "u1" .exited := by decide
  rw [hbefore, hnow] at htold
  obtain ⟨uid, -, hnamed⟩ := htold
  have hlength := congrArg List.length hnamed
  rw [List.length_singleton] at hlength
  revert hlength
  decide

theorem relist_reports_iff_demo :
    (lastListed ([] ++ [onePod (oneContainer .running) 1])).sight "c1" = .placed "u1" .running ∧
    (onePod (oneContainer .running) 1).snapshot = some ⟨[⟨"s1", "u1"⟩], oneContainer .running⟩ ∧
    (Reports (lastListed []) ⟨[⟨"s1", "u1"⟩], oneContainer .running⟩
        (diff ∅ (⟨[⟨"s1", "u1"⟩], oneContainer .running⟩ : Snapshot).newRecords ["u1"]) ↔
      ∀ id, Followed ((lastListed []).sight id)
        ((⟨[⟨"s1", "u1"⟩], oneContainer .running⟩ : Snapshot).sight id)) :=
  ⟨by decide, rfl,
    ((relist_reports_iff .new (relist_onePod (oneContainer .running) 1 GenericPleg.new)).2 _ rfl).2.2⟩

end CaveHome.Kubelet.Pleg
