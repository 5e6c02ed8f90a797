import CaveHome.Scheduler.Queue

/-!
# Pods wait in one place

Each call is described by what it does to the collection of the waiting pods: it adds one, takes
the top one out, or moves pods between the three places.  A call that adds does not look whether
the pod waits in another place already.
-/

namespace CaveHome.Scheduler

theorem takeTop_perm {less : Pod → Pod → Bool} {es rest : List HeapEntry} {top : HeapEntry}
    (h : takeTop less es = some (top, rest)) : es.Perm (top :: rest) := by
  induction es generalizing top rest with
  | nil => cases h
  | cons e es ih =>
    rw [takeTop] at h
    split at h
    next hnone =>
      obtain ⟨rfl, rfl⟩ := Prod.mk.inj (Option.some.inj h)
      cases es with
      | nil => exact .refl _
      | cons e' es =>
        rw [takeTop] at hnone
        split at hnone
        · cases hnone
        · split at hnone <;> cases hnone
    next best others hbest =>
      have hes := (ih hbest).cons e
      split at h
      · obtain ⟨rfl, rfl⟩ := Prod.mk.inj (Option.some.inj h)
        exact hes
      · obtain ⟨rfl, rfl⟩ := Prod.mk.inj (Option.some.inj h)
        exact hes.trans (.swap _ _ _)

namespace PriorityQueue

variable {less : Pod → Pod → Bool} {q : PriorityQueue}

/-- The pods on the heap and those that have to wait a while. -/
def promptUids (q : PriorityQueue) : List String :=
  q.active.map (·.info.uid) ++ q.backoff.map (·.uid)

/-- The pods that wait, as often as they do. -/
def uids (q : PriorityQueue) : List String :=
  q.promptUids ++ q.unschedulable.entries.map (·.2.uid)

/-- The unschedulable pods are filed under their own name. -/
def Filed (q : PriorityQueue) : Prop := Dict.All (fun key info => key = info.uid) q.unschedulable

/-! ## What a call does to the waiting pods -/

theorem pushActive_uids (q : PriorityQueue) (info : QueuedPodInfo) :
    (q.pushActive info).uids.Perm (info.uid :: q.uids) := by
  have h : (q.pushActive info).uids = q.active.map (·.info.uid) ++ info.uid ::
      (q.backoff.map (·.uid) ++ q.unschedulable.entries.map (·.2.uid)) := by
    simp [uids, promptUids, pushActive]
  rw [h, show q.uids = q.active.map (·.info.uid) ++
    (q.backoff.map (·.uid) ++ q.unschedulable.entries.map (·.2.uid)) by simp [uids, promptUids]]
  exact List.perm_middle

theorem pushBackoff_uids (q : PriorityQueue) (info : QueuedPodInfo) :
    ({ q with backoff := q.backoff ++ [info] } : PriorityQueue).uids.Perm
      (info.uid :: q.uids) := by
  have h : ({ q with backoff := q.backoff ++ [info] } : PriorityQueue).uids =
      q.promptUids ++ info.uid :: q.unschedulable.entries.map (·.2.uid) := by
    simp [uids, promptUids]
  rw [h]
  exact List.perm_middle

theorem erase_uids {key : String} {info : QueuedPodInfo}
    (h : q.unschedulable.lookup key = some info) :
    q.uids.Perm (info.uid ::
      ({ q with unschedulable := q.unschedulable.erase key } : PriorityQueue).uids) := by
  have hentries := (Dict.entries_perm_cons_erase h).map (·.2.uid)
  exact (hentries.append_left q.promptUids).trans List.perm_middle

theorem reactivate_uids (q : PriorityQueue) (nowMs : Nat) (key : String) :
    (q.reactivate nowMs key).uids.Perm q.uids := by
  unfold reactivate
  split
  · exact .refl _
  next info hinfo =>
    have herase := erase_uids hinfo
    dsimp only
    split
    · exact (pushBackoff_uids _ info).trans herase.symm
    · exact (pushActive_uids _ info).trans herase.symm

theorem foldl_reactivate_uids (q : PriorityQueue) (nowMs : Nat) (keys : List String) :
    (keys.foldl (reactivate nowMs) q).uids.Perm q.uids := by
  induction keys generalizing q with
  | nil => exact .refl _
  | cons key keys ih => exact (ih _).trans (reactivate_uids q nowMs key)

theorem foldl_pushActive_uids (q : PriorityQueue) (infos : List QueuedPodInfo) :
    (infos.foldl pushActive q).uids.Perm (infos.map (·.uid) ++ q.uids) := by
  induction infos generalizing q with
  | nil => exact .refl _
  | cons info infos ih =>
    refine (ih _).trans (((pushActive_uids q info).append_left _).trans ?_)
    exact List.perm_middle

theorem flushBackoff_uids (q : PriorityQueue) (nowMs : Nat) :
    (q.flushBackoff nowMs).uids.Perm q.uids := by
  let due (info : QueuedPodInfo) : Bool := info.readyAtMs ≤ nowMs
  let still : PriorityQueue := { q with backoff := q.backoff.filter fun info => !due info }
  have hflush : q.flushBackoff nowMs = (q.backoff.filter due).foldl pushActive still := by
    simp only [flushBackoff, List.partition_eq_filter_filter, still, due]
    rfl
  rw [hflush]
  refine (foldl_pushActive_uids still _).trans ?_
  have hbackoff : ((q.backoff.filter due).map (·.uid) ++ still.backoff.map (·.uid)).Perm
      (q.backoff.map (·.uid)) := by
    rw [← List.map_append]
    exact (List.filter_append_perm due q.backoff).map _
  have hsplit : still.uids = q.active.map (·.info.uid) ++ (still.backoff.map (·.uid) ++
      q.unschedulable.entries.map (·.2.uid)) := by simp [uids, promptUids, still]
  have hq : q.uids = q.active.map (·.info.uid) ++ (q.backoff.map (·.uid) ++
      q.unschedulable.entries.map (·.2.uid)) := by simp [uids, promptUids]
  rw [hsplit, hq, ← List.append_assoc]
  refine (List.perm_append_comm.append_right _).trans ?_
  rw [List.append_assoc, ← List.append_assoc _ (still.backoff.map _)]
  exact (hbackoff.append_right _).append_left _

theorem pop_uids (less : Pod → Pod → Bool) (q : PriorityQueue) :
    q.uids.Perm (((q.pop less).2.map (·.uid)).toList ++ (q.pop less).1.uids) := by
  cases htop : takeTop less q.active with
  | none =>
    simp only [pop, htop]
    exact .refl _
  | some taken =>
    obtain ⟨top, rest⟩ := taken
    have hactive := (takeTop_perm htop).map (·.info.uid)
    simp only [pop, htop, uids, promptUids]
    exact (hactive.append_right _).append_right _

theorem addUnschedulableIfNotPresent_uids (q : PriorityQueue) (info : QueuedPodInfo)
    (cycle nowMs : Nat) :
    (∃ parked, q.unschedulable.lookup info.uid = some parked ∧
      q.addUnschedulableIfNotPresent info cycle nowMs = q) ∨
    (q.unschedulable.lookup info.uid = none ∧
      (q.addUnschedulableIfNotPresent info cycle nowMs).uids.Perm (info.uid :: q.uids)) := by
  obtain hparked | ⟨habsent, ⟨-, heq⟩ | ⟨-, heq⟩⟩ :=
    q.addUnschedulableIfNotPresent_cases info cycle nowMs
  · exact .inl hparked
  · rw [heq]
    exact .inr ⟨habsent, pushBackoff_uids q (info.attempted nowMs)⟩
  · refine .inr ⟨habsent, ?_⟩
    simp only [heq, uids, promptUids]
    rw [AList.entries_insert_of_notMem (AList.lookup_eq_none.mp habsent)]
    exact List.perm_middle

/-! ## Whole runs -/

/-- The call does not bring in a pod that waits already. -/
def Fresh (q : PriorityQueue) : Op → Prop
  | .add pod => pod.uid ∉ q.uids
  | .addUnschedulable info => info.uid ∉ q.uids
  | .addUnschedulableIfNotPresent info _ _ => info.uid ∉ q.promptUids
  | .pop | .moveAll .. | .flushBackoff _ | .flushLeftover _ => True

instance (q : PriorityQueue) : ∀ op, Decidable (q.Fresh op)
  | .add pod => inferInstanceAs (Decidable (pod.uid ∉ q.uids))
  | .addUnschedulable info => inferInstanceAs (Decidable (info.uid ∉ q.uids))
  | .addUnschedulableIfNotPresent info _ _ => inferInstanceAs (Decidable (info.uid ∉ q.promptUids))
  | .pop | .moveAll .. | .flushBackoff _ | .flushLeftover _ => .isTrue trivial

theorem step_keeps {op : Op} (hop : op ≠ .pop) {uid : String} (huid : uid ∈ q.uids) :
    uid ∈ (q.step less op).uids := by
  cases op with
  | add pod => exact (pushActive_uids q { pod }).mem_iff.mpr (List.mem_cons_of_mem _ huid)
  | pop => exact absurd rfl hop
  | addUnschedulable info =>
    exact (pushBackoff_uids q _).mem_iff.mpr (List.mem_cons_of_mem _ huid)
  | addUnschedulableIfNotPresent info cycle nowMs =>
    rw [step]
    obtain ⟨_, -, heq⟩ | ⟨-, hperm⟩ := q.addUnschedulableIfNotPresent_uids info cycle nowMs
    · rw [heq]
      exact huid
    · exact hperm.mem_iff.mpr (List.mem_cons_of_mem _ huid)
  | moveAll event nowMs => exact (foldl_reactivate_uids q nowMs _).mem_iff.mpr huid
  | flushBackoff nowMs => exact (flushBackoff_uids q nowMs).mem_iff.mpr huid
  | flushLeftover nowMs => exact (foldl_reactivate_uids q nowMs _).mem_iff.mpr huid

theorem Filed.mem_iff (hfiled : q.Filed) (uid : String) :
    uid ∈ q.unschedulable.entries.map (·.2.uid) ↔ q.unschedulable.lookup uid ≠ none := by
  rw [List.mem_map]
  constructor
  · rintro ⟨e, he, rfl⟩
    have hlookup := Dict.mem_entries_iff.mp he
    rw [← hfiled _ _ hlookup, hlookup]
    exact Option.some_ne_none _
  · intro h
    obtain ⟨info, hinfo⟩ := Option.ne_none_iff_exists'.mp h
    exact ⟨⟨uid, info⟩, Dict.mem_entries_iff.mpr hinfo, (hfiled _ _ hinfo).symm⟩

theorem step_nodup_iff (hfiled : q.Filed) (h : q.uids.Nodup) (op : Op) :
    (q.step less op).uids.Nodup ↔ q.Fresh op := by
  cases op with
  | add pod =>
    rw [step, add, (pushActive_uids q { pod }).nodup_iff, List.nodup_cons]
    exact and_iff_left h
  | pop =>
    have hpop := ((pop_uids less q).nodup_iff.mp h).of_append_right
    exact iff_of_true hpop trivial
  | addUnschedulable info =>
    rw [step, addUnschedulable, (pushBackoff_uids q _).nodup_iff, List.nodup_cons]
    exact and_iff_left h
  | addUnschedulableIfNotPresent info cycle nowMs =>
    have hmem : info.uid ∈ q.unschedulable.entries.map (·.2.uid) ↔ _ := hfiled.mem_iff info.uid
    rw [step, Fresh]
    obtain ⟨_, hparked, heq⟩ | ⟨habsent, hperm⟩ :=
      q.addUnschedulableIfNotPresent_uids info cycle nowMs
    -- a parked pod does not wait elsewhere, as it would wait twice
    · rw [heq]
      refine iff_of_true h fun hprompt => ?_
      exact (List.disjoint_of_nodup_append h) hprompt
        (hmem.mpr (hparked ▸ Option.some_ne_none _))
    · rw [hperm.nodup_iff, List.nodup_cons, and_iff_left h, uids, List.mem_append, not_or]
      exact and_iff_left fun hparked => hmem.mp hparked habsent
  | moveAll event nowMs =>
    exact iff_of_true ((foldl_reactivate_uids q nowMs _).nodup_iff.mpr h) trivial
  | flushBackoff nowMs => exact iff_of_true ((flushBackoff_uids q nowMs).nodup_iff.mpr h) trivial
  | flushLeftover nowMs =>
    exact iff_of_true ((foldl_reactivate_uids q nowMs _).nodup_iff.mpr h) trivial

theorem reactivate_filed (hfiled : q.Filed) (nowMs : Nat) (key : String) :
    (q.reactivate nowMs key).Filed := by
  unfold reactivate
  split
  · exact hfiled
  · dsimp only
    split <;> exact hfiled.erase key

theorem foldl_reactivate_filed (hfiled : q.Filed) (nowMs : Nat) (keys : List String) :
    (keys.foldl (reactivate nowMs) q).Filed := by
  induction keys generalizing q with
  | nil => exact hfiled
  | cons key keys ih => exact ih (reactivate_filed hfiled nowMs key)

theorem foldl_pushActive_unschedulable (q : PriorityQueue) (infos : List QueuedPodInfo) :
    (infos.foldl pushActive q).unschedulable = q.unschedulable := by
  induction infos generalizing q with
  | nil => rfl
  | cons info infos ih => exact ih _

theorem step_filed (hfiled : q.Filed) (op : Op) : (q.step less op).Filed := by
  cases op with
  | add pod => exact hfiled
  | pop =>
    rw [step, pop]
    dsimp only
    split <;> exact hfiled
  | addUnschedulable info => exact hfiled
  | addUnschedulableIfNotPresent info cycle nowMs =>
    rw [step]
    obtain ⟨-, -, heq⟩ | ⟨-, ⟨-, heq⟩ | ⟨-, heq⟩⟩ :=
      q.addUnschedulableIfNotPresent_cases info cycle nowMs
    · rw [heq]
      exact hfiled
    · rw [heq]
      exact hfiled
    · rw [heq]
      exact hfiled.insert rfl
  | moveAll event nowMs => exact foldl_reactivate_filed hfiled nowMs _
  | flushBackoff nowMs =>
    rw [step, Filed, flushBackoff, foldl_pushActive_unschedulable]
    exact hfiled
  | flushLeftover nowMs => exact foldl_reactivate_filed hfiled nowMs _

theorem Run.filed {cond : PriorityQueue → Op → Prop} {ops : List Op}
    (hrun : Run less cond {} ops q) : q.Filed := by
  induction hrun with
  | start => exact Dict.all_empty
  | call _ op _ ih => exact step_filed ih op
  | reorder _ horder ih => exact ih.of_lookup_eq horder.lookup_eq

theorem Run.nodup {ops : List Op} (hrun : Run less Fresh {} ops q) : q.uids.Nodup := by
  induction hrun with
  | start => exact List.nodup_nil
  | call hrun op hfresh ih => exact (step_nodup_iff hrun.filed ih op).mpr hfresh
  | reorder _ horder ih => exact ((horder.map _).append_left _).nodup_iff.mp ih

/-- Only `pop` takes a pod out of the queue, and while each call brings in pods that do not wait
already no pod waits twice, which no other call would keep. -/
theorem tracked_once {ops : List Op} (hrun : Run less (fun _ _ => True) {} ops q) :
    (∀ op, op ≠ .pop → ∀ uid ∈ q.uids, uid ∈ (q.step less op).uids) ∧
    (Run less Fresh {} ops q →
      q.uids.Nodup ∧ ∀ op, (q.step less op).uids.Nodup ↔ q.Fresh op) := by
  refine ⟨fun op hop uid huid => step_keeps hop huid, fun hfresh => ⟨hfresh.nodup, ?_⟩⟩
  exact step_nodup_iff hrun.filed hfresh.nodup

/-- A pod that is taken, parked and moved again waits once. -/
theorem tracked_once_lamp :
    let lamp : Pod := { metadata := { name := "lamp", uid := "u1" } }
    let q := [Op.add lamp, .pop, .addUnschedulableIfNotPresent { pod := lamp } 1 5000,
      .moveAll wildCardEvent 9000].foldl (step prioritySort) {}
    q.uids.Nodup ∧ q.uids = ["u1"] := by
  intro lamp q
  have hrun : Run prioritySort Fresh {} _ q :=
    (((Run.start.call (.add lamp) (by decide)).call .pop (by decide)).call
      (.addUnschedulableIfNotPresent { pod := lamp } 1 5000) (by decide)).call
      (.moveAll wildCardEvent 9000) (by decide)
  have hany : Run prioritySort (fun _ _ => True) {} _ q :=
    (((Run.start.call (.add lamp) trivial).call .pop trivial).call
      (.addUnschedulableIfNotPresent { pod := lamp } 1 5000) trivial).call
      (.moveAll wildCardEvent 9000) trivial
  exact ⟨((tracked_once hany).2 hrun).1, by decide⟩

/-- A pod that is added again while it waits, waits twice. -/
theorem added_twice :
    let lamp : Pod := { metadata := { name := "lamp", uid := "u1" } }
    let q := [Op.add lamp, .add lamp].foldl (step prioritySort) {}
    Run prioritySort (fun _ _ => True) {} [.add lamp, .add lamp] q ∧ ¬ q.uids.Nodup := by
  intro lamp q
  exact ⟨(Run.start.call (.add lamp) trivial).call (.add lamp) trivial, by decide⟩

end PriorityQueue

end CaveHome.Scheduler
