import CaveHome.Scheduler.Cache

/-!
# Pods are counted once

Each call is described by what it does to the collection of the pods on all nodes.  A call that
puts a pod on a node does not look whether the pod is on a node already, so a pod that was assumed
is counted again when its binding is confirmed.
-/

namespace CaveHome.Scheduler

namespace NodeInfo

def uids (info : NodeInfo) : List String := info.pods.map (·.uid)

end NodeInfo

namespace SchedulerCache

variable {c : SchedulerCache} {name : String} {info : NodeInfo}

/-- The pods on the nodes, as often as they are there. -/
def podUids (c : SchedulerCache) : List String := c.nodes.entries.flatMap (·.2.uids)

theorem podUids_perm (h : c.nodes.lookup name = some info) :
    c.podUids.Perm (info.uids ++ (c.removeNode name).podUids) :=
  (Dict.entries_perm_cons_erase h).flatMap_right _

theorem removeNode_podUids (h : c.nodes.lookup name = none) :
    (c.removeNode name).podUids = c.podUids := by
  have hentries : (c.nodes.erase name).entries = c.nodes.entries :=
    List.kerase_of_notMem_keys (AList.lookup_eq_none.mp h)
  simp only [podUids, removeNode, hentries]

theorem insert_podUids (c : SchedulerCache) (name : String) (info : NodeInfo) :
    ({ c with nodes := c.nodes.insert name info } : SchedulerCache).podUids =
      info.uids ++ (c.removeNode name).podUids := by
  simp only [podUids, AList.entries_insert, List.flatMap_cons]
  rfl

theorem onNode_assumed (c : SchedulerCache) (name : String) (f : NodeInfo → NodeInfo) :
    (c.onNode name f).1.assumed = c.assumed := by
  obtain ⟨-, heq⟩ | ⟨_, -, heq⟩ := c.onNode_cases name f <;> rw [heq]

theorem onNode_addPod_podUids (pod : Pod) (h : c.nodes.lookup name = some info) :
    (c.onNode name (·.addPod pod)).1.podUids.Perm (pod.uid :: c.podUids) := by
  simp only [onNode, h]
  rw [insert_podUids, NodeInfo.uids, NodeInfo.addPod_pods, List.map_append, List.append_assoc]
  exact List.perm_middle.trans ((podUids_perm h).symm.cons _)

theorem onNode_removePod_nodup (name : String) (pod : Pod) (h : c.podUids.Nodup) :
    (c.onNode name (·.removePod pod)).1.podUids.Nodup := by
  obtain ⟨-, heq⟩ | ⟨info, hinfo, heq⟩ := c.onNode_cases name (·.removePod pod)
  · rw [heq]
    exact h
  · rw [heq, insert_podUids, NodeInfo.uids, NodeInfo.removePod_pods]
    have hall : (info.uids ++ (c.removeNode name).podUids).Nodup := (podUids_perm hinfo).nodup h
    exact hall.sublist ((List.eraseP_sublist.map _).append_right _)

theorem addNode_podUids (c : SchedulerCache) (node : Node) :
    (c.addNode node).podUids.Perm c.podUids := by
  rw [addNode, insert_podUids]
  cases h : c.nodes.lookup node.metadata.name with
  | none => rw [removeNode_podUids h]; exact .refl _
  | some info => exact (podUids_perm h).symm

theorem removeNode_nodup (name : String) (h : c.podUids.Nodup) :
    (c.removeNode name).podUids.Nodup := by
  cases hinfo : c.nodes.lookup name with
  | none => rwa [removeNode_podUids hinfo]
  | some info => exact ((podUids_perm hinfo).nodup h).of_append_right

/-! ## What a call brings in -/

/-- The pod that the call puts on a node. -/
def brings (c : SchedulerCache) : Op → Option String
  | .addPod pod =>
    if pod.spec.nodeName ≠ "" ∧ (c.nodes.lookup pod.spec.nodeName).isSome then some pod.uid else none
  | .assumePod pod nodeName =>
    if c.isAssumed pod.uid = false ∧ (c.nodes.lookup nodeName).isSome then some pod.uid else none
  | _ => none

/-- The call says that the pod is on the node it was assumed on. -/
def Confirms (c : SchedulerCache) (op : Op) (uid : String) : Prop :=
  ∃ pod assumed, op = .addPod pod ∧ c.brings op = some uid ∧ c.assumed.lookup uid = some assumed ∧
    assumed.spec.nodeName = pod.spec.nodeName

theorem step_podUids (c : SchedulerCache) (op : Op) :
    (∃ uid, c.brings op = some uid ∧ (c.step op).podUids.Perm (uid :: c.podUids)) ∨
    (c.brings op = none ∧ (c.podUids.Nodup → (c.step op).podUids.Nodup)) := by
  cases op with
  | addNode node | updateNode node =>
    exact .inr ⟨rfl, (addNode_podUids c node).nodup_iff.mpr⟩
  | removeNode name => exact .inr ⟨rfl, removeNode_nodup name⟩
  | addPod pod =>
    by_cases hempty : pod.spec.nodeName = ""
    · exact .inr ⟨by simp [brings, hempty], by simp [step, addPod, hempty]⟩
    have hstep : c.step (.addPod pod) = (c.onNode pod.spec.nodeName (·.addPod pod)).1 := by
      simp [step, addPod, hempty]
    rw [hstep]
    cases hinfo : c.nodes.lookup pod.spec.nodeName with
    | none => exact .inr ⟨by simp [brings, hinfo], by simp [onNode, hinfo]⟩
    | some info =>
      exact .inl ⟨pod.uid, by simp [brings, hinfo, hempty], onNode_addPod_podUids pod hinfo⟩
  | removePod pod =>
    refine .inr ⟨rfl, fun h => ?_⟩
    rw [step, removePod]
    split
    · exact h
    · exact onNode_removePod_nodup _ pod h
  | assumePod pod nodeName =>
    cases hassumed : c.assumed.lookup pod.uid with
    | some p =>
      exact .inr ⟨by simp [brings, isAssumed, hassumed], by simp [step, assumePod, hassumed]⟩
    | none =>
      cases hinfo : c.nodes.lookup nodeName with
      | none =>
        exact .inr ⟨by simp [brings, hinfo], by simp [step, assumePod, hassumed, onNode, hinfo]⟩
      | some info =>
        refine .inl ⟨pod.uid, by simp [brings, isAssumed, hassumed, hinfo], ?_⟩
        have hadd := onNode_addPod_podUids (pod.onto nodeName) hinfo
        simp only [onNode, hinfo] at hadd
        simp only [step, assumePod, hassumed, onNode, hinfo, Option.isSome_none,
          Bool.false_eq_true, if_false]
        exact hadd
  | forgetPod uid =>
    refine .inr ⟨rfl, fun h => ?_⟩
    rw [step, forgetPod]
    split
    · exact h
    next pod _ =>
      exact onNode_removePod_nodup (c := { c with assumed := c.assumed.erase uid }) _ pod h

theorem Confirms.step_isAssumed {op : Op} {uid : String} (h : c.Confirms op uid) :
    (c.step op).isAssumed uid := by
  obtain ⟨pod, assumed, rfl, -, hassumed, -⟩ := h
  have hsame : (c.step (.addPod pod)).assumed = c.assumed := by
    rw [step, addPod]
    split
    · rfl
    · exact onNode_assumed c _ _
  rw [isAssumed, hsame, hassumed]
  rfl

/-! ## Whole runs -/

/-- The call brings in no pod that is on a node and confirms none. -/
def Counted (c : SchedulerCache) (op : Op) : Prop :=
  (∀ uid, c.brings op = some uid → uid ∉ c.podUids) ∧ ∀ uid, ¬ c.Confirms op uid

theorem counted_of_brings_none {op : Op} (h : c.brings op = none) : c.Counted op := by
  refine ⟨fun uid hsome => ?_, ?_⟩
  · rw [h] at hsome
    cases hsome
  · rintro uid ⟨_, _, -, hsome, -⟩
    rw [h] at hsome
    cases hsome

theorem counted_of_absent {op : Op} {uid : String} (hbrings : c.brings op = some uid)
    (habsent : uid ∉ c.podUids) (hassumed : c.assumed.lookup uid = none) : c.Counted op := by
  refine ⟨fun uid' hsome => ?_, ?_⟩
  · obtain rfl := Option.some.inj (hbrings.symm.trans hsome)
    exact habsent
  · rintro uid' ⟨_, _, -, hsome, hlookup, -⟩
    obtain rfl := Option.some.inj (hbrings.symm.trans hsome)
    rw [hassumed] at hlookup
    cases hlookup

theorem step_counted_iff (h : c.podUids.Nodup) (op : Op) :
    ((c.step op).podUids.Nodup ∧ ∀ uid, c.Confirms op uid → ¬ (c.step op).isAssumed uid) ↔
      c.Counted op := by
  refine and_congr ?_ (forall_congr' fun uid => ?_)
  · obtain ⟨uid, hbrings, hperm⟩ | ⟨hnone, hkeep⟩ := c.step_podUids op
    · rw [hperm.nodup_iff, List.nodup_cons, and_iff_left h, hbrings]
      simp
    · rw [hnone]
      exact iff_of_true (hkeep h) fun uid hsome => nomatch hsome
  · exact ⟨fun himp hconfirms => himp hconfirms hconfirms.step_isAssumed,
      fun hnot hconfirms => absurd hconfirms hnot⟩

theorem Run.nodup {ops : List Op} (hrun : Run Counted ops c) : c.podUids.Nodup := by
  induction hrun with
  | start => exact List.nodup_nil
  | call _ op hcounted ih => exact ((step_counted_iff ih op).mpr hcounted).1

/-- While each call brings in pods that are on no node and confirms none, no pod is counted twice,
and the next call keeps that, and leaves no confirmed pod assumed, exactly if it does the same. -/
theorem counted_once {ops : List Op} (hrun : Run Counted ops c) :
    c.podUids.Nodup ∧
    ∀ op, ((c.step op).podUids.Nodup ∧ ∀ uid, c.Confirms op uid → ¬ (c.step op).isAssumed uid) ↔
      c.Counted op :=
  ⟨hrun.nodup, step_counted_iff hrun.nodup⟩

/-- An assumption that is withdrawn, and a binding that is seen later. -/
theorem counted_once_lamp :
    let lamp : Pod := { metadata := { name := "lamp", uid := "u1" } }
    let c := [Op.addNode { metadata := { name := "hub" } }, .assumePod lamp "hub", .forgetPod "u1",
      .addPod (lamp.onto "hub")].foldl step {}
    c.podUids.Nodup ∧ c.podUids = ["u1"] := by
  intro lamp c
  have hnode : Run Counted _ _ :=
    Run.start.call (.addNode { metadata := { name := "hub" } }) (counted_of_brings_none rfl)
  have hassume := hnode.call (.assumePod lamp "hub")
    (counted_of_absent (by decide : _ = some "u1") (by decide) (by decide))
  have hforget := hassume.call (.forgetPod "u1") (counted_of_brings_none rfl)
  have hrun : Run Counted _ c := hforget.call (.addPod (lamp.onto "hub"))
    (counted_of_absent (by decide : _ = some "u1") (by decide) (by decide))
  exact ⟨(counted_once hrun).1, by decide⟩

/-- A pod that is assumed on a node is counted again when it is seen there, and stays assumed. -/
theorem confirmed_counted_twice :
    let lamp : Pod := { metadata := { name := "lamp", uid := "u1" } }
    let ops := [Op.addNode { metadata := { name := "hub" } }, .assumePod lamp "hub",
      .addPod (lamp.onto "hub")]
    let c := ops.foldl step {}
    Run (fun _ _ => True) ops c ∧ ¬ c.podUids.Nodup ∧ c.isAssumed "u1" := by
  intro lamp ops c
  have hrun : Run (fun _ _ => True) ops c :=
    ((Run.start.call (.addNode { metadata := { name := "hub" } }) trivial).call
      (.assumePod lamp "hub") trivial).call (.addPod (lamp.onto "hub")) trivial
  exact ⟨hrun, by decide, by decide⟩

end SchedulerCache

end CaveHome.Scheduler
