import CaveHome.Kubelet.Recovery
import Mathlib.Data.List.Dedup

/-!
# The decision core

The pure decision which containers to start and to kill, and how far the pod worker decides the
same.  The core sees one status for each name, with an exit code; the worker sees all containers
that were ever created in the sandbox, without one.
-/

namespace CaveHome.Kubelet

/-! ## The core -/

/-- Whether a container that has terminated is to be started again. -/
def shouldRestart (policy : RestartPolicy) (lastExitCode : Int) : Bool :=
  match policy with
  | .always => true
  | .onFailure => lastExitCode ≠ 0
  | .never => false

inductive SyncAction
  | start (name : String)
  | kill (name : String)
deriving DecidableEq

/-- Whether a container of the spec is started. -/
def startsDesired (policy : RestartPolicy) (observed : List ContainerStatus) (c : Container) :
    Bool :=
  match observed.find? (·.name == c.name) with
  | none => true
  | some status =>
    match status.state with
    | .running | .waiting => false
    | .terminated exitCode => shouldRestart policy exitCode

/-- Whether an observed container is killed. -/
def killsObserved (desired : PodSpec) (status : ContainerStatus) : Bool :=
  !(desired.containers.any (·.name == status.name)) && status.state == .running

def computeActions (desired : PodSpec) (observed : List ContainerStatus) : List SyncAction :=
  (desired.containers.filter (startsDesired desired.restartPolicy observed)).map (.start ·.name) ++
    (observed.filter (killsObserved desired)).map (.kill ·.name)

/-! ## What the core sees of the runtime -/

/-- The most recent container with the name; containers are listed in the order of creation. -/
def latest (cs : List Cri.Container) (name : String) : Option Cri.Container :=
  (cs.filter (·.metadata.name == name)).getLast?

def observedState (c : Cri.Container) : ContainerState :=
  match c.state with
  | .running => .running
  | .exited => .terminated c.exitCode
  | .created | .unknown => .waiting

/-- One status for each name, that of the most recent container. -/
def observe (cs : List Cri.Container) : List ContainerStatus :=
  (cs.map (·.metadata.name)).dedup.filterMap fun name =>
    (latest cs name).map fun c => ⟨name, observedState c⟩

theorem mem_of_latest {cs : List Cri.Container} {name : String} {c : Cri.Container}
    (h : latest cs name = some c) : c ∈ cs ∧ c.metadata.name = name := by
  have hmem := List.mem_of_getLast? h
  obtain ⟨hc, hname⟩ := List.mem_filter.1 hmem
  exact ⟨hc, by simpa using hname⟩

theorem latest_eq_none {cs : List Cri.Container} {name : String} :
    latest cs name = none ↔ ∀ c ∈ cs, c.metadata.name ≠ name := by
  simp [latest]

theorem find?_filterMap_name {g : String → Option ContainerStatus}
    (hg : ∀ n s, g n = some s → s.name = n) (name : String) : ∀ names : List String,
      (names.filterMap g).find? (·.name == name) = if name ∈ names then g name else none
  | [] => rfl
  | n :: names => by
    have ih := find?_filterMap_name hg name names
    cases hn : g n with
    | none =>
      rw [List.filterMap_cons_none hn, ih]
      by_cases heq : name = n
      · subst heq
        simp [hn]
      · simp [heq]
    | some s =>
      rw [List.filterMap_cons_some hn, List.find?_cons]
      by_cases heq : n = name
      · subst heq
        simp [hg n s hn, hn]
      · have hs : (s.name == name) = false := by simpa [hg n s hn] using heq
        simp [hs, ih, Ne.symm heq]

theorem find?_observe (cs : List Cri.Container) (name : String) :
    (observe cs).find? (·.name == name) =
      (latest cs name).map fun c => ⟨name, observedState c⟩ := by
  have hg : ∀ n s, ((latest cs n).map fun c => (⟨n, observedState c⟩ : ContainerStatus)) = some s →
      s.name = n := by
    intro n s h
    obtain ⟨c, -, rfl⟩ := Option.map_eq_some_iff.1 h
    rfl
  unfold observe
  rw [find?_filterMap_name hg]
  split
  · rfl
  · rename_i hnot
    have hnone : latest cs name = none := latest_eq_none.2 fun c hc hname =>
      hnot (List.mem_dedup.2 (List.mem_map.2 ⟨c, hc, hname⟩))
    rw [hnone]
    rfl

theorem mem_observe {cs : List Cri.Container} {s : ContainerStatus} :
    s ∈ observe cs ↔ ∃ c, latest cs s.name = some c ∧ s.state = observedState c := by
  unfold observe
  rw [List.mem_filterMap]
  constructor
  · rintro ⟨n, -, h⟩
    obtain ⟨c, hc, rfl⟩ := Option.map_eq_some_iff.1 h
    exact ⟨c, hc, rfl⟩
  · rintro ⟨c, hc, hstate⟩
    obtain ⟨hmem, hname⟩ := mem_of_latest hc
    refine ⟨s.name, List.mem_dedup.2 (List.mem_map.2 ⟨c, hmem, hname⟩), ?_⟩
    rw [hc, Option.map_some, ← hstate]

/-! ## What the worker does -/

/-- The names of the containers with the identifiers. -/
def namesOf (c : Cri) (ids : List Nat) : List String :=
  ids.filterMap fun id => (c.container? id).map (·.metadata.name)

def startNames (actions : List SyncAction) : List String :=
  actions.filterMap fun
    | .start name => some name
    | .kill _ => none

def killNames (actions : List SyncAction) : List String :=
  actions.filterMap fun
    | .start _ => none
    | .kill name => some name

/-- The worker has started and killed the containers that the core asks for. -/
def AgreesWith (out : SyncOutcome) (c : Cri) (actions : List SyncAction) : Prop :=
  namesOf c out.startedContainers = startNames actions ∧
    ∀ name, name ∈ namesOf c out.killedContainers ↔ name ∈ killNames actions

theorem startNames_computeActions (desired : PodSpec) (observed : List ContainerStatus) :
    startNames (computeActions desired observed) =
      (desired.containers.filter (startsDesired desired.restartPolicy observed)).map (·.name) := by
  have hstart : ∀ cs : List Container, startNames (cs.map (.start ·.name)) = cs.map (·.name) := by
    intro cs
    simp [startNames, List.filterMap_map]
  have hkill : ∀ ss : List ContainerStatus, startNames (ss.map (.kill ·.name)) = [] := by
    intro ss
    simp [startNames, List.filterMap_map]
  unfold computeActions
  show List.filterMap _ (_ ++ _) = _
  rw [List.filterMap_append]
  show startNames _ ++ startNames _ = _
  rw [hstart, hkill, List.append_nil]

theorem mem_killNames {desired : PodSpec} {cs : List Cri.Container} {name : String} :
    name ∈ killNames (computeActions desired (observe cs)) ↔
      name ∉ desired.names ∧ ∃ c, latest cs name = some c ∧ c.state = .running := by
  have hstate : ∀ c : Cri.Container, observedState c = .running ↔ c.state = .running := by
    intro c
    unfold observedState
    cases c.state <;> simp
  have hmem : name ∈ killNames (computeActions desired (observe cs)) ↔
      ∃ s ∈ observe cs, killsObserved desired s = true ∧ s.name = name := by
    simp [killNames, computeActions, and_assoc]
  have hkills : ∀ s, killsObserved desired s = true ↔ s.name ∉ desired.names ∧ s.state = .running := by
    intro s
    simp [killsObserved, PodSpec.names]
  rw [hmem]
  constructor
  · rintro ⟨s, hs, hk, rfl⟩
    obtain ⟨c, hc, hcs⟩ := mem_observe.1 hs
    obtain ⟨hnot, hrun⟩ := (hkills s).1 hk
    exact ⟨hnot, c, hc, (hstate c).1 (hcs.symm.trans hrun)⟩
  · rintro ⟨hnot, c, hc, hrun⟩
    refine ⟨⟨name, observedState c⟩, mem_observe.2 ⟨c, hc, rfl⟩, ?_, rfl⟩
    exact (hkills _).2 ⟨hnot, (hstate c).2 hrun⟩

/-! ## When the two agree -/

/-- A container of the list has the name and the state. -/
def Among (cs : List Cri.Container) (name : String) (state : Cri.ContainerState) : Prop :=
  ∃ c ∈ cs, c.metadata.name = name ∧ c.state = state

/-- A container with the name runs or waits to be started. -/
def Live (cs : List Cri.Container) (name : String) : Prop :=
  Among cs name .running ∨ Among cs name .created

/-- Under the name older containers and the exit code do not mislead the worker.  For a container of
the spec whose most recent container has exited: no older one is live if it is to be restarted, and
one is if it is not, unless the policy is `Never`; where the state of the most recent one is
unknown, an older one keeps the worker from starting another.  For any other name: where a
container runs, the most recent one does. -/
def SameDecision (spec : PodSpec) (cs : List Cri.Container) (name : String) : Prop :=
  if name ∈ spec.names then
    ∀ c, latest cs name = some c →
      (c.state = .exited →
        match spec.restartPolicy with
        | .always => ¬ Live cs name
        | .onFailure => (c.exitCode = 0 ↔ Live cs name)
        | .never => True) ∧
      (c.state = .unknown →
        Live cs name ∨ (Among cs name .exited ∧ spec.restartPolicy = .never))
  else Among cs name .running → ∃ c, latest cs name = some c ∧ c.state = .running

theorem any_among {cs : List Cri.Container} {name : String} {state : Cri.ContainerState} :
    (cs.any fun c => c.metadata.name == name && c.state == state) = true ↔ Among cs name state := by
  simp [Among]

theorem computeContainerAction_eq_create {d : Container} {cs : List Cri.Container}
    {policy : RestartPolicy} : computeContainerAction d cs policy = .create ↔
      ¬ Live cs d.name ∧ (Among cs d.name .exited → policy ≠ .never) := by
  unfold Live
  rw [← any_among, ← any_among, ← any_among]
  unfold computeContainerAction
  simp only []
  split_ifs <;> cases policy <;> simp_all

theorem startsDesired_observe {d : Container} {cs : List Cri.Container} {policy : RestartPolicy} :
    startsDesired policy (observe cs) d = true ↔
      ∀ c, latest cs d.name = some c → c.state = .exited ∧ shouldRestart policy c.exitCode := by
  unfold startsDesired
  rw [find?_observe]
  cases h : latest cs d.name with
  | none => simp
  | some c =>
    simp only [Option.map_some, observedState, Option.some.injEq, forall_eq']
    cases c.state <;> simp

theorem decision_iff {spec : PodSpec} {cs : List Cri.Container} {d : Container}
    (hd : d ∈ spec.containers) :
    (computeContainerAction d cs spec.restartPolicy = .create ↔
        startsDesired spec.restartPolicy (observe cs) d = true) ↔ SameDecision spec cs d.name := by
  have hname : d.name ∈ spec.names := List.mem_map_of_mem hd
  rw [computeContainerAction_eq_create, startsDesired_observe]
  unfold SameDecision
  rw [if_pos hname]
  cases h : latest cs d.name with
  | none =>
    have hno : ∀ state, ¬ Among cs d.name state := by
      rintro state ⟨c, hc, hcname, -⟩
      exact latest_eq_none.1 h c hc hcname
    simp [Live, hno]
  | some c =>
    obtain ⟨hc, hcname⟩ := mem_of_latest h
    have hamong : Among cs d.name c.state := ⟨c, hc, hcname, rfl⟩
    simp only [Option.some.injEq, forall_eq']
    cases hstate : c.state with
    | running =>
      have hlive : Live cs d.name := .inl (hstate ▸ hamong)
      simp [hlive]
    | created =>
      have hlive : Live cs d.name := .inr (hstate ▸ hamong)
      simp [hlive]
    | exited =>
      have hexited : Among cs d.name .exited := hstate ▸ hamong
      cases spec.restartPolicy with
      | always => simp [shouldRestart]
      | onFailure =>
        by_cases hlive : Live cs d.name <;> simp [shouldRestart, hlive]
      | never => simp [shouldRestart, hexited]
    | unknown =>
      by_cases hlive : Live cs d.name
      · simp [hlive]
      · simp [hlive]

/-! ## A sync and the core -/

theorem filter_names_eq_iff {cs : List Container} (hnodup : (cs.map (·.name)).Nodup)
    {p q : Container → Bool} :
    (cs.filter p).map (·.name) = (cs.filter q).map (·.name) ↔
      ∀ c ∈ cs, (p c = true ↔ q c = true) := by
  have hone : ∀ {p q : Container → Bool},
      (cs.filter p).map (·.name) = (cs.filter q).map (·.name) → ∀ c ∈ cs, p c → q c := by
    intro p q h c hc hp
    have hmem : c.name ∈ (cs.filter q).map (·.name) :=
      h ▸ List.mem_map_of_mem (List.mem_filter.2 ⟨hc, hp⟩)
    obtain ⟨d, hd, hname⟩ := List.mem_map.1 hmem
    obtain ⟨hd, hq⟩ := List.mem_filter.1 hd
    rwa [List.inj_on_of_nodup_map hnodup hd hc hname] at hq
  constructor
  · exact fun h c hc => ⟨hone h c hc, hone h.symm c hc⟩
  · intro h
    congr 1
    apply List.filter_congr
    intro c hc
    rw [Bool.eq_iff_iff]
    exact h c hc

theorem namesOf_map {c : Cri} : ∀ {xs : List Cri.Container},
    (∀ x ∈ xs, ∃ y ∈ c.containers, y.id = x.id ∧ y.metadata.name = x.metadata.name) →
      namesOf c (xs.map (·.id)) = xs.map (·.metadata.name)
  | [], _ => rfl
  | x :: xs, h => by
    obtain ⟨y, hy, hid, hname⟩ := h x List.mem_cons_self
    have hfind : c.container? x.id = some y := by
      unfold Cri.container?
      cases hf : c.containers.find? fun z => z.id = x.id with
      | none =>
        have hne := List.find?_eq_none.1 hf y hy
        simp [hid] at hne
      | some z =>
        have hz : z.id = x.id := by simpa using List.find?_some hf
        rw [List.inj_on_of_nodup_map c.container_ids (List.mem_of_find?_eq_some hf) hy
          (hz.trans hid.symm)]
    have ih := namesOf_map fun z hz => h z (List.mem_cons_of_mem x hz)
    unfold namesOf at ih ⊢
    rw [List.map_cons, List.filterMap_cons_some (by rw [hfind, Option.map_some]), ih, hname,
      List.map_cons]

/-- The worker's sync, in a sandbox in use and without failing calls, starts and kills what the core
asks for if and only if no name misleads it. -/
theorem sync_agrees_iff {pod : Pod} (hnodup : pod.spec.names.Nodup) {w : World} {id : Nat}
    (halive : Alive w) (huse : InUse w id) :
    ∃ out w', syncWorker pod .sync [] w = (.ok out, w', []) ∧
      (AgreesWith out w'.cri (computeActions pod.spec (observe (w.cri.listed id))) ↔
        ∀ name, SameDecision pod.spec (w.cri.listed id) name) := by
  obtain ⟨out, w', new, hrun, h⟩ := doSync_synced pod halive huse
  refine ⟨out, w', hrun, ?_⟩
  -- a container keeps its identifier and its name
  have hkept : ∀ x ∈ w.cri.containers ++ new, ∃ y ∈ w'.cri.containers, y.id = x.id ∧
      y.metadata.name = x.metadata.name := by
    intro x hx
    rw [h.containers]
    refine ⟨_, List.mem_map_of_mem hx, ?_⟩
    split <;> exact ⟨rfl, rfl⟩
  have hstarted : namesOf w'.cri out.startedContainers =
      toCreate pod (w.cri.listed id) pod.spec.containers := by
    rw [h.started, namesOf_map fun x hx => hkept x (List.mem_append_right _ hx), h.names]
  have hkilled : ∀ name, name ∈ namesOf w'.cri out.killedContainers ↔
      name ∉ pod.spec.names ∧ Among (w.cri.listed id) name .running := by
    intro name
    have hlisted : ∀ x ∈ (w.cri.listed id).filter (isUndesired pod),
        x ∈ w.cri.containers ++ new := fun x hx => List.mem_append_left _
      ((mem_listed (listContainers_inSandbox w.cri id)).1 (List.mem_filter.1 hx).1).1
    rw [h.killed, namesOf_map fun x hx => hkept x (hlisted x hx)]
    constructor
    · intro hmem
      obtain ⟨x, hx, rfl⟩ := List.mem_map.1 hmem
      obtain ⟨hx, hund⟩ := List.mem_filter.1 hx
      simp only [isUndesired, Bool.and_eq_true, beq_iff_eq] at hund
      refine ⟨fun hspec => ?_, x, hx, rfl, hund.2⟩
      have hnot := not_isUndesired hspec
      simp [isUndesired, hund] at hnot
    · rintro ⟨hnot, x, hx, rfl, hrunning⟩
      exact List.mem_map_of_mem (List.mem_filter.2 ⟨hx, isUndesired_of_running hnot hrunning⟩)
  unfold AgreesWith
  rw [hstarted, startNames_computeActions]
  unfold toCreate
  rw [filter_names_eq_iff hnodup]
  constructor
  · rintro ⟨hstart, hkill⟩ name
    by_cases hname : name ∈ pod.spec.names
    · obtain ⟨d, hd, rfl⟩ := List.mem_map.1 hname
      exact (decision_iff hd).1 (by simpa using hstart d hd)
    · unfold SameDecision
      rw [if_neg hname]
      intro hrunning
      exact (mem_killNames.1 ((hkill name).1 ((hkilled name).2 ⟨hname, hrunning⟩))).2
  · intro hsame
    refine ⟨fun d hd => ?_, fun name => ?_⟩
    · simpa using (decision_iff hd).2 (hsame d.name)
    · rw [hkilled, mem_killNames]
      refine and_congr_right fun hnot => ⟨fun hrunning => ?_, ?_⟩
      · have hone := hsame name
        unfold SameDecision at hone
        rw [if_neg hnot] at hone
        exact hone hrunning
      · rintro ⟨c, hc, hrunning⟩
        obtain ⟨hmem, hcname⟩ := mem_of_latest hc
        exact ⟨c, hmem, hcname, hrunning⟩

/-- A pod whose container was to run once. -/
def oncePod : Pod :=
  ⟨⟨"job", "default", "u2", [], []⟩, ⟨[⟨"main", "busybox", [], []⟩], .onFailure⟩⟩

/-- The container has started, and then it has exited with the code. -/
def exitedWorld (code : Int) : World :=
  (World.start Cri.new).run [.call oncePod .sync [], .exited 2 code]

theorem inUse_exitedWorld (code : Int) : InUse (exitedWorld code) 1 :=
  ⟨rfl, ⟨1, ⟨"job", "u2", "default", 0⟩, .ready, 1, []⟩, rfl, rfl⟩

theorem sync_agrees_iff_demo :
    ∃ out w', syncWorker oncePod .sync [] (exitedWorld 1) = (.ok out, w', []) ∧
      (AgreesWith out w'.cri
          (computeActions oncePod.spec (observe ((exitedWorld 1).cri.listed 1))) ↔
        ∀ name, SameDecision oncePod.spec ((exitedWorld 1).cri.listed 1) name) :=
  sync_agrees_iff (by decide) (by show PodWorkerState.waiting ≠ _; decide) (inUse_exitedWorld 1)

/-- A container that exited with code 0 is started again by the worker, under a policy by which the
core leaves it alone. -/
theorem sync_restarts_success :
    ¬ ∀ (pod : Pod) (w : World) (id : Nat), pod.spec.names.Nodup → Alive w → InUse w id →
        ∀ out w', syncWorker pod .sync [] w = (.ok out, w', []) →
          AgreesWith out w'.cri (computeActions pod.spec (observe (w.cri.listed id))) := by
  intro h
  obtain ⟨hstart, -⟩ := h oncePod (exitedWorld 0) 1 (by decide)
    (by show PodWorkerState.waiting ≠ _; decide) (inUse_exitedWorld 0) ⟨some 1, [3], [3], []⟩
    (syncWorker oncePod .sync [] (exitedWorld 0)).2.1 (Prod.ext (by decide) rfl)
  exact absurd hstart (by decide)

end CaveHome.Kubelet
