import CaveHome.Kubelet.Cri
import CaveHome.Lib.Decoder
import Mathlib.Data.List.Forall2

/-!
# The status of a pod

The status that the kubelet publishes of a pod, from what the runtime lists, and the table of phases
that goes by the restart policy.  The published phase comes from three flags instead, which do not
know the policy.
-/

namespace CaveHome.Kubelet

/-! ## What is published -/

namespace Api

structure ContainerStateTerminated where
  exitCode : Int
  reason : String
  message : String
  startedAtMs : Nat
  finishedAtMs : Nat
deriving DecidableEq

inductive ContainerState
  | waiting (reason message : String)
  | running (startedAtMs : Nat)
  | terminated (t : ContainerStateTerminated)
deriving DecidableEq

structure ContainerStatus where
  name : String
  state : ContainerState
  image : String
  containerId : Option Nat
  ready : Bool
  restartCount : Int
deriving DecidableEq

inductive PodPhase
  | pending
  | running
  | succeeded
  | failed
  | unknown
deriving DecidableEq

structure PodStatus where
  phase : PodPhase
  message : String
  reason : String
  containerStatuses : List ContainerStatus
deriving DecidableEq

end Api

open Api

inductive ContainerOutcome
  | waiting
  | running
  | succeeded
  | failed
deriving DecidableEq

def classify (status : Api.ContainerStatus) (policy : RestartPolicy) : ContainerOutcome :=
  match status.state with
  | .waiting _ _ => .waiting
  | .running _ => .running
  | .terminated t =>
    match policy with
    | .always => .running
    | .onFailure => if t.exitCode = 0 then .succeeded else .running
    | .never => if t.exitCode = 0 then .succeeded else .failed

/-- The phase of a pod with so many containers in its spec. -/
def derivePhase (statuses : List Api.ContainerStatus) (expected : Nat) (policy : RestartPolicy) :
    PodPhase :=
  let count (o : ContainerOutcome) := statuses.countP fun s => classify s policy = o
  let waiting := (expected - statuses.length) + count .waiting
  let running := count .running
  let succeeded := count .succeeded
  let failed := count .failed
  if waiting + running + succeeded + failed = 0 then .succeeded
  else if 0 < running then .running
  else if 0 < waiting then
    if succeeded = 0 ∧ failed = 0 then .pending else .running
  else if 0 < failed then .failed
  else .succeeded

/-- What the runtime answers about one container. -/
structure Cri.ContainerStatus where
  startedAt : Int
  finishedAt : Int
  exitCode : Int
  reason : String
  message : String

/-- What the runtime says at one time; no two containers have one identifier. -/
structure Cri.Snapshot where
  containers : List Cri.Container
  containerStatus : Nat → Except Cri.CriError Cri.ContainerStatus
  nodup_ids : (containers.map (·.id)).Nodup

/-- The containers of a sandbox. -/
def Cri.Snapshot.listContainers (cri : Cri.Snapshot) (sandboxId : Nat) : List Cri.Container :=
  cri.containers.filter (·.podSandboxId == sandboxId)

/-! ## The published status -/

/-- What the loop over the containers of the spec keeps. -/
structure Composing where
  allRunning : Bool
  anyFailed : Bool
  allSucceeded : Bool
  containerStatuses : List Api.ContainerStatus

/-- The state that is published of a container of the runtime. -/
def apiState (c : Cri.Container) (st : Cri.ContainerStatus) : Api.ContainerState :=
  match c.state with
  | .running => .running st.startedAt.toNat
  | .exited =>
    .terminated {
      exitCode := st.exitCode
      reason := st.reason
      message := st.message
      startedAtMs := st.startedAt.toNat
      finishedAtMs := st.finishedAt.toNat }
  | .created | .unknown => .waiting "" ""

/-- The first container of the list with the name. -/
def firstNamed (criContainers : List Cri.Container) (name : String) : Option Cri.Container :=
  criContainers.find? (·.metadata.name == name)

/-- The status of one container of the spec. -/
def composeContainer (cri : Cri.Snapshot) (criContainers : List Cri.Container) (acc : Composing)
    (desired : Container) : Except Cri.CriError Composing := do
  match firstNamed criContainers desired.name with
  | some c =>
    let st ← cri.containerStatus c.id
    let acc : Composing := match c.state with
      | .running => { acc with allSucceeded := false }
      | .exited =>
        if st.exitCode ≠ 0 then
          { acc with allRunning := false, anyFailed := true, allSucceeded := false }
        else { acc with allRunning := false }
      | .created | .unknown => { acc with allRunning := false, allSucceeded := false }
    return { acc with
      containerStatuses := acc.containerStatuses ++ [{
        name := desired.name
        state := apiState c st
        image := desired.image
        containerId := some c.id
        ready := c.state == .running
        restartCount := 0 }] }
  | none =>
    return { acc with
      allRunning := false, allSucceeded := false
      containerStatuses := acc.containerStatuses ++ [{
        name := desired.name
        state := .waiting "" ""
        image := desired.image
        containerId := none
        ready := false
        restartCount := 0 }] }

def composeStatus (cri : Cri.Snapshot) (pod : Pod) (sandboxId : Option Nat) :
    Except Cri.CriError PodStatus := do
  let start : Composing :=
    ⟨pod.spec.containers ≠ [], false, pod.spec.containers ≠ [], []⟩
  let acc ← match sandboxId with
    | some sandboxId =>
      pod.spec.containers.foldlM (composeContainer cri (cri.listContainers sandboxId)) start
    | none => pure { start with allRunning := false, allSucceeded := false }
  let phase :=
    if acc.anyFailed then .failed
    else if acc.allSucceeded then .succeeded
    else if acc.allRunning then .running
    else .pending
  return ⟨phase, "", "", acc.containerStatuses⟩

/-! ## One container -/

/-- The status that is published of a container of the spec. -/
inductive Publishes (cri : Cri.Snapshot) (criContainers : List Cri.Container) (desired : Container) :
    Api.ContainerStatus → Prop
  | missing (h : firstNamed criContainers desired.name = none) :
    Publishes cri criContainers desired
      ⟨desired.name, .waiting "" "", desired.image, none, false, 0⟩
  | listed {c : Cri.Container} {st : Cri.ContainerStatus}
      (h : firstNamed criContainers desired.name = some c)
      (hst : cri.containerStatus c.id = .ok st) :
    Publishes cri criContainers desired
      ⟨desired.name, apiState c st, desired.image, some c.id, c.state == .running, 0⟩

/-- What a container has come to, when nothing is started again. -/
def outcome (s : Api.ContainerStatus) : ContainerOutcome := classify s .never

/-- A status is added to what the loop keeps. -/
def Composing.push (acc : Composing) (s : Api.ContainerStatus) : Composing where
  allRunning := acc.allRunning && outcome s = .running
  anyFailed := acc.anyFailed || outcome s = .failed
  allSucceeded := acc.allSucceeded && outcome s = .succeeded
  containerStatuses := acc.containerStatuses ++ [s]

theorem composeContainer_spec {cri : Cri.Snapshot} {criContainers : List Cri.Container}
    {acc acc' : Composing} {desired : Container}
    (h : composeContainer cri criContainers acc desired = .ok acc') :
    ∃ s, Publishes cri criContainers desired s ∧ acc' = acc.push s := by
  unfold composeContainer at h
  split at h
  next c hfirst =>
    obtain ⟨st, hst, h⟩ := Except.bind_eq_ok_iff.mp h
    refine ⟨_, .listed hfirst hst, ?_⟩
    cases h
    cases hstate : c.state with
    | running => simp [Composing.push, outcome, classify, apiState, hstate]
    | created => simp [Composing.push, outcome, classify, apiState, hstate]
    | unknown => simp [Composing.push, outcome, classify, apiState, hstate]
    | exited =>
      by_cases hcode : st.exitCode = 0 <;>
        simp [Composing.push, outcome, classify, apiState, hstate, hcode]
  next hfirst =>
    refine ⟨_, .missing hfirst, ?_⟩
    cases h
    simp [Composing.push, outcome, classify]

theorem composeContainers_spec {cri : Cri.Snapshot} {criContainers : List Cri.Container}
    {desired : List Container} {acc acc' : Composing}
    (h : desired.foldlM (composeContainer cri criContainers) acc = .ok acc') :
    ∃ new, List.Forall₂ (Publishes cri criContainers) desired new ∧
      acc'.containerStatuses = acc.containerStatuses ++ new ∧
      acc'.allRunning = (acc.allRunning && new.all (outcome · = .running)) ∧
      acc'.anyFailed = (acc.anyFailed || new.any (outcome · = .failed)) ∧
      acc'.allSucceeded = (acc.allSucceeded && new.all (outcome · = .succeeded)) := by
  induction desired generalizing acc with
  | nil =>
    cases h
    exact ⟨[], .nil, by simp, by simp, by simp, by simp⟩
  | cons d desired ih =>
    rw [List.foldlM_cons] at h
    obtain ⟨acc₁, hstep, hrest⟩ := Except.bind_eq_ok_iff.mp h
    obtain ⟨s, hs, rfl⟩ := composeContainer_spec hstep
    obtain ⟨new, hnew, hstatuses, hrunning, hfailed, hsucceeded⟩ := ih hrest
    refine ⟨s :: new, .cons hs hnew, ?_, ?_, ?_, ?_⟩
    · rw [hstatuses, Composing.push, List.append_assoc, List.singleton_append]
    · rw [hrunning, Composing.push, List.all_cons, Bool.and_assoc]
    · rw [hfailed, Composing.push, List.any_cons, Bool.or_assoc]
    · rw [hsucceeded, Composing.push, List.all_cons, Bool.and_assoc]

/-! ## Two computations of the phase -/

/-- The phase by the flags. -/
def flagPhase (statuses : List Api.ContainerStatus) : PodPhase :=
  if statuses.any (outcome · = .failed) then .failed
  else if statuses.all (outcome · = .succeeded) then .succeeded
  else if statuses.all (outcome · = .running) then .running
  else .pending

/-- All containers run, all wait, or all have ended in a way that the policy takes as the end. -/
def Uniform (statuses : List Api.ContainerStatus) (policy : RestartPolicy) : Prop :=
  (∀ s ∈ statuses, outcome s = .running) ∨
  (∀ s ∈ statuses, outcome s = .waiting) ∨
  (policy ≠ .always ∧ ∀ s ∈ statuses, outcome s = .succeeded) ∨
  (policy = .never ∧ ∀ s ∈ statuses, outcome s = .succeeded ∨ outcome s = .failed)

/-- What the policy makes of an outcome. -/
def restarted : RestartPolicy → ContainerOutcome → ContainerOutcome
  | .always, .succeeded | .always, .failed | .onFailure, .failed => .running
  | _, o => o

theorem classify_eq (s : Api.ContainerStatus) (policy : RestartPolicy) :
    classify s policy = restarted policy (outcome s) := by
  unfold outcome classify
  cases s.state with
  | waiting => cases policy <;> rfl
  | running => cases policy <;> rfl
  | terminated t => by_cases hcode : t.exitCode = 0 <;> cases policy <;> simp [hcode, restarted]

section Seen

variable {statuses : List Api.ContainerStatus} {policy : RestartPolicy}

/-- Some container has come to this. -/
def seen (statuses : List Api.ContainerStatus) (o : ContainerOutcome) : Bool :=
  statuses.any (outcome · = o)

theorem seen_iff {o : ContainerOutcome} : seen statuses o = true ↔ ∃ s ∈ statuses, outcome s = o := by
  simp [seen]

theorem count_pos_iff {o : ContainerOutcome} :
    0 < statuses.countP (fun s => classify s policy = o) ↔
      ∃ o', seen statuses o' = true ∧ restarted policy o' = o := by
  rw [List.countP_pos_iff]
  simp only [decide_eq_true_eq, classify_eq]
  constructor
  · rintro ⟨s, hs, heq⟩
    exact ⟨_, seen_iff.mpr ⟨s, hs, rfl⟩, heq⟩
  · rintro ⟨o', ho', heq⟩
    obtain ⟨s, hs, rfl⟩ := seen_iff.mp ho'
    exact ⟨s, hs, heq⟩

theorem exists_outcome_iff {p : ContainerOutcome → Prop} :
    (∃ o, p o) ↔ p .waiting ∨ p .running ∨ p .succeeded ∨ p .failed := by
  constructor
  · rintro ⟨o, ho⟩
    cases o with
    | waiting => exact .inl ho
    | running => exact .inr (.inl ho)
    | succeeded => exact .inr (.inr (.inl ho))
    | failed => exact .inr (.inr (.inr ho))
  · rintro (h | h | h | h)
    · exact ⟨_, h⟩
    · exact ⟨_, h⟩
    · exact ⟨_, h⟩
    · exact ⟨_, h⟩

/-- The phase of the table, by which outcomes there are. -/
def tablePhase (waiting running succeeded failed : Bool) : PodPhase :=
  if running then .running
  else if waiting then (if succeeded || failed then .running else .pending)
  else if failed then .failed
  else .succeeded

/-- Whether there is an outcome that the policy takes as this one. -/
def seenUnder (statuses : List Api.ContainerStatus) (policy : RestartPolicy)
    (o : ContainerOutcome) : Bool :=
  (seen statuses .waiting && restarted policy .waiting = o) ||
  (seen statuses .running && restarted policy .running = o) ||
  (seen statuses .succeeded && restarted policy .succeeded = o) ||
  (seen statuses .failed && restarted policy .failed = o)

theorem count_eq_zero_iff {o : ContainerOutcome} :
    statuses.countP (fun s => classify s policy = o) = 0 ↔ seenUnder statuses policy o = false := by
  have hpos := @count_pos_iff statuses policy o
  rw [exists_outcome_iff] at hpos
  have hunder : seenUnder statuses policy o = true ↔
      0 < statuses.countP (fun s => classify s policy = o) := by
    rw [hpos]
    simp [seenUnder, or_assoc]
  rw [← Bool.not_eq_true, hunder, Nat.not_lt, Nat.le_zero]

theorem derivePhase_eq (hne : statuses ≠ []) :
    derivePhase statuses statuses.length policy =
      tablePhase (seenUnder statuses policy .waiting) (seenUnder statuses policy .running)
        (seenUnder statuses policy .succeeded) (seenUnder statuses policy .failed) := by
  have hseen : ∃ o, 0 < statuses.countP (fun s => classify s policy = o) := by
    obtain ⟨s, hs⟩ := List.exists_mem_of_ne_nil statuses hne
    exact ⟨_, count_pos_iff.mpr ⟨_, seen_iff.mpr ⟨s, hs, rfl⟩, rfl⟩⟩
  rw [exists_outcome_iff] at hseen
  have hzero : ∀ o, statuses.countP (fun s => classify s policy = o) = 0 ∨
      0 < statuses.countP (fun s => classify s policy = o) := fun o => Nat.eq_zero_or_pos _
  have hcount : ∀ o, seenUnder statuses policy o =
      decide (0 < statuses.countP (fun s => classify s policy = o)) := by
    intro o
    rcases hzero o with h | h
    · rw [count_eq_zero_iff.mp h, h]
      rfl
    · rw [decide_eq_true h]
      by_contra hno
      have heq := count_eq_zero_iff.mpr (Bool.not_eq_true _ ▸ hno)
      omega
  unfold derivePhase tablePhase
  rw [hcount, hcount, hcount, hcount, Nat.sub_self]
  dsimp only
  simp only [decide_eq_true_eq, Bool.or_eq_true]
  rw [if_neg (by omega)]
  split_ifs <;> first | rfl | omega

theorem forall_outcome_mem_iff {p : ContainerOutcome → Prop} :
    (∀ s ∈ statuses, p (outcome s)) ↔
      (seen statuses .waiting = true → p .waiting) ∧ (seen statuses .running = true → p .running) ∧
      (seen statuses .succeeded = true → p .succeeded) ∧
      (seen statuses .failed = true → p .failed) := by
  constructor
  · intro h
    have hseen : ∀ o, seen statuses o = true → p o := by
      intro o ho
      obtain ⟨s, hs, rfl⟩ := seen_iff.mp ho
      exact h s hs
    exact ⟨hseen _, hseen _, hseen _, hseen _⟩
  · rintro ⟨hwaiting, hrunning, hsucceeded, hfailed⟩ s hs
    have hseen := seen_iff.mpr ⟨s, hs, rfl⟩
    cases ho : outcome s with
    | waiting => exact hwaiting (ho ▸ hseen)
    | running => exact hrunning (ho ▸ hseen)
    | succeeded => exact hsucceeded (ho ▸ hseen)
    | failed => exact hfailed (ho ▸ hseen)

theorem flagPhase_eq_iff (hne : statuses ≠ []) :
    flagPhase statuses = derivePhase statuses statuses.length policy ↔
      Uniform statuses policy := by
  have hall : ∀ o, statuses.all (outcome · = o) = true ↔ ∀ s ∈ statuses, outcome s = o := by
    simp
  have hsome : seen statuses .waiting = true ∨ seen statuses .running = true ∨
      seen statuses .succeeded = true ∨ seen statuses .failed = true := by
    obtain ⟨s, hs⟩ := List.exists_mem_of_ne_nil statuses hne
    exact (exists_outcome_iff (p := fun o => seen statuses o = true)).mp
      ⟨outcome s, seen_iff.mpr ⟨s, hs, rfl⟩⟩
  have hsame : ∀ o, (∀ s ∈ statuses, outcome s = o) ↔ _ := fun o =>
    forall_outcome_mem_iff (p := fun o' => o' = o)
  have hended : (∀ s ∈ statuses, outcome s = .succeeded ∨ outcome s = .failed) ↔ _ :=
    forall_outcome_mem_iff (p := fun o => o = .succeeded ∨ o = .failed)
  rw [derivePhase_eq hne]
  unfold flagPhase Uniform
  change (if seen statuses .failed = true then _ else _) = _ ↔ _
  simp only [hall, hsame, hended, seenUnder]
  generalize seen statuses .waiting = waiting at *
  generalize seen statuses .running = running at *
  generalize seen statuses .succeeded = succeeded at *
  generalize seen statuses .failed = failed at *
  cases policy <;> cases waiting <;> cases running <;> cases succeeded <;> cases failed <;>
    simp [restarted, tablePhase] at hsome ⊢

end Seen

/-! ## What is published of the newest containers -/

/-- The container is one of the newest with its name. -/
def Newest (criContainers : List Cri.Container) (c : Cri.Container) : Prop :=
  c ∈ criContainers ∧
    ∀ c' ∈ criContainers, c'.metadata.name = c.metadata.name → c'.createdAt ≤ c.createdAt

/-- The status is that of one of the newest containers with its name, when there are some. -/
def DescribesNewest (criContainers : List Cri.Container) (s : Api.ContainerStatus) : Prop :=
  (∃ c ∈ criContainers, c.metadata.name = s.name) →
    ∃ c, Newest criContainers c ∧ c.metadata.name = s.name ∧ s.containerId = some c.id

/-- The outcome that the first listed container of a name stands for. -/
def FirstOutcome (cri : Cri.Snapshot) (criContainers : List Cri.Container) (desired : Container)
    (o : ContainerOutcome) : Prop :=
  match firstNamed criContainers desired.name with
  | none => o = .waiting
  | some c =>
    match c.state with
    | .running => o = .running
    | .created | .unknown => o = .waiting
    | .exited => ∃ st, cri.containerStatus c.id = .ok st ∧
      o = if st.exitCode = 0 then .succeeded else .failed

/-- The first listed container of each name runs, or none has been started, or all have ended in a
way that the policy takes as the end. -/
def FirstUniform (cri : Cri.Snapshot) (criContainers : List Cri.Container) (spec : PodSpec) : Prop :=
  (∀ d ∈ spec.containers, FirstOutcome cri criContainers d .running) ∨
  (∀ d ∈ spec.containers, FirstOutcome cri criContainers d .waiting) ∨
  (spec.restartPolicy ≠ .always ∧
    ∀ d ∈ spec.containers, FirstOutcome cri criContainers d .succeeded) ∨
  (spec.restartPolicy = .never ∧ ∀ d ∈ spec.containers,
    FirstOutcome cri criContainers d .succeeded ∨ FirstOutcome cri criContainers d .failed)

/-- The first listed container of each name is one of the newest. -/
def FirstNewest (criContainers : List Cri.Container) (spec : PodSpec) : Prop :=
  ∀ d ∈ spec.containers, ∀ c, firstNamed criContainers d.name = some c → Newest criContainers c

section Published

variable {cri : Cri.Snapshot} {criContainers : List Cri.Container} {d : Container}
  {s : Api.ContainerStatus}

theorem mem_of_firstNamed {name : String} {c : Cri.Container}
    (h : firstNamed criContainers name = some c) : c ∈ criContainers ∧ c.metadata.name = name :=
  ⟨List.mem_of_find?_eq_some h, by simpa using List.find?_some h⟩

theorem Publishes.firstOutcome_iff (h : Publishes cri criContainers d s) (o : ContainerOutcome) :
    FirstOutcome cri criContainers d o ↔ outcome s = o := by
  unfold FirstOutcome
  cases h with
  | missing hfirst =>
    rw [hfirst]
    exact eq_comm
  | @listed c st hfirst hst =>
    rw [hfirst]
    dsimp only
    cases hstate : c.state with
    | running =>
      simp only [outcome, classify, apiState, hstate]
      exact eq_comm
    | created =>
      simp only [outcome, classify, apiState, hstate]
      exact eq_comm
    | unknown =>
      simp only [outcome, classify, apiState, hstate]
      exact eq_comm
    | exited =>
      simp only [outcome, classify, apiState, hstate, hst, Except.ok.injEq, exists_eq_left']
      exact eq_comm

theorem Publishes.describesNewest_iff (h : Publishes cri criContainers d s)
    (hnodup : (criContainers.map (·.id)).Nodup) :
    DescribesNewest criContainers s ↔
      ∀ c, firstNamed criContainers d.name = some c → Newest criContainers c := by
  unfold DescribesNewest
  cases h with
  | missing hfirst =>
    rw [hfirst]
    refine iff_of_true ?_ fun c hc => by cases hc
    rintro ⟨c, hc, hname⟩
    have hno := List.find?_eq_none.mp hfirst c hc
    simp [hname] at hno
  | @listed c st hfirst hst =>
    obtain ⟨hmem, hname⟩ := mem_of_firstNamed hfirst
    dsimp only
    rw [hfirst]
    constructor
    · rintro h c' hc'
      obtain rfl := Option.some.inj hc'
      obtain ⟨new, hnew, -, hid⟩ := h ⟨c, hmem, hname⟩
      have heq : c = new := List.inj_on_of_nodup_map hnodup hmem hnew.1 (Option.some.inj hid)
      rwa [heq]
    · exact fun h _ => ⟨c, h c rfl, hname, rfl⟩

theorem forall_published_iff {l : List Container} {l' : List Api.ContainerStatus}
    (h : List.Forall₂ (Publishes cri criContainers) l l') {p : Container → Prop}
    {q : Api.ContainerStatus → Prop}
    (hpq : ∀ d s, Publishes cri criContainers d s → (p d ↔ q s)) :
    (∀ d ∈ l, p d) ↔ ∀ s ∈ l', q s := by
  induction h with
  | nil => simp
  | cons hd _ ih => rw [List.forall_mem_cons, List.forall_mem_cons, hpq _ _ hd, ih]

end Published

theorem Cri.Snapshot.nodup_listContainers (cri : Cri.Snapshot) (id : Nat) :
    ((cri.listContainers id).map (·.id)).Nodup :=
  cri.nodup_ids.sublist (List.filter_sublist.map _)

/-- What is published of a pod with containers agrees with the table of phases, and each status is
of the newest container with its name, exactly when there is no sandbox, or the first listed
container of each name is the newest one and together they are uniform. -/
theorem composeStatus_correct_iff (cri : Cri.Snapshot) (pod : Pod) (sandboxId : Option Nat)
    (hne : pod.spec.containers ≠ []) {status : PodStatus}
    (h : composeStatus cri pod sandboxId = .ok status) :
    (status.phase =
        derivePhase status.containerStatuses pod.spec.containers.length pod.spec.restartPolicy ∧
      ∀ s ∈ status.containerStatuses, ∀ id ∈ sandboxId,
        DescribesNewest (cri.listContainers id) s) ↔
    ∀ id ∈ sandboxId, FirstUniform cri (cri.listContainers id) pod.spec ∧
      FirstNewest (cri.listContainers id) pod.spec := by
  cases sandboxId with
  | none =>
    cases h
    refine iff_of_true ⟨?_, fun s hs => absurd hs List.not_mem_nil⟩ fun id hid => by cases hid
    have hpos := List.length_pos_iff.mpr hne
    simp only [derivePhase, List.length_nil, List.countP_nil, Nat.sub_zero, Nat.add_zero]
    change PodPhase.pending = _
    rw [if_neg (by omega), if_neg (by omega), if_pos hpos, if_pos ⟨trivial, trivial⟩]
  | some id =>
    obtain ⟨acc, hacc, h⟩ := Except.bind_eq_ok_iff.mp h
    cases h
    obtain ⟨new, hnew, hstatuses, hrunning, hfailed, hsucceeded⟩ := composeContainers_spec hacc
    dsimp only at hstatuses hrunning hfailed hsucceeded ⊢
    rw [List.nil_append] at hstatuses
    have hlength : pod.spec.containers.length = new.length := hnew.length_eq
    have hnonempty : new ≠ [] := by
      rintro rfl
      exact hne (List.length_eq_zero_iff.mp hlength)
    have hphase : (if acc.anyFailed = true then PodPhase.failed
        else if acc.allSucceeded = true then .succeeded
        else if acc.allRunning = true then .running else .pending) = flagPhase new := by
      rw [hrunning, hfailed, hsucceeded, decide_eq_true hne, Bool.false_or, Bool.true_and,
        Bool.true_and]
      rfl
    have hdescribes : (∀ s ∈ new, DescribesNewest (cri.listContainers id) s) ↔
        FirstNewest (cri.listContainers id) pod.spec :=
      (forall_published_iff hnew fun d s hd =>
        (hd.describesNewest_iff (cri.nodup_listContainers id)).symm).symm
    have huniform : Uniform new pod.spec.restartPolicy ↔
        FirstUniform cri (cri.listContainers id) pod.spec := by
      unfold Uniform FirstUniform
      refine or_congr ?_ (or_congr ?_ (or_congr (and_congr_right fun _ => ?_)
        (and_congr_right fun _ => ?_)))
      · exact (forall_published_iff hnew fun d s hd => hd.firstOutcome_iff _).symm
      · exact (forall_published_iff hnew fun d s hd => hd.firstOutcome_iff _).symm
      · exact (forall_published_iff hnew fun d s hd => hd.firstOutcome_iff _).symm
      · exact (forall_published_iff hnew fun d s hd =>
          or_congr (hd.firstOutcome_iff _) (hd.firstOutcome_iff _)).symm
    simp only [Option.mem_some_iff, forall_eq']
    rw [hphase, hstatuses, hlength, flagPhase_eq_iff hnonempty, hdescribes, huniform]

/-- A pod with one container that is always started again. -/
def restartingPod : Pod :=
  ⟨⟨"web", "default", "1", [], []⟩, ⟨[⟨"app", "img", [], []⟩], .always⟩⟩

/-- The container has failed once, and runs again. -/
def crashedOnce : Cri.Snapshot where
  containers :=
    [⟨7, 1, ⟨"app", 0⟩, "img", .exited, 5, 1⟩, ⟨8, 1, ⟨"app", 1⟩, "img", .running, 9, 0⟩]
  containerStatus := fun id => .ok (if id = 7 then ⟨5, 6, 1, "Error", ""⟩ else ⟨9, 0, 0, "", ""⟩)
  nodup_ids := by decide

/-- The status of the container that has failed. -/
def crashedStatus : PodStatus :=
  ⟨.failed, "", "", [⟨"app", .terminated ⟨1, "Error", "", 5, 6⟩, "img", some 7, false, 0⟩]⟩

theorem composeStatus_crashed :
    (crashedStatus.phase = derivePhase crashedStatus.containerStatuses 1 .always ∧
      ∀ s ∈ crashedStatus.containerStatuses, ∀ id ∈ (some 1 : Option Nat),
        DescribesNewest (crashedOnce.listContainers id) s) ↔
    ∀ id ∈ (some 1 : Option Nat),
      FirstUniform crashedOnce (crashedOnce.listContainers id) restartingPod.spec ∧
        FirstNewest (crashedOnce.listContainers id) restartingPod.spec :=
  composeStatus_correct_iff crashedOnce restartingPod (some 1) (by decide) rfl

/-- The phase that is published does not agree with the table, and the status is not of the newest
container. -/
theorem composeStatus_stale : ∃ cri pod id status,
    pod.spec.containers ≠ [] ∧ composeStatus cri pod (some id) = .ok status ∧
    status.phase ≠
      derivePhase status.containerStatuses pod.spec.containers.length pod.spec.restartPolicy ∧
    ∃ s ∈ status.containerStatuses, ¬ DescribesNewest (cri.listContainers id) s := by
  refine ⟨crashedOnce, restartingPod, 1, crashedStatus, by decide, rfl, by decide,
    _, List.mem_singleton_self _, fun h => ?_⟩
  obtain ⟨c, ⟨hmem, hnewest⟩, -, hid⟩ := h ⟨_, List.mem_cons_self, rfl⟩
  have hlater := hnewest ⟨8, 1, ⟨"app", 1⟩, "img", .running, 9, 0⟩
    (List.mem_cons_of_mem _ List.mem_cons_self)
  rcases List.mem_cons.mp hmem with rfl | hmem
  · exact absurd (hlater rfl) (by decide)
  · rw [List.mem_singleton.mp hmem] at hid
    cases hid

end CaveHome.Kubelet
