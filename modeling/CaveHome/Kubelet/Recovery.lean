import CaveHome.Kubelet.Termination

/-!
# Recovery from partial failure

After any history of `Sync` calls in which calls to the runtime failed, containers exited and
sandboxes were lost, one `Sync` without a failing call repairs the pod, unless an earlier call left
a container of the spec created and never started in the sandbox that is still in use.
-/

namespace CaveHome.Kubelet

open Cri (CriError)

/-! ## Running containers -/

/-- The container runs in the sandbox under the name. -/
def runs (id : Nat) (name : String) (x : Cri.Container) : Bool :=
  x.podSandboxId == id && x.metadata.name == name && x.state == .running

/-- The number of containers that run in the sandbox under the name. -/
def runningIn (xs : List Cri.Container) (id : Nat) (name : String) : Nat := xs.countP (runs id name)

/-- No name has two running containers in the sandbox of the worker. -/
def Single (w : World) : Prop :=
  ∀ id, w.sandboxId = some id → ∀ name, runningIn w.cri.containers id name ≤ 1

/-- No container starts to run. -/
def Calm (xs ys : List Cri.Container) : Prop :=
  ∀ id name, runningIn ys id name ≤ runningIn xs id name

theorem Calm.refl (xs : List Cri.Container) : Calm xs xs := fun _ _ => Nat.le_refl _

theorem runningIn_append (xs ys : List Cri.Container) (id : Nat) (name : String) :
    runningIn (xs ++ ys) id name = runningIn xs id name + runningIn ys id name :=
  List.countP_append

theorem calm_filter (keep : Cri.Container → Bool) (xs : List Cri.Container) :
    Calm xs (xs.filter keep) :=
  fun _ _ => List.Sublist.countP_le List.filter_sublist

theorem calm_map {f : Cri.Container → Cri.Container} (xs : List Cri.Container)
    (hf : ∀ x id name, runs id name (f x) → runs id name x) : Calm xs (xs.map f) := by
  intro id name
  unfold runningIn
  rw [List.countP_map]
  exact List.countP_mono_left fun x _ h => hf x id name h

theorem calm_setStates (c : Cri) (f : Cri.Container → Cri.ContainerState)
    (hf : ∀ x, f x = .running → x.state = .running) :
    Calm c.containers (c.setStates f).containers := by
  refine calm_map _ fun x id name h => ?_
  simp only [runs, Bool.and_eq_true, beq_iff_eq] at h ⊢
  exact ⟨h.1, hf x h.2⟩

theorem calm_haltSandbox (c : Cri) (id : Nat) :
    Calm c.containers (c.haltSandbox id).containers := by
  refine calm_setStates c _ fun x h => ?_
  split at h
  · cases h
  · exact h

theorem calm_stopContainer (c : Cri) (id : Nat) (timeout : Int) :
    Calm c.containers (Cri.stopContainer id timeout c).2.containers := by
  unfold Cri.stopContainer
  split
  · exact .refl _
  · split
    · exact .refl _
    · refine calm_setStates c _ fun x h => ?_
      split at h
      · cases h
      · exact h

theorem calm_stopPodSandbox (c : Cri) (id : Nat) :
    Calm c.containers (Cri.stopPodSandbox id c).2.containers := by
  unfold Cri.stopPodSandbox
  split
  · exact .refl _
  · exact calm_haltSandbox c id

theorem calm_removePodSandbox (c : Cri) (id : Nat) :
    Calm c.containers (Cri.removePodSandbox id c).2.containers := by
  unfold Cri.removePodSandbox
  split
  · exact .refl _
  · split
    · exact .refl _
    · exact calm_filter _ _

theorem Single.calm {w : World} (h : Single w) {c : Cri} (hc : Calm w.cri.containers c.containers) :
    Single { w with cri := c } :=
  fun id hid name => Nat.le_trans (hc id name) (h id hid name)

theorem create_start_spec {c c₁ : Cri} {id cid : Nat} {cfg : Cri.ContainerConfig}
    {scfg : Cri.PodSandboxConfig} (h : Cri.createContainer id cfg scfg c = (.ok cid, c₁)) :
    c₁.sandboxes = c.sandboxes ∧
      c₁.containers = c.containers ++ [⟨cid, id, cfg.metadata, cfg.image, .created, c.clock, 0⟩] ∧
      ∃ c₂, Cri.startContainer cid c₁ = (.ok (), c₂) ∧ c₂.sandboxes = c.sandboxes ∧
        c₂.containers =
          c.containers ++ [⟨cid, id, cfg.metadata, cfg.image, .running, c.clock, 0⟩] := by
  unfold Cri.createContainer at h
  split at h
  · cases h
    have hold : ∀ x ∈ c.containers, x.id ≠ c.seq := fun x hx => Nat.ne_of_lt (c.container_lt x hx)
    refine ⟨rfl, rfl, ?_⟩
    have hfind : (c.containers ++ [(⟨c.seq, id, cfg.metadata, cfg.image, .created, c.clock, 0⟩ :
        Cri.Container)]).find? (fun x => x.id = c.seq) =
        some ⟨c.seq, id, cfg.metadata, cfg.image, .created, c.clock, 0⟩ := by
      rw [List.find?_append]
      have hnone : c.containers.find? (fun x => x.id = c.seq) = none := by
        rw [List.find?_eq_none]
        intro x hx
        simpa using hold x hx
      rw [hnone]
      simp
    unfold Cri.startContainer Cri.container?
    simp only [hfind]
    refine ⟨_, rfl, rfl, ?_⟩
    show List.map _ (c.containers ++ [_]) = _
    rw [List.map_append]
    congr 1
    · conv_rhs => rw [← List.map_id c.containers]
      apply List.map_congr_left
      intro x hx
      simp [hold x hx]
    · simp
  · cases h

theorem createContainer_ok {c : Cri} {id : Nat} (h : c.Has id) (cfg : Cri.ContainerConfig)
    (scfg : Cri.PodSandboxConfig) : ∃ c₁, Cri.createContainer id cfg scfg c = (.ok c.seq, c₁) := by
  have hplace : ∃ s ∈ c.sandboxes, s.id = id := h
  unfold Cri.createContainer
  rw [dif_pos hplace]
  exact ⟨_, rfl⟩

/-! ## A sync with failing calls -/

theorem has_action {desired : Container} {cs : List Cri.Container} {policy : RestartPolicy}
    (h : computeContainerAction desired cs policy = .create) :
    ∀ x ∈ cs, x.metadata.name = desired.name → x.state ≠ .running := by
  intro x hx hname hstate
  have hany : (cs.any fun c => c.metadata.name == desired.name && c.state == .running) = true :=
    List.any_eq_true.2 ⟨x, hx, by simp [hname, hstate]⟩
  simp [computeContainerAction, hany] at h

theorem mem_listed {c c' : Cri} {id : Nat} {cs : List Cri.Container}
    (h : Cri.listContainers (inSandbox id) c = (.ok cs, c')) {x : Cri.Container} :
    x ∈ cs ↔ x ∈ c.containers ∧ x.podSandboxId = id := by
  cases h
  rw [List.mem_insertionSort, List.mem_filter]
  simp [Cri.ContainerFilter.accepts, inSandbox]

/-- The worker uses the sandbox, and of the containers still to be started none runs in it. -/
structure Starting (id : Nat) (names : List String) (w : World) : Prop where
  cached : w.sandboxId = some id
  single : ∀ name, runningIn w.cri.containers id name ≤ 1
  absent : ∀ name ∈ names, runningIn w.cri.containers id name = 0

theorem Starting.toSingle {id : Nat} {names : List String} {w : World} (h : Starting id names w) :
    Single w := by
  intro j hj name
  rw [h.cached, Option.some.injEq] at hj
  exact hj ▸ h.single name

/-- The names that `startDesired` creates containers for. -/
def toCreate (pod : Pod) (cs : List Cri.Container) (desired : List Container) : List String :=
  (desired.filter fun d => computeContainerAction d cs pod.spec.restartPolicy = .create).map (·.name)

theorem startDesired_single (pod : Pod) (id : Nat) (cs : List Cri.Container) :
    ∀ (desired : List Container) (out : SyncOutcome), (desired.map (·.name)).Nodup →
      Faulty.Triple (Starting id (toCreate pod cs desired)) (startDesired pod id cs desired out)
        (fun _ => Single) Single
  | [], out, _ => Faulty.Triple.pure fun _ h => h.toSingle
  | d :: desired, out, hnodup => by
    rw [List.map_cons, List.nodup_cons] at hnodup
    unfold startDesired
    split
    case h_1 hskip =>
      have hnames : toCreate pod cs (d :: desired) = toCreate pod cs desired := by
        simp [toCreate, hskip]
      rw [hnames]
      exact startDesired_single pod id cs desired out hnodup.2
    case h_2 hcreate =>
      have hnames : toCreate pod cs (d :: desired) = d.name :: toCreate pod cs desired := by
        simp [toCreate, hcreate]
      have hnot : d.name ∉ toCreate pod cs desired := by
        intro hmem
        obtain ⟨e, he, hname⟩ := List.mem_map.1 hmem
        exact hnodup.1 (List.mem_map.2 ⟨e, (List.mem_filter.1 he).1, hname⟩)
      rw [hnames]
      -- between the two calls the new container is there and does not run
      apply Faulty.Triple.bind (Q := fun cid w => ∃ c,
        Starting id (d.name :: toCreate pod cs desired) { w with cri := c } ∧
          Cri.createContainer id (containerConfig d) (sandboxConfig pod) c = (.ok cid, w.cri))
      · apply triple_callCri
        · exact fun w h => h.toSingle
        · exact fun w cid c h hop => ⟨w.cri, h, hop⟩
        · intro w e c h hop
          have hsame : c = w.cri := by
            unfold Cri.createContainer at hop
            split at hop
            · cases hop
            · exact (congrArg Prod.snd hop).symm
          rw [hsame]
          exact h.toSingle
      · intro cid
        apply Faulty.Triple.bind (Q := fun _ => Starting id (toCreate pod cs desired))
        · have hcreated : ∀ (w : World), (∃ c,
              Starting id (d.name :: toCreate pod cs desired) { w with cri := c } ∧
                Cri.createContainer id (containerConfig d) (sandboxConfig pod) c =
                  (.ok cid, w.cri)) → Single w := by
            rintro w ⟨c, h, hop⟩
            obtain ⟨-, hcs, -⟩ := create_start_spec hop
            refine h.toSingle.calm (c := w.cri) fun j name => ?_
            show runningIn w.cri.containers j name ≤ runningIn c.containers j name
            rw [hcs, runningIn_append]
            simp [runningIn, runs]
          apply triple_callCri
          · exact hcreated
          · rintro w _ c' ⟨c, h, hop⟩ hstart
            obtain ⟨-, -, c₂, hok, -, hcs⟩ := create_start_spec hop
            rw [hok, Prod.mk.injEq] at hstart
            obtain ⟨-, rfl⟩ := hstart
            have hcount (name : String) : runningIn c₂.containers id name =
                runningIn c.containers id name + if d.name = name then 1 else 0 := by
              rw [hcs, runningIn_append]
              simp [runningIn, runs, containerConfig, List.countP_cons]
            refine ⟨h.cached, fun name => ?_, fun name hname => ?_⟩
            · have hone := h.single name
              have hzero := h.absent d.name List.mem_cons_self
              show runningIn c₂.containers id name ≤ 1
              rw [hcount]
              split
              · rename_i heq
                rw [← heq]
                exact Nat.le_of_eq (by rw [show runningIn c.containers id d.name = 0 from hzero])
              · exact hone
            · have hne : d.name ≠ name := fun heq => hnot (heq ▸ hname)
              show runningIn c₂.containers id name = 0
              rw [hcount, if_neg hne]
              exact h.absent name (List.mem_cons_of_mem _ hname)
          · rintro w e c' hw hstart
            obtain ⟨c, h, hop⟩ := hw
            obtain ⟨-, -, c₂, hok, -, -⟩ := create_start_spec hop
            rw [hok] at hstart
            cases hstart
        · exact fun _ => startDesired_single pod id cs desired _ hnodup.2

theorem single_callCri {α : Type} {op : Cri → Except CriError α × Cri}
    (h : ∀ c, Calm c.containers (op c).2.containers) : (callCri op).Keeps Single :=
  keeps_callCri fun w hw => hw.calm (h w.cri)

theorem stopSelected_single {stops : Cri.Container → Bool} {timeout : Int} :
    ∀ (cs : List Cri.Container) (out : SyncOutcome),
      (stopSelected stops timeout cs out).Keeps Single
  | [], out => Faulty.Keeps.pure out
  | c :: cs, out => by
    unfold stopSelected
    split
    · apply (single_callCri fun c' => calm_stopContainer c' c.id timeout).bind
      exact fun _ => stopSelected_single cs _
    · exact stopSelected_single cs out

theorem not_in_new (c : Cri) : ∀ x ∈ c.containers, x.podSandboxId ≠ c.seq := by
  intro x hx hid
  obtain ⟨s, hs, hsid⟩ := c.placed x hx
  have hlt := c.sandbox_lt s hs
  omega

theorem runningIn_of_not_in {xs : List Cri.Container} {id : Nat}
    (h : ∀ x ∈ xs, x.podSandboxId ≠ id) (name : String) : runningIn xs id name = 0 := by
  unfold runningIn
  rw [List.countP_eq_zero]
  intro x hx hruns
  simp only [runs, Bool.and_eq_true, beq_iff_eq] at hruns
  exact h x hx hruns.1.1

theorem runSandbox_single (pod : Pod) :
    Faulty.Triple (fun w => w.sandboxId = none) (ensureSandbox.runSandbox pod)
      (fun id w => w.sandboxId = some id ∧ Single w) Single := by
  have hvacuous : ∀ w : World, w.sandboxId = none → Single w := by
    intro w hnone id hid
    rw [hnone] at hid
    cases hid
  unfold ensureSandbox.runSandbox
  apply Faulty.Triple.bind (Q := fun id w => ∀ x ∈ w.cri.containers, x.podSandboxId ≠ id)
  · apply triple_callCri
    · exact hvacuous
    · rintro w id c - hop
      cases hop
      exact not_in_new w.cri
    · rintro w e c - hop
      cases hop
  · intro id
    apply Faulty.Triple.bind (Q := fun _ w => w.sandboxId = some id ∧ Single w)
    · refine Faulty.Triple.update fun w h => ⟨rfl, fun j hj name => ?_⟩
      have hzero := runningIn_of_not_in h name
      obtain rfl : id = j := Option.some.inj hj
      show runningIn w.cri.containers id name ≤ 1
      omega
    · exact fun _ => Faulty.Triple.pure fun w h => h

theorem ensureSandbox_single (pod : Pod) :
    Faulty.Triple Single (ensureSandbox pod) (fun id w => w.sandboxId = some id ∧ Single w)
      Single := by
  unfold ensureSandbox
  apply Faulty.Triple.bind (Q := fun cached w => Single w ∧ w.sandboxId = cached)
  · exact Faulty.Triple.read fun w h => ⟨h, rfl⟩
  · intro cached
    cases cached with
    | none => exact (runSandbox_single pod).conseq (fun _ h => h.2) (fun _ _ h => h) fun _ h => h
    | some id =>
      let Held (w : World) : Prop := Single w ∧ w.sandboxId = some id
      have hkeep {α : Type} {op : Cri → Except CriError α × Cri}
          (h : ∀ c, Calm c.containers (op c).2.containers) :
          Faulty.Triple Held (callCri op).attempt (fun _ => Held) Single := by
        have hop : (callCri op).Keeps Held := keeps_callCri fun w hw => ⟨hw.1.calm (h w.cri), hw.2⟩
        exact hop.attempt.conseq (fun _ h => h) (fun _ _ h => h) fun _ h => h.1
      apply (hkeep fun c => by unfold Cri.podSandboxStatus; split <;> exact .refl _).bind
      intro status
      split
      · exact Faulty.Triple.pure fun w h => ⟨h.2, h.1⟩
      · apply (hkeep fun c => calm_stopPodSandbox c id).bind
        intro _
        apply (hkeep fun c => calm_removePodSandbox c id).bind
        intro _
        apply Faulty.Triple.bind (Q := fun _ w => w.sandboxId = none)
        · exact Faulty.Triple.update fun w h => rfl
        · exact fun _ => runSandbox_single pod

theorem doSync_single (pod : Pod) (hnodup : pod.spec.names.Nodup) :
    (doSync pod).Keeps Single := by
  unfold doSync
  apply (Faulty.Keeps.read _).bind
  intro cur
  split
  · exact Faulty.Keeps.pure _
  · apply Faulty.Keeps.bind
    · exact Faulty.Keeps.update fun w h => h
    · intro _
      apply (ensureSandbox_single pod).bind
      intro id
      apply Faulty.Triple.bind (Q := fun cs w => Starting id (toCreate pod cs pod.spec.containers) w)
      · apply triple_callCri
        · exact fun w h => h.2
        · intro w cs c h hop
          have hsame : c = w.cri := (congrArg Prod.snd hop).symm
          refine ⟨h.1, fun name => hsame ▸ h.2 id h.1 name, fun name hname => ?_⟩
          obtain ⟨d, hd, rfl⟩ := List.mem_map.1 hname
          have hcreate := of_decide_eq_true (List.mem_filter.1 hd).2
          show runningIn c.containers id d.name = 0
          unfold runningIn
          rw [List.countP_eq_zero]
          intro x hx hruns
          simp only [runs, Bool.and_eq_true, beq_iff_eq] at hruns
          have hxcs : x ∈ cs := (mem_listed hop).2 ⟨hsame ▸ hx, hruns.1.1⟩
          exact has_action hcreate x hxcs hruns.1.2 hruns.2
        · rintro w e c _ hop
          cases hop
      · intro cs
        apply (startDesired_single pod id cs _ _ hnodup).bind
        intro out
        apply (stopSelected_single cs out).bind
        intro out
        have hset : (Faulty.update (World.setState .waiting) : Run Unit).Keeps Single :=
          Faulty.Keeps.update fun w h => h
        exact hset.bind fun _ => Faulty.Keeps.pure _

/-! ## Histories of syncs -/

/-- A `Sync` of a spec with distinct names, or something that happens in the runtime. -/
def IsSync : Event → Prop
  | .call pod work _ => work = .sync ∧ pod.spec.names.Nodup
  | _ => True

theorem Single.step {w : World} (h : Single w) {event : Event} (he : IsSync event) :
    Single (w.step event) := by
  cases event with
  | call pod work faults =>
    obtain ⟨rfl, hnodup⟩ := he
    exact (doSync_single pod hnodup).run h
  | exited id code =>
    refine h.calm (calm_map _ fun x j name hruns => ?_)
    split at hruns
    · simp [runs] at hruns
    · exact hruns
  | halted id => exact h.calm (calm_haltSandbox w.cri id)
  | lost id => exact h.calm (calm_filter _ _)

theorem Single.run {w : World} (h : Single w) {events : List Event}
    (he : ∀ e ∈ events, IsSync e) : Single (w.run events) := by
  induction events generalizing w with
  | nil => exact h
  | cons e events ih =>
    exact ih (h.step (he e List.mem_cons_self)) fun e' he' => he e' (List.mem_cons_of_mem e he')

/-- The pod is not gone. -/
def Alive (w : World) : Prop := w.state ≠ .terminated

theorem alive_callCri {α : Type} (op : Cri → Except CriError α × Cri) : (callCri op).Keeps Alive :=
  keeps_callCri fun _ h => h

theorem ensureSandbox_alive (pod : Pod) : (ensureSandbox pod).Keeps Alive := by
  have hrun : (ensureSandbox.runSandbox pod).Keeps Alive := by
    apply (alive_callCri _).bind
    intro id
    apply Faulty.Keeps.bind
    · exact Faulty.Keeps.update fun w h => h
    · exact fun _ => Faulty.Keeps.pure id
  unfold ensureSandbox
  apply (Faulty.Keeps.read _).bind
  intro cached
  cases cached with
  | none => exact hrun
  | some id =>
    apply (alive_callCri _).attempt.bind
    intro status
    split
    · exact Faulty.Keeps.pure id
    · apply (alive_callCri _).attempt.bind
      intro _
      apply (alive_callCri _).attempt.bind
      intro _
      apply Faulty.Keeps.bind
      · exact Faulty.Keeps.update fun w h => h
      · exact fun _ => hrun

theorem doSync_alive (pod : Pod) : (doSync pod).Keeps Alive := by
  have hlast : Lasting Alive := fun _ _ h _ _ => h
  have hset {state : PodWorkerState} (hs : state ≠ .terminated) :
      (Faulty.update (World.setState state) : Run Unit).Keeps Alive :=
    Faulty.Keeps.update fun _ _ => hs
  unfold doSync
  apply (Faulty.Keeps.read _).bind
  intro cur
  split
  · exact Faulty.Keeps.pure _
  · apply (hset (by decide)).bind
    intro _
    apply (ensureSandbox_alive pod).bind
    intro id
    apply (alive_callCri _).bind
    intro cs
    apply (keeps_startDesired (fun _ _ _ => alive_callCri _) (fun _ => alive_callCri _) pod id cs _
      _).bind
    intro out
    apply (hlast.keeps_stopSelected cs out).bind
    intro out
    exact (hset (by decide)).bind fun _ => Faulty.Keeps.pure _

theorem alive_run {w : World} (h : Alive w) {events : List Event} (he : ∀ e ∈ events, IsSync e) :
    Alive (w.run events) := by
  induction events generalizing w with
  | nil => exact h
  | cons e events ih =>
    refine ih ?_ fun e' he' => he e' (List.mem_cons_of_mem e he')
    cases e with
    | call pod work faults =>
      obtain ⟨rfl, -⟩ := he (.call pod work faults) List.mem_cons_self
      exact (doSync_alive pod).run h
    | exited id code => exact h
    | halted id => exact h
    | lost id => exact h

/-! ## A sync without failing calls -/

/-- The worker has a sandbox that is ready. -/
def InUse (w : World) (id : Nat) : Prop :=
  w.sandboxId = some id ∧ ∃ s, w.cri.sandbox? id = some s ∧ s.state = .ready

theorem callCri_nil {α : Type} {op : Cri → Except CriError α × Cri} {w : World}
    {r : Except CriError α} {c : Cri} (h : op w.cri = (r, c)) :
    callCri op [] w = (r, { w with cri := c }, []) := by
  show ((op w.cri).1, { w with cri := (op w.cri).2 }, []) = _
  rw [h]

theorem attempt_nil {α : Type} (op : Cri → Except CriError α × Cri) (w : World) :
    (callCri op).attempt [] w = (.ok (op w.cri).1, { w with cri := (op w.cri).2 }, []) := rfl

theorem ensureSandbox_of_inUse (pod : Pod) {w : World} {id : Nat} (h : InUse w id) :
    ensureSandbox pod [] w = (.ok id, w, []) := by
  obtain ⟨hid, s, hs, hready⟩ := h
  have hread : (Faulty.read World.sandboxId : Run _) [] w = (.ok w.sandboxId, w, []) := rfl
  have hstatus : Cri.podSandboxStatus id w.cri = (.ok s, w.cri) := by
    unfold Cri.podSandboxStatus
    rw [hs]
  have hst := Faulty.attempt_of_run (callCri_nil hstatus)
  unfold ensureSandbox
  rw [Faulty.bind_of_ok hread, hid]
  simp only []
  rw [Faulty.bind_of_ok hst]
  simp [Except.toOption, hready]
  rfl

theorem runSandbox_total (pod : Pod) (w : World) :
    ∃ id w', ensureSandbox.runSandbox pod [] w = (.ok id, w', []) ∧ InUse w' id ∧
      w'.state = w.state ∧ ∀ x ∈ w'.cri.containers, x.podSandboxId ≠ id := by
  refine ⟨w.cri.seq, _, rfl, ⟨rfl, ?_⟩, rfl, not_in_new w.cri⟩
  have hnone : w.cri.sandboxes.find? (fun s => s.id = w.cri.seq) = none := by
    rw [List.find?_eq_none]
    intro s hs
    have hlt := w.cri.sandbox_lt s hs
    simp only [decide_eq_true_eq]
    omega
  refine ⟨⟨w.cri.seq, (sandboxConfig pod).metadata, .ready, w.cri.clock, pod.metadata.labels⟩,
    ?_, rfl⟩
  show List.find? _ (w.cri.sandboxes ++ [_]) = _
  rw [List.find?_append, hnone]
  simp
  rfl

theorem ensureSandbox_of_not_inUse (pod : Pod) {w : World} (h : ∀ id, ¬ InUse w id) :
    ∃ id w', ensureSandbox pod [] w = (.ok id, w', []) ∧ InUse w' id ∧ w'.state = w.state ∧
      ∀ x ∈ w'.cri.containers, x.podSandboxId ≠ id := by
  have hread : (Faulty.read World.sandboxId : Run _) [] w = (.ok w.sandboxId, w, []) := rfl
  unfold ensureSandbox
  rw [Faulty.bind_of_ok hread]
  cases hid : w.sandboxId with
  | none => exact runSandbox_total pod w
  | some id =>
    simp only []
    rw [Faulty.bind_of_ok (attempt_nil _ w)]
    have hslow : ((Cri.podSandboxStatus id w.cri).1.toOption.any fun st => st.state = .ready) =
        false := by
      unfold Cri.podSandboxStatus
      cases hs : w.cri.sandbox? id with
      | none => rfl
      | some s =>
        have hne : s.state ≠ .ready := fun hr => h id ⟨hid, s, hs, hr⟩
        simp [Except.toOption, hne]
    rw [hslow]
    simp only [Bool.false_eq_true, if_false]
    rw [Faulty.bind_of_ok (attempt_nil _ _), Faulty.bind_of_ok (attempt_nil _ _)]
    exact runSandbox_total pod _

theorem startDesired_total (pod : Pod) {id : Nat} (cs : List Cri.Container) :
    ∀ (desired : List Container) (out : SyncOutcome) {w : World}, w.cri.Has id →
      ∃ out' w', startDesired pod id cs desired out [] w = (.ok out', w', []) ∧
        w'.sandboxId = w.sandboxId ∧ w'.cri.sandboxes = w.cri.sandboxes ∧
        out'.killedContainers = out.killedContainers ∧
        ∃ new, w'.cri.containers = w.cri.containers ++ new ∧
          (∀ x ∈ new, x.podSandboxId = id ∧ x.state = .running) ∧
          new.map (·.metadata.name) = toCreate pod cs desired ∧
          out'.startedContainers = out.startedContainers ++ new.map (·.id)
  | [], out, w, _ => ⟨out, w, rfl, rfl, rfl, rfl, [], by simp, by simp, by simp [toCreate], by simp⟩
  | d :: desired, out, w, hhas => by
    unfold startDesired
    cases haction : computeContainerAction d cs pod.spec.restartPolicy with
    | skip =>
      have hnames : toCreate pod cs (d :: desired) = toCreate pod cs desired := by
        simp [toCreate, haction]
      rw [hnames]
      exact startDesired_total pod cs desired out hhas
    | create =>
      have hnames : toCreate pod cs (d :: desired) = d.name :: toCreate pod cs desired := by
        simp [toCreate, haction]
      obtain ⟨c₁, hop⟩ := createContainer_ok hhas (containerConfig d) (sandboxConfig pod)
      obtain ⟨-, -, c₂, hstart, hsand, hcs⟩ := create_start_spec hop
      have hhas₂ : c₂.Has id := by
        unfold Cri.Has
        rw [hsand]
        exact hhas
      obtain ⟨out', w', hrun, hid, hsand', hkilled, new, hnew, hhere, hname, hstarted⟩ :=
        startDesired_total pod cs desired
          { out with
            createdContainers := out.createdContainers ++ [w.cri.seq]
            startedContainers := out.startedContainers ++ [w.cri.seq] } (w := { w with cri := c₂ })
          hhas₂
      let started : Cri.Container := ⟨w.cri.seq, id, (containerConfig d).metadata,
        (containerConfig d).image, .running, w.cri.clock, 0⟩
      refine ⟨out', w', ?_, hid, hsand'.trans hsand, hkilled, started :: new, ?_, ?_, ?_, ?_⟩
      · simp only []
        rw [Faulty.bind_of_ok (callCri_nil hop)]
        have hstart' : Cri.startContainer w.cri.seq ({ w with cri := c₁ } : World).cri =
            (.ok (), c₂) := hstart
        rw [Faulty.bind_of_ok (callCri_nil hstart')]
        exact hrun
      · rw [hnew]
        show c₂.containers ++ new = _
        rw [hcs, List.append_assoc]
        rfl
      · intro x hx
        rcases List.mem_cons.1 hx with rfl | hx
        · exact ⟨rfl, rfl⟩
        · exact hhere x hx
      · rw [List.map_cons, hname, hnames]
        rfl
      · rw [hstarted, List.append_assoc]
        rfl

theorem stopContainer_total {c : Cri} {y : Cri.Container} (hy : y ∈ c.containers) (timeout : Int) :
    ∃ c', Cri.stopContainer y.id timeout c = (.ok (), c') ∧ c'.sandboxes = c.sandboxes ∧
      c'.containers = c.containers.map fun x =>
        if x.id = y.id then { x with state := .exited } else x := by
  have hself : ∀ x ∈ c.containers, x.id = y.id → x = y := fun x hx hid =>
    List.inj_on_of_nodup_map c.container_ids hx hy hid
  have hfind : c.container? y.id = some y := by
    unfold Cri.container?
    cases hf : c.containers.find? fun x => x.id = y.id with
    | none =>
      have hne := List.find?_eq_none.1 hf y hy
      simp at hne
    | some x =>
      rw [hself x (List.mem_of_find?_eq_some hf) (by simpa using List.find?_some hf)]
  unfold Cri.stopContainer
  rw [hfind]
  by_cases hexited : y.state = .exited
  · refine ⟨c.tick, by simp [hexited], rfl, ?_⟩
    conv_lhs => rw [show c.tick.containers = c.containers from rfl, ← List.map_id c.containers]
    apply List.map_congr_left
    intro x hx
    by_cases hid : x.id = y.id
    · rw [if_pos hid, hself x hx hid, ← hexited]
      rfl
    · rw [if_neg hid]
      rfl
  · dsimp only
    rw [if_neg hexited]
    refine ⟨_, rfl, rfl, ?_⟩
    apply List.map_congr_left
    intro x hx
    by_cases hid : x.id = y.id <;> simp [hid]

/-- A container of the list was selected, and has been stopped. -/
def Selected (stops : Cri.Container → Bool) (cs : List Cri.Container) (id : Nat) : Prop :=
  ∃ c ∈ cs, stops c ∧ c.id = id

instance (stops : Cri.Container → Bool) (cs : List Cri.Container) (id : Nat) :
    Decidable (Selected stops cs id) := List.decidableBEx _ _

theorem stopSelected_total (stops : Cri.Container → Bool) (timeout : Int) :
    ∀ (cs : List Cri.Container) (out : SyncOutcome) {w : World},
      (∀ c ∈ cs, ∃ x ∈ w.cri.containers, x.id = c.id) →
      ∃ out' w', stopSelected stops timeout cs out [] w = (.ok out', w', []) ∧
        w'.sandboxId = w.sandboxId ∧ w'.cri.sandboxes = w.cri.sandboxes ∧
        out'.startedContainers = out.startedContainers ∧
        out'.killedContainers = out.killedContainers ++ (cs.filter stops).map (·.id) ∧
        w'.cri.containers = w.cri.containers.map fun x =>
          if Selected stops cs x.id then { x with state := .exited } else x
  | [], out, w, _ => ⟨out, w, rfl, rfl, rfl, rfl, by simp, by simp [Selected]⟩
  | c :: cs, out, w, hthere => by
    unfold stopSelected
    by_cases hstop : stops c = true
    · rw [if_pos hstop]
      obtain ⟨y, hy, hyid⟩ := hthere c List.mem_cons_self
      obtain ⟨c₁, hop, hsand, hcs⟩ := stopContainer_total hy timeout
      rw [hyid] at hop hcs
      have hthere₁ : ∀ d ∈ cs, ∃ x ∈ c₁.containers, x.id = d.id := by
        intro d hd
        obtain ⟨x, hx, hxid⟩ := hthere d (List.mem_cons_of_mem c hd)
        rw [hcs]
        refine ⟨_, List.mem_map_of_mem hx, ?_⟩
        split <;> exact hxid
      obtain ⟨out', w', hrun, hid, hsand', hstarted, hkilled, hcs'⟩ := stopSelected_total stops timeout cs
        { out with killedContainers := out.killedContainers ++ [c.id] } (w := { w with cri := c₁ })
        hthere₁
      refine ⟨out', w', ?_, hid, hsand'.trans hsand, hstarted, ?_, ?_⟩
      · rw [Faulty.bind_of_ok (callCri_nil hop)]
        exact hrun
      · rw [hkilled, List.filter_cons_of_pos hstop, List.append_assoc]
        rfl
      · rw [hcs']
        show List.map _ c₁.containers = _
        rw [hcs, List.map_map]
        apply List.map_congr_left
        intro x _
        by_cases hx : x.id = c.id
        · have hsel : Selected stops (c :: cs) x.id := ⟨c, List.mem_cons_self, hstop, hx.symm⟩
          simp only [Function.comp_apply, if_pos hx, if_pos hsel, ite_self]
        · have hsel : Selected stops (c :: cs) x.id ↔ Selected stops cs x.id := by
            simp [Selected, Ne.symm hx]
          simp only [Function.comp_apply, if_neg hx, hsel]
    · rw [if_neg hstop]
      obtain ⟨out', w', hrun, hid, hsand, hstarted, hkilled, hcs⟩ := stopSelected_total stops timeout cs out
        (w := w) fun d hd => hthere d (List.mem_cons_of_mem c hd)
      refine ⟨out', w', hrun, hid, hsand, hstarted, ?_, ?_⟩
      · rw [hkilled, List.filter_cons_of_neg hstop]
      · rw [hcs]
        apply List.map_congr_left
        intro x _
        have hsel : Selected stops (c :: cs) x.id ↔ Selected stops cs x.id := by
          simp [Selected, hstop]
        simp only [hsel]

/-! ## What a sync achieves -/

/-- The containers of a sandbox, as they are listed. -/
def Cri.listed (c : Cri) (id : Nat) : List Cri.Container :=
  (c.containers.filter (inSandbox id).accepts).insertionSort Cri.Listed

theorem listContainers_inSandbox (c : Cri) (id : Nat) :
    Cri.listContainers (inSandbox id) c = (.ok (c.listed id), c) := rfl

theorem mem_toCreate {pod : Pod} {cs : List Cri.Container} {desired : List Container}
    {name : String} (h : name ∈ toCreate pod cs desired) : name ∈ desired.map (·.name) := by
  obtain ⟨d, hd, rfl⟩ := List.mem_map.1 h
  exact List.mem_map_of_mem (List.mem_filter.1 hd).1

theorem not_isUndesired {pod : Pod} {c : Cri.Container} (h : c.metadata.name ∈ pod.spec.names) :
    isUndesired pod c = false := by
  obtain ⟨d, hd, hname⟩ := List.mem_map.1 h
  have hany : (pod.spec.containers.any fun d => d.name == c.metadata.name) = true :=
    List.any_eq_true.2 ⟨d, hd, by simp [hname]⟩
  simp [isUndesired, hany]

theorem isUndesired_of_running {pod : Pod} {c : Cri.Container}
    (h : c.metadata.name ∉ pod.spec.names) (hrun : c.state = .running) :
    isUndesired pod c = true := by
  have hany : (pod.spec.containers.any fun d => d.name == c.metadata.name) = false := by
    rw [List.any_eq_false]
    intro d hd hname
    exact h (List.mem_map.2 ⟨d, hd, by simpa using hname⟩)
  simp [isUndesired, hany, hrun]

/-- A sync that has gone through: which containers it has started, under which names, which it has
stopped, and what is in the store. -/
structure Synced (pod : Pod) (w : World) (id : Nat) (out : SyncOutcome) (w' : World)
    (new : List Cri.Container) : Prop where
  inUse : InUse w' id
  alive : Alive w'
  here : ∀ x ∈ new, x.podSandboxId = id ∧ x.state = .running
  names : new.map (·.metadata.name) = toCreate pod (w.cri.listed id) pod.spec.containers
  started : out.startedContainers = new.map (·.id)
  killed : out.killedContainers = ((w.cri.listed id).filter (isUndesired pod)).map (·.id)
  ids : ((w.cri.containers ++ new).map (·.id)).Nodup
  containers : w'.cri.containers = (w.cri.containers ++ new).map fun x =>
    if Selected (isUndesired pod) (w.cri.listed id) x.id then { x with state := .exited } else x

theorem doSync_synced (pod : Pod) {w : World} {id : Nat} (halive : Alive w) (h : InUse w id) :
    ∃ out w' new, doSync pod [] w = (.ok out, w', []) ∧ Synced pod w id out w' new := by
  have hread : (Faulty.read World.state : Run _) [] w = (.ok w.state, w, []) := rfl
  have hset : (Faulty.update (World.setState .syncing) : Run _) [] w =
      (.ok (), w.setState .syncing, []) := rfl
  have huse : InUse (w.setState .syncing) id := h
  have hhas : (w.setState .syncing).cri.Has id := Cri.has_of_sandbox? h.2.choose_spec.1
  have hlist : callCri (Cri.listContainers (inSandbox id)) [] (w.setState .syncing) =
      (.ok (w.cri.listed id), w.setState .syncing, []) := rfl
  obtain ⟨out₁, w₁, hstart, hid₁, hsand₁, hkilled₁, new, hnew, hhere, hname, hstarted₁⟩ :=
    startDesired_total pod (w.cri.listed id) pod.spec.containers
      { SyncOutcome.empty with sandboxId := some id } hhas
  have hthere : ∀ c ∈ w.cri.listed id, ∃ x ∈ w₁.cri.containers, x.id = c.id := by
    intro c hc
    refine ⟨c, ?_, rfl⟩
    rw [hnew]
    exact List.mem_append_left _ ((mem_listed (listContainers_inSandbox w.cri id)).1 hc).1
  obtain ⟨out₂, w₂, hstop, hid₂, hsand₂, hstarted₂, hkilled₂, hcs⟩ :=
    stopSelected_total (isUndesired pod) 30 (w.cri.listed id) out₁ hthere
  refine ⟨out₂, w₂.setState .waiting, new, ?_, ?_⟩
  · unfold doSync
    rw [Faulty.bind_of_ok hread, if_neg halive, Faulty.bind_of_ok hset,
      Faulty.bind_of_ok (ensureSandbox_of_inUse pod huse),
      Faulty.bind_of_ok hlist, Faulty.bind_of_ok hstart, Faulty.bind_of_ok hstop]
    rfl
  · refine ⟨⟨(hid₂.trans hid₁).trans h.1, ?_⟩, by simp [Alive, World.setState], hhere, hname, ?_,
      ?_, ?_, ?_⟩
    · obtain ⟨s, hs, hready⟩ := h.2
      refine ⟨s, ?_, hready⟩
      show w₂.cri.sandboxes.find? _ = _
      rw [hsand₂.trans hsand₁]
      exact hs
    · rw [hstarted₂, hstarted₁]
      rfl
    · rw [hkilled₂, hkilled₁]
      rfl
    · have hids := w₁.cri.container_ids
      rw [hnew] at hids
      exact hids
    · show w₂.cri.containers = _
      rw [hcs, hnew]
      rfl

theorem Synced.runningIn_eq {pod : Pod} {w w' : World} {id : Nat} {out : SyncOutcome}
    {new : List Cri.Container} (h : Synced pod w id out w' new) (name : String) :
    runningIn w'.cri.containers id name =
      if name ∈ pod.spec.names then runningIn w.cri.containers id name +
        (toCreate pod (w.cri.listed id) pod.spec.containers).count name else 0 := by
  have hmem : ∀ c, c ∈ w.cri.listed id ↔ c ∈ w.cri.containers ∧ c.podSandboxId = id := fun c =>
    mem_listed (listContainers_inSandbox w.cri id)
  have hcount : runningIn new id name =
      (toCreate pod (w.cri.listed id) pod.spec.containers).count name := by
    rw [← h.names, List.count, List.countP_map]
    apply List.countP_congr
    intro x hx
    have hhere := h.here x hx
    simp [runs, hhere.1, hhere.2]
  rw [h.containers]
  by_cases hname : name ∈ pod.spec.names
  · rw [if_pos hname, ← hcount, ← runningIn_append]
    unfold runningIn
    rw [List.countP_map]
    apply List.countP_congr
    intro x hx
    by_cases hsel : Selected (isUndesired pod) (w.cri.listed id) x.id
    · -- the container that was selected has this identifier, and its name is not in the spec
      have hselected := hsel
      obtain ⟨c, hc, hund, hcid⟩ := hselected
      have hc₁ : c ∈ w.cri.containers ++ new := List.mem_append_left _ ((hmem c).1 hc).1
      have hxc : c = x := List.inj_on_of_nodup_map h.ids hc₁ hx hcid
      have hother : x.metadata.name ≠ name := by
        intro heq
        rw [hxc, not_isUndesired (heq ▸ hname)] at hund
        cases hund
      simp only [Function.comp_apply, if_pos hsel]
      simp [runs, hother]
    · simp only [Function.comp_apply, if_neg hsel]
  · rw [if_neg hname]
    unfold runningIn
    rw [List.countP_eq_zero]
    intro y hy hruns
    obtain ⟨x, hx, rfl⟩ := List.mem_map.1 hy
    by_cases hsel : Selected (isUndesired pod) (w.cri.listed id) x.id
    · simp [hsel, runs] at hruns
    · rw [if_neg hsel] at hruns
      rcases List.mem_append.1 hx with hx | hx
      · simp only [runs, Bool.and_eq_true, beq_iff_eq] at hruns
        have hund : isUndesired pod x = true := by
          apply isUndesired_of_running _ hruns.2
          rw [hruns.1.2]
          exact hname
        exact hsel ⟨x, (hmem x).2 ⟨hx, hruns.1.1⟩, hund, rfl⟩
      · rw [List.count_eq_zero_of_not_mem fun hc => hname (mem_toCreate hc)] at hcount
        exact (List.countP_eq_zero.1 hcount) x hx hruns

theorem doSync_of_not_inUse (pod : Pod) {w : World} (halive : Alive w) (h : ∀ id, ¬ InUse w id) :
    ∃ id w₁, Alive w₁ ∧ InUse w₁ id ∧ (∀ x ∈ w₁.cri.containers, x.podSandboxId ≠ id) ∧
      doSync pod [] w = doSync pod [] w₁ := by
  obtain ⟨id, w₁, hrun, huse, hstate, hempty⟩ :=
    ensureSandbox_of_not_inUse pod (w := w.setState .syncing) h
  have halive₁ : Alive w₁ := by
    unfold Alive
    rw [hstate]
    simp [World.setState]
  have hself : w₁.setState .syncing = w₁ := by
    obtain ⟨c, st, sid⟩ := w₁
    have hst : st = .syncing := hstate
    rw [hst]
    rfl
  have hleft : doSync pod [] w = (ensureSandbox pod >>= fun sandboxId => do
      let criContainers ← callCri (Cri.listContainers (inSandbox sandboxId))
      let out ← startDesired pod sandboxId criContainers pod.spec.containers
        { SyncOutcome.empty with sandboxId := some sandboxId }
      let out ← stopSelected (isUndesired pod) 30 criContainers out
      Faulty.update (World.setState .waiting)
      pure out) [] (w.setState .syncing) := by
    have hread : (Faulty.read World.state : Run _) [] w = (.ok w.state, w, []) := rfl
    unfold doSync
    rw [Faulty.bind_of_ok hread, if_neg halive]
    rfl
  have hright : doSync pod [] w₁ = (ensureSandbox pod >>= fun sandboxId => do
      let criContainers ← callCri (Cri.listContainers (inSandbox sandboxId))
      let out ← startDesired pod sandboxId criContainers pod.spec.containers
        { SyncOutcome.empty with sandboxId := some sandboxId }
      let out ← stopSelected (isUndesired pod) 30 criContainers out
      Faulty.update (World.setState .waiting)
      pure out) [] w₁ := by
    have hread : (Faulty.read World.state : Run _) [] w₁ = (.ok w₁.state, w₁, []) := rfl
    have hset : (Faulty.update (World.setState .syncing) : Run _) [] w₁ =
        (.ok (), w₁, []) := by
      show (Except.ok (), w₁.setState .syncing, _) = _
      rw [hself]
    unfold doSync
    rw [Faulty.bind_of_ok hread, if_neg halive₁, Faulty.bind_of_ok hset]
  refine ⟨id, w₁, halive₁, huse, hempty, ?_⟩
  rw [hleft, hright, Faulty.bind_of_ok hrun,
    Faulty.bind_of_ok (ensureSandbox_of_inUse pod huse)]

/-- A container of the sandbox has the name and the state. -/
def HasState (w : World) (id : Nat) (name : String) (state : Cri.ContainerState) : Prop :=
  ∃ x ∈ w.cri.containers, x.podSandboxId = id ∧ x.metadata.name = name ∧ x.state = state

theorem any_listed {w : World} {id : Nat} {name : String} {state : Cri.ContainerState} :
    ((w.cri.listed id).any fun c => c.metadata.name == name && c.state == state) = true ↔
      HasState w id name state := by
  rw [List.any_eq_true]
  constructor
  · rintro ⟨x, hx, h⟩
    obtain ⟨hmem, hid⟩ := (mem_listed (listContainers_inSandbox w.cri id)).1 hx
    simp only [Bool.and_eq_true, beq_iff_eq] at h
    exact ⟨x, hmem, hid, h.1, h.2⟩
  · rintro ⟨x, hx, hid, hname, hstate⟩
    exact ⟨x, (mem_listed (listContainers_inSandbox w.cri id)).2 ⟨hx, hid⟩, by
      simp [hname, hstate]⟩

theorem computeContainerAction_always {w : World} {id : Nat} {d : Container} :
    computeContainerAction d (w.cri.listed id) .always = .create ↔
      ¬ HasState w id d.name .running ∧ ¬ HasState w id d.name .created := by
  rw [← any_listed, ← any_listed]
  unfold computeContainerAction
  simp only []
  split_ifs <;> simp_all

theorem runningIn_pos_iff {w : World} {id : Nat} {name : String} :
    0 < runningIn w.cri.containers id name ↔ HasState w id name .running := by
  unfold runningIn
  rw [List.countP_pos_iff]
  constructor
  · rintro ⟨x, hx, h⟩
    simp only [runs, Bool.and_eq_true, beq_iff_eq] at h
    exact ⟨x, hx, h.1.1, h.1.2, h.2⟩
  · rintro ⟨x, hx, hid, hname, hstate⟩
    exact ⟨x, hx, by simp [runs, hid, hname, hstate]⟩

theorem nodup_toCreate {pod : Pod} (cs : List Cri.Container) (h : pod.spec.names.Nodup) :
    (toCreate pod cs pod.spec.containers).Nodup :=
  (List.filter_sublist.map _).nodup h

theorem mem_toCreate_iff {pod : Pod} (halways : pod.spec.restartPolicy = .always) {w : World}
    {id : Nat} {name : String} (hname : name ∈ pod.spec.names) :
    name ∈ toCreate pod (w.cri.listed id) pod.spec.containers ↔
      ¬ HasState w id name .running ∧ ¬ HasState w id name .created := by
  unfold toCreate
  rw [halways]
  constructor
  · intro h
    obtain ⟨d, hd, rfl⟩ := List.mem_map.1 h
    exact computeContainerAction_always.1 (of_decide_eq_true (List.mem_filter.1 hd).2)
  · intro h
    obtain ⟨d, hd, rfl⟩ := List.mem_map.1 hname
    refine List.mem_map_of_mem (List.mem_filter.2 ⟨hd, ?_⟩)
    exact decide_eq_true (computeContainerAction_always.2 h)

/-! ## Recovery -/

/-- In the worker's sandbox each container of the spec runs once, and nothing else runs. -/
def Converged (w : World) (pod : Pod) : Prop :=
  ∃ id, w.sandboxId = some id ∧ ∀ name,
    runningIn w.cri.containers id name = if name ∈ pod.spec.names then 1 else 0

/-- In the sandbox in use a container of the spec was created and not started, and none runs under
its name. -/
def Stuck (w : World) (pod : Pod) : Prop :=
  ∃ id, InUse w id ∧ ∃ name ∈ pod.spec.names,
    HasState w id name .created ∧ ¬ HasState w id name .running

/-- A sync without failing calls returns and leaves the pod converged, and a second one does
nothing. -/
def Recovers (w : World) (pod : Pod) : Prop :=
  ∃ out w', syncWorker pod .sync [] w = (.ok out, w', []) ∧ Converged w' pod ∧
    ∃ out₂ w₂, syncWorker pod .sync [] w' = (.ok out₂, w₂, []) ∧ w₂.cri = w'.cri ∧
      out₂.createdContainers = [] ∧ out₂.startedContainers = [] ∧ out₂.killedContainers = []

theorem startDesired_skip (pod : Pod) (id : Nat) (cs : List Cri.Container) :
    ∀ (desired : List Container) (out : SyncOutcome) (w : World),
      toCreate pod cs desired = [] → startDesired pod id cs desired out [] w = (.ok out, w, [])
  | [], out, w, _ => rfl
  | d :: desired, out, w, h => by
    unfold startDesired
    cases haction : computeContainerAction d cs pod.spec.restartPolicy with
    | skip =>
      have hrest : toCreate pod cs desired = [] := by simpa [toCreate, haction] using h
      exact startDesired_skip pod id cs desired out w hrest
    | create => simp [toCreate, haction] at h

theorem stopSelected_none (stops : Cri.Container → Bool) (timeout : Int) :
    ∀ (cs : List Cri.Container) (out : SyncOutcome) (w : World), (∀ c ∈ cs, stops c = false) →
      stopSelected stops timeout cs out [] w = (.ok out, w, [])
  | [], out, w, _ => rfl
  | c :: cs, out, w, h => by
    unfold stopSelected
    rw [h c List.mem_cons_self]
    exact stopSelected_none stops timeout cs out w fun d hd => h d (List.mem_cons_of_mem c hd)

theorem doSync_of_converged {pod : Pod} (halways : pod.spec.restartPolicy = .always) {w : World}
    {id : Nat} (halive : Alive w) (h : InUse w id)
    (hconv : ∀ name, runningIn w.cri.containers id name = if name ∈ pod.spec.names then 1 else 0) :
    doSync pod [] w = (.ok ⟨some id, [], [], []⟩, w.setState .waiting, []) := by
  have hread : (Faulty.read World.state : Run _) [] w = (.ok w.state, w, []) := rfl
  have hset : (Faulty.update (World.setState .syncing) : Run _) [] w =
      (.ok (), w.setState .syncing, []) := rfl
  have huse : InUse (w.setState .syncing) id := h
  have hlist : callCri (Cri.listContainers (inSandbox id)) [] (w.setState .syncing) =
      (.ok (w.cri.listed id), w.setState .syncing, []) := rfl
  have hskip : toCreate pod (w.cri.listed id) pod.spec.containers = [] := by
    rw [List.eq_nil_iff_forall_not_mem]
    intro name hname
    have hspec : name ∈ pod.spec.names := mem_toCreate hname
    have hnot := ((mem_toCreate_iff halways hspec).1 hname).1
    have hone := hconv name
    rw [if_pos hspec] at hone
    exact hnot (runningIn_pos_iff.1 (by omega))
  have hnone : ∀ c ∈ w.cri.listed id, isUndesired pod c = false := by
    intro c hc
    obtain ⟨hmem, hid⟩ := (mem_listed (listContainers_inSandbox w.cri id)).1 hc
    by_cases hname : c.metadata.name ∈ pod.spec.names
    · exact not_isUndesired hname
    · have hzero := hconv c.metadata.name
      rw [if_neg hname] at hzero
      have hstill : c.state ≠ .running := fun hrun => by
        have hpos := runningIn_pos_iff.2 ⟨c, hmem, hid, rfl, hrun⟩
        omega
      simp [isUndesired, hstill]
  unfold doSync
  rw [Faulty.bind_of_ok hread, if_neg halive, Faulty.bind_of_ok hset,
    Faulty.bind_of_ok (ensureSandbox_of_inUse pod huse), Faulty.bind_of_ok hlist,
    Faulty.bind_of_ok (startDesired_skip pod id _ _ _ _ hskip),
    Faulty.bind_of_ok (stopSelected_none _ 30 _ _ _ hnone)]
  rfl

theorem recovers_of_inUse {pod : Pod} (halways : pod.spec.restartPolicy = .always)
    (hnodup : pod.spec.names.Nodup) {w : World} {id : Nat} (halive : Alive w) (h : InUse w id)
    (hsingle : ∀ name, runningIn w.cri.containers id name ≤ 1) :
    Recovers w pod ↔ ∀ name ∈ pod.spec.names,
      HasState w id name .created → HasState w id name .running := by
  obtain ⟨out, w', new, hrun, hsynced⟩ := doSync_synced pod halive h
  have hcount := hsynced.runningIn_eq
  have hone : ∀ name ∈ pod.spec.names, (runningIn w'.cri.containers id name = 1 ↔
      (HasState w id name .created → HasState w id name .running)) := by
    intro name hname
    have hle := hsingle name
    have hmem : name ∈ toCreate pod (w.cri.listed id) pod.spec.containers ↔
        ¬ HasState w id name .running ∧ ¬ HasState w id name .created :=
      mem_toCreate_iff halways hname
    have hpos : 0 < runningIn w.cri.containers id name ↔ HasState w id name .running :=
      runningIn_pos_iff
    rw [hcount, if_pos hname, (nodup_toCreate _ hnodup).count]
    by_cases hr : HasState w id name .running
    · have hnot : name ∉ toCreate pod (w.cri.listed id) pod.spec.containers :=
        fun hc => (hmem.1 hc).1 hr
      have hp := hpos.2 hr
      simp only [hnot, if_false, hr, implies_true, iff_true]
      omega
    · have hz : runningIn w.cri.containers id name = 0 := by
        by_contra hne
        exact hr (hpos.1 (by omega))
      by_cases hc : HasState w id name .created
      · have hnot : name ∉ toCreate pod (w.cri.listed id) pod.spec.containers :=
          fun hcr => (hmem.1 hcr).2 hc
        simp [hnot, hz, hr, hc]
      · have hyes : name ∈ toCreate pod (w.cri.listed id) pod.spec.containers := hmem.2 ⟨hr, hc⟩
        simp [hyes, hz, hc]
  constructor
  · rintro ⟨out₁, w₁, hrun₁, ⟨j, hj, hconv⟩, -⟩ name hname
    have hsame : w₁ = w' := by
      have heq := hrun₁.symm.trans hrun
      exact congrArg (fun r => r.2.1) heq
    rw [hsame] at hj hconv
    rw [hsynced.inUse.1, Option.some.injEq] at hj
    have hn := hconv name
    rw [if_pos hname, ← hj] at hn
    exact (hone name hname).1 hn
  · intro hok
    have hconv : ∀ name, runningIn w'.cri.containers id name =
        if name ∈ pod.spec.names then 1 else 0 := by
      intro name
      by_cases hname : name ∈ pod.spec.names
      · rw [if_pos hname]
        exact (hone name hname).2 (hok name hname)
      · rw [hcount, if_neg hname, if_neg hname]
    exact ⟨out, w', hrun, ⟨id, hsynced.inUse.1, hconv⟩, _, _,
      doSync_of_converged halways hsynced.alive hsynced.inUse hconv, rfl, rfl, rfl, rfl⟩

theorem recovers_iff {pod : Pod} (halways : pod.spec.restartPolicy = .always)
    (hnodup : pod.spec.names.Nodup) {w : World} (halive : Alive w) (hsingle : Single w) :
    Recovers w pod ↔ ¬ Stuck w pod := by
  by_cases huse : ∃ id, InUse w id
  · obtain ⟨id, huse⟩ := huse
    rw [recovers_of_inUse halways hnodup halive huse (hsingle id huse.1)]
    constructor
    · rintro h ⟨j, hj, name, hname, hcreated, hrunning⟩
      obtain rfl : id = j := Option.some.inj (huse.1.symm.trans hj.1)
      exact hrunning (h name hname hcreated)
    · intro h name hname hcreated
      by_contra hrunning
      exact h ⟨id, huse, name, hname, hcreated, hrunning⟩
  · have hnone : ∀ id, ¬ InUse w id := fun id h => huse ⟨id, h⟩
    obtain ⟨id, w₁, halive₁, huse₁, hempty, hsame⟩ := doSync_of_not_inUse pod halive hnone
    have hfresh : Recovers w₁ pod := by
      rw [recovers_of_inUse halways hnodup halive₁ huse₁]
      · rintro name - ⟨x, hx, hid, -⟩
        exact absurd hid (hempty x hx)
      · intro name
        rw [runningIn_of_not_in hempty]
        exact Nat.zero_le 1
    obtain ⟨out, w', hrun, hrest⟩ := hfresh
    have hrun' : syncWorker pod .sync [] w = (.ok out, w', []) := hsame.trans hrun
    exact iff_of_true ⟨out, w', hrun', hrest⟩ fun ⟨id, h, _⟩ => hnone id h

/-- After every history of syncs that were cut short by failing calls, of lost sandboxes and of
containers that exited, a sync without failing calls repairs the pod if and only if no container of
its spec is stuck. -/
theorem sync_recovers_iff {c : Cri} {events : List Event} (he : ∀ e ∈ events, IsSync e) {pod : Pod}
    (halways : pod.spec.restartPolicy = .always) (hnodup : pod.spec.names.Nodup) :
    Recovers ((World.start c).run events) pod ↔ ¬ Stuck ((World.start c).run events) pod := by
  have halive : Alive (World.start c) := by simp [Alive, World.start]
  have hsingle : Single (World.start c) := by
    intro id hid
    simp [World.start] at hid
  exact recovers_iff halways hnodup (alive_run halive he) (hsingle.run he)

/-- The call that runs the sandbox fails at first. -/
theorem sync_recovers_iff_demo :
    Recovers ((World.start Cri.new).run [.call onePod .sync [some (.transport "broken pipe")]])
      onePod := by
  rw [sync_recovers_iff (fun e he => ?_) rfl (by decide)]
  · rintro ⟨id, h, -⟩
    have hnone : ((World.start Cri.new).run
        [.call onePod .sync [some (.transport "broken pipe")]]).sandboxId = none := by
      decide
    rw [InUse, hnone] at h
    cases h.1
  · rw [List.mem_singleton.1 he]
    exact ⟨rfl, by decide⟩

/-- The container was created and not started, and no later sync starts it. -/
theorem sync_leaves_created :
    ¬ ∀ (c : Cri) (events : List Event) (pod : Pod), (∀ e ∈ events, IsSync e) →
        pod.spec.restartPolicy = .always → pod.spec.names.Nodup →
        Recovers ((World.start c).run events) pod := by
  intro h
  let faults : List (Option CriError) := [none, none, none, some (.transport "broken pipe")]
  obtain ⟨out, w', hrun, ⟨id, hid, hconv⟩, -⟩ := h Cri.new [.call onePod .sync faults] onePod
    (fun e he => by
      rw [List.mem_singleton.1 he]
      exact ⟨rfl, by decide⟩) rfl (by decide)
  have hw' : w' = (syncWorker onePod .sync [] ((World.start Cri.new).run
      [.call onePod .sync faults])).2.1 := by
    rw [hrun]
  have hsand : w'.sandboxId = some 1 := by
    rw [hw']
    decide
  have hstill : runningIn w'.cri.containers 1 "app" = 0 := by
    rw [hw']
    decide
  rw [hsand, Option.some.injEq] at hid
  have hone := hconv "app"
  rw [← hid, hstill] at hone
  exact absurd hone (by decide)

end CaveHome.Kubelet
