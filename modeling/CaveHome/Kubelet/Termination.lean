import CaveHome.Kubelet.PodWorker

/-!
# Termination of a pod

The worker is called with any work in any order while calls to the runtime fail, containers exit
and sandboxes are lost.  The termination of the pod is final in every run in which no `Sync` comes
between `Terminating` and `Terminated`, no `Terminating` comes after `Terminated`, and the cleanup
of a cached sandbox does not fail.
-/

namespace CaveHome.Kubelet

open Cri (CriError CriCall)

/-! ## Runs -/

/-- A call to the worker, with the answers that make calls to the runtime fail; or something that
happens in the runtime by itself. -/
inductive Event
  | call (pod : Pod) (work : WorkType) (faults : List (Option CriError))
  | exited (container : Nat) (code : Int)
  | halted (sandbox : Nat)
  | lost (sandbox : Nat)

/-- A running container exits. -/
def Cri.exitContainer (id : Nat) (code : Int) (c : Cri) : Cri :=
  c.mapContainers
    (fun x => if x.id = id ∧ x.state = .running then { x with state := .exited, exitCode := code }
      else x)
    fun x => by split <;> exact ⟨rfl, rfl⟩

namespace World

/-- A new worker.  The history begins with it. -/
def start (c : Cri) : World := ⟨{ c with history := [] }, .idle, none⟩

def step (w : World) : Event → World
  | .call pod work faults => (syncWorker pod work faults w).2.1
  | .exited id code => { w with cri := w.cri.exitContainer id code }
  | .halted id => { w with cri := w.cri.haltSandbox id }
  | .lost id => { w with cri := w.cri.dropSandbox id }

def run (w : World) (events : List Event) : World := events.foldl step w

/-- What a call to the worker returns. -/
def result (w : World) (pod : Pod) (work : WorkType) (faults : List (Option CriError)) :
    Except CriError SyncOutcome :=
  (syncWorker pod work faults w).1

end World

/-- The sandbox is in the store. -/
def Cri.Has (c : Cri) (id : Nat) : Prop := ∃ s ∈ c.sandboxes, s.id = id

/-- The call creates or starts a container or runs a sandbox. -/
def Cri.CriCall.Starts : CriCall → Prop
  | .ranPodSandbox _ | .createdContainer _ | .startedContainer _ => True
  | _ => False

/-! ## What the calls to the runtime do -/

namespace Cri

variable {c c' c'' : Cri}

/-- No sandbox is run. -/
structure Tame (c c' : Cri) : Prop where
  seq : c.seq ≤ c'.seq
  has : ∀ id, c'.Has id → c.Has id
  ran : ∀ id, .ranPodSandbox id ∈ c'.history → .ranPodSandbox id ∈ c.history

/-- Nothing is created or started. -/
def Quiet (c c' : Cri) : Prop := ∃ l, c'.history = c.history ++ l ∧ ∀ x ∈ l, ¬ x.Starts

theorem Tame.refl (c : Cri) : Tame c c := ⟨Nat.le_refl _, fun _ h => h, fun _ h => h⟩

theorem Tame.trans (h₁ : Tame c c') (h₂ : Tame c' c'') : Tame c c'' :=
  ⟨Nat.le_trans h₁.seq h₂.seq, fun id h => h₁.has id (h₂.has id h),
    fun id h => h₁.ran id (h₂.ran id h)⟩

theorem Quiet.refl (c : Cri) : Quiet c c := ⟨[], by simp, by simp⟩

theorem Quiet.trans (h₁ : Quiet c c') (h₂ : Quiet c' c'') : Quiet c c'' := by
  obtain ⟨l₁, e₁, q₁⟩ := h₁
  obtain ⟨l₂, e₂, q₂⟩ := h₂
  refine ⟨l₁ ++ l₂, by rw [e₂, e₁, List.append_assoc], fun x hx => ?_⟩
  rcases List.mem_append.1 hx with hx | hx
  · exact q₁ x hx
  · exact q₂ x hx

theorem tame_record (c c' : Cri) (call : CriCall) (hcall : ∀ id, call ≠ .ranPodSandbox id)
    (hseq : c.seq ≤ c'.seq) (hhas : ∀ id, c'.Has id → c.Has id) (hhist : c'.history = c.history) :
    Tame c (c'.record call) := by
  refine ⟨hseq, hhas, fun id h => ?_⟩
  rcases List.mem_append.1 h with h | h
  · exact hhist ▸ h
  · exact absurd (List.mem_singleton.1 h).symm (hcall id)

theorem quiet_record (hhist : c'.history = c.history) {call : CriCall} (hcall : ¬ call.Starts) :
    Quiet c (c'.record call) := by
  refine ⟨[call], by rw [record, hhist], fun x hx => ?_⟩
  rw [List.mem_singleton.1 hx]
  exact hcall

theorem has_haltSandbox (id j : Nat) : (c.haltSandbox id).Has j ↔ c.Has j := by
  have hid : ∀ s : PodSandbox, (if s.id = id then { s with state := .notReady } else s).id = s.id :=
    fun s => by split <;> rfl
  simp [Has, haltSandbox, hid]

theorem has_dropSandbox (id j : Nat) : (c.dropSandbox id).Has j ↔ c.Has j ∧ j ≠ id := by
  simp only [Has, dropSandbox, List.mem_filter, decide_eq_true_eq]
  constructor
  · rintro ⟨s, ⟨hs, hne⟩, rfl⟩
    exact ⟨⟨s, hs, rfl⟩, hne⟩
  · rintro ⟨⟨s, hs, rfl⟩, hne⟩
    exact ⟨s, ⟨hs, hne⟩, rfl⟩

theorem has_of_sandbox? {id : Nat} {s : PodSandbox} (h : c.sandbox? id = some s) : c.Has id :=
  ⟨s, List.mem_of_find?_eq_some h, by simpa using List.find?_some h⟩

theorem not_has_of_sandbox? {id : Nat} (h : c.sandbox? id = none) : ¬ c.Has id := by
  rintro ⟨s, hs, hid⟩
  have hne := List.find?_eq_none.1 h s hs
  exact hne (by simpa using hid)

/-- A call that neither creates nor starts anything. -/
def Settles {α : Type} (op : Cri → Except CriError α × Cri) : Prop :=
  ∀ c, Tame c (op c).2 ∧ Quiet c (op c).2

theorem settles_listContainers (filter : ContainerFilter) : Settles (listContainers filter) :=
  fun c => ⟨.refl c, .refl c⟩

theorem settles_stopPodSandbox (id : Nat) : Settles (stopPodSandbox id) := by
  intro c
  unfold stopPodSandbox
  split
  · exact ⟨.refl c, .refl c⟩
  · exact ⟨tame_record c (c.haltSandbox id) (.stoppedPodSandbox id) (by simp) (Nat.le_refl _)
        (fun j => (has_haltSandbox id j).1) rfl,
      quiet_record rfl (by simp [CriCall.Starts])⟩

theorem settles_removePodSandbox (id : Nat) : Settles (removePodSandbox id) := by
  intro c
  unfold removePodSandbox
  split
  · exact ⟨.refl c, .refl c⟩
  · split
    · exact ⟨.refl c, .refl c⟩
    · exact ⟨tame_record c (c.dropSandbox id) (.removedPodSandbox id) (by simp) (Nat.le_refl _)
          (fun j h => ((has_dropSandbox id j).1 h).1) rfl,
        quiet_record rfl (by simp [CriCall.Starts])⟩

theorem settles_tick (c : Cri) : Tame c c.tick ∧ Quiet c c.tick :=
  ⟨⟨Nat.le_refl _, fun _ h => h, fun _ h => h⟩, [], by simp [tick], by simp⟩

theorem settles_stopContainer (id : Nat) (timeout : Int) : Settles (stopContainer id timeout) := by
  intro c
  unfold stopContainer
  split
  · exact settles_tick c
  · split
    · exact settles_tick c
    · exact ⟨tame_record c _ (.stoppedContainer id) (by simp) (Nat.le_refl _) (fun _ h => h) rfl,
        quiet_record rfl (by simp [CriCall.Starts])⟩

theorem settles_removeContainer (id : Nat) : Settles (removeContainer id) := by
  intro c
  unfold removeContainer
  split
  · exact ⟨.refl c, .refl c⟩
  · split
    · exact ⟨.refl c, .refl c⟩
    · exact ⟨tame_record c _ (.removedContainer id) (by simp) (Nat.le_refl _) (fun _ h => h) rfl,
        quiet_record rfl (by simp [CriCall.Starts])⟩

theorem tame_createContainer (id : Nat) (cfg : ContainerConfig) (scfg : PodSandboxConfig) :
    Tame c (createContainer id cfg scfg c).2 := by
  unfold createContainer
  split
  · refine ⟨Nat.le_succ _, fun _ h => h, fun j h => ?_⟩
    rcases List.mem_append.1 h with h | h
    · exact h
    · simp at h
  · exact .refl c

theorem tame_startContainer (id : Nat) : Tame c (startContainer id c).2 := by
  unfold startContainer
  split
  · exact (settles_tick c).1
  · split
    · exact (settles_tick c).1
    · exact tame_record c _ (.startedContainer id) (by simp) (Nat.le_refl _) (fun _ h => h) rfl

theorem not_has_of_removed {id : Nat} (h : removePodSandbox id c = (.ok (), c')) : ¬ c'.Has id := by
  unfold removePodSandbox at h
  split at h
  · cases h
  · split at h
    · cases h
    · cases h
      exact fun hhas => ((has_dropSandbox id id).1 hhas).2 rfl

end Cri

/-! ## What the handlers keep -/

theorem keeps_callCri {α : Type} {op : Cri → Except CriError α × Cri} {I : World → Prop}
    (h : ∀ w, I w → I { w with cri := (op w.cri).2 }) : (callCri op).Keeps I :=
  Faulty.Keeps.call h

theorem triple_callCri {α : Type} {op : Cri → Except CriError α × Cri} {P E : World → Prop}
    {Q : α → World → Prop} (hE : ∀ w, P w → E w)
    (hok : ∀ w a c, P w → op w.cri = (.ok a, c) → Q a { w with cri := c })
    (herr : ∀ w e c, P w → op w.cri = (.error e, c) → E { w with cri := c }) :
    Faulty.Triple P (callCri op) Q E := by
  refine Faulty.Triple.call hE (fun w a w' h hop => ?_) fun w e w' h hop => ?_
  · rcases hcri : op w.cri with ⟨r, c⟩
    simp only [World.onCri, hcri, Prod.mk.injEq] at hop
    obtain ⟨rfl, rfl⟩ := hop
    exact hok w a c h hcri
  · rcases hcri : op w.cri with ⟨r, c⟩
    simp only [World.onCri, hcri, Prod.mk.injEq] at hop
    obtain ⟨rfl, rfl⟩ := hop
    exact herr w e c h hcri

section Settling

variable {I : World → Prop}

/-- An invariant that a call which settles keeps. -/
def Lasting (I : World → Prop) : Prop :=
  ∀ w c, I w → Cri.Tame w.cri c → Cri.Quiet w.cri c → I { w with cri := c }

theorem Lasting.keeps (hI : Lasting I) {α : Type} {op : Cri → Except CriError α × Cri}
    (h : Cri.Settles op) : (callCri op).Keeps I :=
  keeps_callCri fun w hw => hI w _ hw (h w.cri).1 (h w.cri).2

theorem Lasting.keeps_stopSelected (hI : Lasting I) {stops : Cri.Container → Bool} {timeout : Int} :
    ∀ (cs : List Cri.Container) (out : SyncOutcome), (stopSelected stops timeout cs out).Keeps I
  | [], out => Faulty.Keeps.pure out
  | c :: cs, out => by
    unfold stopSelected
    split
    · exact (hI.keeps (Cri.settles_stopContainer _ _)).bind fun _ => hI.keeps_stopSelected cs _
    · exact hI.keeps_stopSelected cs out

theorem Lasting.keeps_removeAll (hI : Lasting I) :
    ∀ cs : List Cri.Container, (removeAll cs).Keeps I
  | [] => Faulty.Keeps.pure ()
  | c :: cs => by
    unfold removeAll
    apply Faulty.Keeps.bind
    · unfold stopRunning
      split
      · exact hI.keeps (Cri.settles_stopContainer _ _)
      · exact Faulty.Keeps.pure ()
    · exact fun _ => (hI.keeps (Cri.settles_removeContainer _)).bind fun _ => hI.keeps_removeAll cs

theorem Lasting.keeps_doTerminating (hI : Lasting I)
    (hset : ∀ w, I w → I (w.setState .terminating)) (pod : Pod) : (doTerminating pod).Keeps I := by
  unfold doTerminating
  apply (Faulty.Keeps.update hset).bind
  intro _
  apply (Faulty.Keeps.read _).bind
  intro cached
  cases cached with
  | none => exact Faulty.Keeps.pure _
  | some id =>
    apply (hI.keeps (Cri.settles_listContainers _)).bind
    intro cs
    apply (hI.keeps_stopSelected cs _).bind
    exact fun out => Faulty.Keeps.pure _

theorem Lasting.keeps_doTerminated (hI : Lasting I)
    (hset : ∀ w, I w → I (w.setState .terminated))
    (hid : ∀ w, I w → I (w.setSandboxId none)) (pod : Pod) : (doTerminated pod).Keeps I := by
  unfold doTerminated
  apply (Faulty.Keeps.read _).bind
  intro cached
  cases cached with
  | none => exact (Faulty.Keeps.update hset).bind fun _ => Faulty.Keeps.pure _
  | some id =>
    apply (hI.keeps (Cri.settles_listContainers _)).bind
    intro cs
    apply (hI.keeps_removeAll cs).bind
    intro _
    apply (hI.keeps (Cri.settles_stopPodSandbox id)).bind
    intro _
    apply (hI.keeps (Cri.settles_removePodSandbox id)).bind
    intro _
    apply (Faulty.Keeps.update hid).bind
    intro _
    apply (Faulty.Keeps.update hset).bind
    exact fun _ => Faulty.Keeps.pure _

end Settling

/-! ## The sandboxes of a worker -/

/-- A sandbox that the worker has run and that is still there is the cached one; a worker that is
done has none. -/
structure Inv (w : World) : Prop where
  fresh : ∀ id, .ranPodSandbox id ∈ w.cri.history → id < w.cri.seq
  owned : ∀ id, .ranPodSandbox id ∈ w.cri.history → w.cri.Has id → w.sandboxId = some id
  done : w.state = .terminated → w.sandboxId = none

theorem inv_start (c : Cri) : Inv (World.start c) where
  fresh := fun id h => by simp [World.start] at h
  owned := fun id h => by simp [World.start] at h
  done := fun h => by simp [World.start] at h

theorem Inv.tame {w : World} (h : Inv w) {c : Cri} (hc : Cri.Tame w.cri c) :
    Inv { w with cri := c } where
  fresh := fun id hid => Nat.lt_of_lt_of_le (h.fresh id (hc.ran id hid)) hc.seq
  owned := fun id hid hhas => h.owned id (hc.ran id hid) (hc.has id hhas)
  done := h.done

theorem lasting_inv : Lasting Inv := fun _ _ h hc _ => h.tame hc

theorem Inv.setState {w : World} (h : Inv w) {state : PodWorkerState} (hs : state ≠ .terminated) :
    Inv (w.setState state) :=
  ⟨h.fresh, h.owned, fun hd => absurd hd hs⟩

theorem Inv.forget {w : World} (h : Inv w) {id : Nat} (hid : w.sandboxId = some id)
    (hgone : ¬ w.cri.Has id) : Inv (w.setSandboxId none) where
  fresh := h.fresh
  owned := fun j hj hhas => by
    have hsame := h.owned j hj hhas
    rw [hid, Option.some.injEq] at hsame
    exact absurd hhas (hsame ▸ hgone)
  done := fun _ => rfl

theorem doTerminated_inv (pod : Pod) :
    Faulty.Triple Inv (doTerminated pod)
      (fun _ w => Inv w ∧ w.sandboxId = none ∧ w.state = .terminated) Inv := by
  unfold doTerminated
  apply Faulty.Triple.bind (Q := fun cached w => Inv w ∧ w.sandboxId = cached)
  · exact Faulty.Triple.read fun w h => ⟨h, rfl⟩
  · intro cached
    cases cached with
    | none =>
      apply Faulty.Triple.bind
        (Q := fun _ w => Inv w ∧ w.sandboxId = none ∧ w.state = .terminated)
      · exact Faulty.Triple.update fun w h => ⟨⟨h.1.fresh, h.1.owned, fun _ => h.2⟩, h.2, rfl⟩
      · exact fun _ => Faulty.Triple.pure fun w h => h
    | some id =>
      let Held (w : World) : Prop := Inv w ∧ w.sandboxId = some id
      have hheld : Lasting Held := fun w c h hc _ => ⟨h.1.tame hc, h.2⟩
      have hkeep {α : Type} {p : Run α} (hp : p.Keeps Held) :
          Faulty.Triple Held p (fun _ => Held) Inv :=
        hp.conseq (fun _ h => h) (fun _ _ h => h) fun _ h => h.1
      apply (hkeep (hheld.keeps (Cri.settles_listContainers _))).bind
      intro cs
      apply (hkeep (hheld.keeps_removeAll cs)).bind
      intro _
      apply (hkeep (hheld.keeps (Cri.settles_stopPodSandbox id))).bind
      intro _
      apply Faulty.Triple.bind (Q := fun _ w => Held w ∧ ¬ w.cri.Has id)
      · apply triple_callCri
        · exact fun w h => h.1
        · intro w _ c h hop
          have htame := (Cri.settles_removePodSandbox id w.cri).1
          rw [hop] at htame
          exact ⟨⟨h.1.tame htame, h.2⟩, Cri.not_has_of_removed hop⟩
        · intro w _ c h hop
          have htame := (Cri.settles_removePodSandbox id w.cri).1
          rw [hop] at htame
          exact h.1.tame htame
      · intro _
        apply Faulty.Triple.bind (Q := fun _ w => Inv w ∧ w.sandboxId = none)
        · exact Faulty.Triple.update fun w h => ⟨h.1.1.forget h.1.2 h.2, rfl⟩
        · intro _
          apply Faulty.Triple.bind
            (Q := fun _ w => Inv w ∧ w.sandboxId = none ∧ w.state = .terminated)
          · exact Faulty.Triple.update fun w h => ⟨⟨h.1.fresh, h.1.owned, fun _ => h.2⟩, h.2, rfl⟩
          · exact fun _ => Faulty.Triple.pure fun w h => h

/-! ## Sync -/

/-- The cleanup of the cached sandbox works: the sandbox is not there, or it is found to be ready,
or the call that removes it goes through, and so does the one that stops it if it is ready. -/
def CleansUp (w : World) (faults : List (Option CriError)) : Prop :=
  ∀ id s, w.sandboxId = some id → w.cri.sandbox? id = some s →
    (s.state = .ready ∧ Faulty.next faults = none) ∨
      (Faulty.next faults.tail.tail = none ∧
        (s.state = .notReady ∨ Faulty.next faults.tail = none))

theorem runSandbox_inv (pod : Pod) :
    Faulty.Triple (fun w => Inv w ∧ w.sandboxId = none ∧ w.state ≠ .terminated)
      (ensureSandbox.runSandbox pod) (fun _ => Inv) Inv := by
  unfold ensureSandbox.runSandbox
  apply Faulty.Triple.bind (Q := fun newId w =>
    (∀ id, .ranPodSandbox id ∈ w.cri.history → id < w.cri.seq) ∧
      (∀ id, .ranPodSandbox id ∈ w.cri.history → w.cri.Has id → id = newId) ∧
      w.state ≠ .terminated)
  · apply triple_callCri
    · exact fun w h => h.1
    · rintro w newId c ⟨h, hnone, hstate⟩ hop
      cases hop
      refine ⟨fun id hid => ?_, fun id hid hhas => ?_, hstate⟩
      · rcases List.mem_append.1 hid with hid | hid
        · exact Nat.lt_succ_of_lt (h.fresh id hid)
        · cases List.mem_singleton.1 hid
          exact Nat.lt_succ_self _
      · rcases List.mem_append.1 hid with hid | hid
        · obtain ⟨s, hs, rfl⟩ := hhas
          rcases List.mem_append.1 hs with hs | hs
          · have howned := h.owned s.id hid ⟨s, hs, rfl⟩
            rw [hnone] at howned
            cases howned
          · rw [List.mem_singleton.1 hs]
        · cases List.mem_singleton.1 hid
          rfl
    · rintro w e c _ hop
      cases hop
  · intro newId
    apply Faulty.Triple.bind (Q := fun _ => Inv)
    · refine Faulty.Triple.update fun w h => ⟨h.1, fun id hid hhas => ?_, fun hd => ?_⟩
      · rw [h.2.1 id hid hhas]
        rfl
      · exact absurd hd h.2.2
    · exact fun _ => Faulty.Triple.pure fun w h => h

theorem sandbox?_haltSandbox {c : Cri} {id : Nat} {s : Cri.PodSandbox}
    (h : c.sandbox? id = some s) :
    (c.haltSandbox id).sandbox? id = some { s with state := .notReady } := by
  have hid : s.id = id := by simpa using List.find?_some h
  have hsame : ((fun s : Cri.PodSandbox => decide (s.id = id)) ∘
      fun s => if s.id = id then { s with state := .notReady } else s) =
      fun s => decide (s.id = id) := by
    funext t
    by_cases ht : t.id = id <;> simp [ht]
  unfold Cri.sandbox? Cri.haltSandbox at *
  rw [List.find?_map, hsame, h, Option.map_some, if_pos hid]

theorem not_has_of_unready {c : Cri} {id : Nat} {s : Cri.PodSandbox} (h : c.sandbox? id = some s)
    (hs : s.state = .notReady) : ¬ (Cri.removePodSandbox id c).2.Has id := by
  have hok : Cri.removePodSandbox id c = (.ok (), (Cri.removePodSandbox id c).2) := by
    unfold Cri.removePodSandbox
    rw [h]
    simp [hs]
  exact Cri.not_has_of_removed hok

theorem attempt_callCri {α : Type} (op : Cri → Except CriError α × Cri)
    (faults : List (Option CriError)) (w : World) :
    (Faulty.next faults = none ∧ (callCri op).attempt faults w =
      (.ok (op w.cri).1, { w with cri := (op w.cri).2 }, faults.tail)) ∨
    ∃ e, Faulty.next faults = some e ∧
      (callCri op).attempt faults w = (.ok (.error e), w, faults.tail) := by
  cases hnext : Faulty.next faults with
  | none => exact .inl ⟨rfl, Faulty.attempt_of_run (Faulty.call_of_next_none hnext)⟩
  | some e => exact .inr ⟨e, rfl, Faulty.attempt_of_run (Faulty.call_of_next_some hnext)⟩

theorem cleanup_spec (w : World) (faults : List (Option CriError)) (id : Nat)
    (hc : ∀ s, w.cri.sandbox? id = some s → Faulty.next faults.tail = none ∧
      (s.state = .notReady ∨ Faulty.next faults = none)) :
    ∃ r₁ c₁ r₂ c₂, (callCri (Cri.stopPodSandbox id)).attempt faults w =
        (.ok r₁, { w with cri := c₁ }, faults.tail) ∧
      (callCri (Cri.removePodSandbox id)).attempt faults.tail { w with cri := c₁ } =
        (.ok r₂, { w with cri := c₂ }, faults.tail.tail) ∧
      Cri.Tame w.cri c₂ ∧ ¬ c₂.Has id := by
  -- the store after the call that stops the sandbox
  obtain ⟨r₁, c₁, hstop, ht₁, hready⟩ : ∃ r₁ c₁, (callCri (Cri.stopPodSandbox id)).attempt faults w =
      (.ok r₁, { w with cri := c₁ }, faults.tail) ∧ Cri.Tame w.cri c₁ ∧
      ∀ s, w.cri.sandbox? id = some s → ∃ s', c₁.sandbox? id = some s' ∧ s'.state = .notReady := by
    rcases attempt_callCri (Cri.stopPodSandbox id) faults w with ⟨hnext, h⟩ | ⟨e, hnext, h⟩
    · refine ⟨_, _, h, (Cri.settles_stopPodSandbox id w.cri).1, fun s hs => ?_⟩
      refine ⟨{ s with state := .notReady }, ?_, rfl⟩
      have hop : (Cri.stopPodSandbox id w.cri).2.sandbox? id = (w.cri.haltSandbox id).sandbox? id := by
        unfold Cri.stopPodSandbox
        rw [hs]
        rfl
      rw [hop]
      exact sandbox?_haltSandbox hs
    · refine ⟨_, w.cri, h, .refl _, fun s hs => ⟨s, hs, ?_⟩⟩
      exact (hc s hs).2.resolve_right (by simp [hnext])
  rcases attempt_callCri (Cri.removePodSandbox id) faults.tail { w with cri := c₁ } with
    ⟨hnext, h⟩ | ⟨e, hnext, h⟩
  · refine ⟨r₁, c₁, _, _, hstop, h, ht₁.trans (Cri.settles_removePodSandbox id c₁).1, ?_⟩
    cases hs : w.cri.sandbox? id with
    | none =>
      intro hhas
      exact Cri.not_has_of_sandbox? hs
        ((ht₁.trans (Cri.settles_removePodSandbox id c₁).1).has id hhas)
    | some s =>
      obtain ⟨s', hs', hstate⟩ := hready s hs
      exact not_has_of_unready hs' hstate
  · refine ⟨r₁, c₁, _, c₁, hstop, h, ht₁, fun hhas => ?_⟩
    cases hs : w.cri.sandbox? id with
    | none => exact Cri.not_has_of_sandbox? hs (ht₁.has id hhas)
    | some s =>
      rw [(hc s hs).1] at hnext
      cases hnext

theorem ensureSandbox_inv (pod : Pod) {w : World} {faults : List (Option CriError)} (h : Inv w)
    (hstate : w.state ≠ .terminated) (hc : CleansUp w faults) :
    Inv (ensureSandbox pod faults w).2.1 := by
  have hread : (Faulty.read World.sandboxId : Run _) faults w = (.ok w.sandboxId, w, faults) := rfl
  unfold ensureSandbox
  rw [Faulty.bind_of_ok hread]
  cases hid : w.sandboxId with
  | none => exact (runSandbox_inv pod).after ⟨h, hid, hstate⟩
  | some id =>
    have hquery : (Cri.podSandboxStatus id w.cri).2 = w.cri := by
      unfold Cri.podSandboxStatus
      split <;> rfl
    -- what the status call answers
    obtain ⟨st, hst, hready⟩ : ∃ st, (callCri (Cri.podSandboxStatus id)).attempt faults w =
        (.ok st, w, faults.tail) ∧
        (st.toOption.any (fun st => st.state = .ready) = false →
          ∀ s, w.cri.sandbox? id = some s → ¬ (s.state = .ready ∧ Faulty.next faults = none)) := by
      rcases attempt_callCri (Cri.podSandboxStatus id) faults w with ⟨hnext, h'⟩ | ⟨e, hnext, h'⟩
      · rw [hquery] at h'
        refine ⟨_, h', fun hfalse s hs hr => ?_⟩
        simp [Cri.podSandboxStatus, hs, Except.toOption, hr.1] at hfalse
      · exact ⟨_, h', fun _ s hs hr => by simp [hnext] at hr⟩
    simp only []
    rw [Faulty.bind_of_ok hst]
    cases hany : st.toOption.any fun st => st.state = .ready with
    | true =>
      simp only [if_true]
      exact h
    | false =>
      have hgo := cleanup_spec w faults.tail id fun s hs => by
        rcases hc id s hid hs with hr | hr
        · exact absurd hr (hready hany s hs)
        · exact hr
      obtain ⟨r₁, c₁, r₂, c₂, hstop, hremove, htame, hgone⟩ := hgo
      simp only [Bool.false_eq_true, if_false]
      rw [Faulty.bind_of_ok hstop, Faulty.bind_of_ok hremove]
      have hforget : (Faulty.update (World.setSandboxId none) : Run _) faults.tail.tail.tail
          { w with cri := c₂ } = (.ok (), ⟨c₂, w.state, none⟩, faults.tail.tail.tail) := rfl
      rw [Faulty.bind_of_ok hforget]
      have hinv : Inv (⟨c₂, w.state, none⟩ : World) := (h.tame htame).forget hid hgone
      exact (runSandbox_inv pod).after ⟨hinv, rfl, hstate⟩

theorem keeps_startDesired {I : World → Prop}
    (hcreate : ∀ id cfg scfg, (callCri (Cri.createContainer id cfg scfg)).Keeps I)
    (hstart : ∀ id, (callCri (Cri.startContainer id)).Keeps I) (pod : Pod) (id : Nat)
    (cs : List Cri.Container) :
    ∀ (desired : List Container) (out : SyncOutcome), (startDesired pod id cs desired out).Keeps I
  | [], out => Faulty.Keeps.pure out
  | d :: desired, out => by
    unfold startDesired
    split
    · exact keeps_startDesired hcreate hstart pod id cs desired out
    · apply (hcreate _ _ _).bind
      intro cid
      apply (hstart cid).bind
      exact fun _ => keeps_startDesired hcreate hstart pod id cs desired _

theorem startDesired_inv (pod : Pod) (id : Nat) (cs : List Cri.Container)
    (desired : List Container) (out : SyncOutcome) : (startDesired pod id cs desired out).Keeps Inv :=
  keeps_startDesired (fun _ _ _ => keeps_callCri fun _ h => h.tame (Cri.tame_createContainer _ _ _))
    (fun cid => keeps_callCri fun _ h => h.tame (Cri.tame_startContainer cid)) pod id cs desired out

theorem doSync_inv (pod : Pod) {w : World} {faults : List (Option CriError)} (h : Inv w)
    (hc : CleansUp w faults) : Inv (doSync pod faults w).2.1 := by
  have hread : (Faulty.read World.state : Run _) faults w = (.ok w.state, w, faults) := rfl
  unfold doSync
  rw [Faulty.bind_of_ok hread]
  by_cases hstate : w.state = .terminated
  · rw [if_pos hstate]
    exact h
  · rw [if_neg hstate]
    have hset : (Faulty.update (World.setState .syncing) : Run _) faults w =
        (.ok (), w.setState .syncing, faults) := rfl
    rw [Faulty.bind_of_ok hset]
    have hsyncing : Inv (w.setState .syncing) := h.setState (by simp)
    have hens := ensureSandbox_inv pod hsyncing (by simp [World.setState]) hc
    rcases hrun : ensureSandbox pod faults (w.setState .syncing) with ⟨e | id, w₁, faults₁⟩
    · rw [Faulty.bind_of_error hrun]
      rwa [hrun] at hens
    · rw [Faulty.bind_of_ok hrun]
      rw [hrun] at hens
      refine Faulty.Keeps.run ?_ hens
      apply (lasting_inv.keeps (Cri.settles_listContainers _)).bind
      intro cs
      apply (startDesired_inv pod id cs _ _).bind
      intro out
      apply (lasting_inv.keeps_stopSelected cs out).bind
      intro out
      apply (Faulty.Keeps.update fun w h => h.setState (by simp)).bind
      exact fun _ => Faulty.Keeps.pure _

/-! ## Orderly runs -/

/-- The event comes in order: no `Sync` between `Terminating` and `Terminated`, no `Terminating`
after `Terminated`, and a `Sync` whose cleanup works. -/
def InOrder (w : World) : Event → Prop
  | .call _ .sync faults => w.state ≠ .terminating ∧ CleansUp w faults
  | .call _ .terminating _ => w.state ≠ .terminated
  | _ => True

/-- Every event of the run comes in order. -/
def Orderly : World → List Event → Prop
  | _, [] => True
  | w, event :: events => InOrder w event ∧ Orderly (w.step event) events

theorem Orderly.append {w : World} {as bs : List Event} (h : Orderly w (as ++ bs)) :
    Orderly w as ∧ Orderly (w.run as) bs := by
  induction as generalizing w with
  | nil => exact ⟨trivial, h⟩
  | cons a as ih => exact ⟨⟨h.1, (ih h.2).1⟩, (ih h.2).2⟩

theorem Inv.step {w : World} (h : Inv w) {event : Event} (ho : InOrder w event) :
    Inv (w.step event) := by
  cases event with
  | call pod work faults =>
    cases work with
    | sync => exact doSync_inv pod h ho.2
    | terminating =>
      exact (lasting_inv.keeps_doTerminating (fun w h => h.setState (by simp)) pod).run h
    | terminated =>
      have ht := (doTerminated_inv pod).conseq (fun _ h => h) (fun _ _ h => h.1) fun _ h => h
      exact ht.after h
  | exited id code => exact h.tame ⟨Nat.le_refl _, fun _ h => h, fun _ h => h⟩
  | halted id =>
    exact h.tame ⟨Nat.le_refl _, fun j hj => (Cri.has_haltSandbox id j).1 hj, fun _ h => h⟩
  | lost id =>
    exact h.tame ⟨Nat.le_refl _, fun j hj => ((Cri.has_dropSandbox id j).1 hj).1, fun _ h => h⟩

theorem Inv.run {w : World} (h : Inv w) {events : List Event} (ho : Orderly w events) :
    Inv (w.run events) := by
  induction events generalizing w with
  | nil => exact h
  | cons event events ih => exact ih (h.step ho.1) ho.2

/-- The pod is being torn down or gone. -/
def Leaving (w : World) : Prop := w.state = .terminating ∨ w.state = .terminated

theorem lasting_leaving : Lasting Leaving := fun _ _ h _ _ => h

theorem leaving_doTerminating (pod : Pod) (w : World) (faults : List (Option CriError)) :
    Leaving (doTerminating pod faults w).2.1 := by
  have hkeep := lasting_leaving.keeps_doTerminating (fun _ _ => .inl rfl) pod
  show Leaving (doTerminating pod faults (w.setState .terminating)).2.1
  exact hkeep.run (.inl rfl)

theorem leaving_doTerminated (pod : Pod) {w : World} {faults : List (Option CriError)}
    (h : Leaving w) : Leaving (doTerminated pod faults w).2.1 :=
  (lasting_leaving.keeps_doTerminated (fun _ _ => .inr rfl) (fun _ h => h) pod).run h

theorem doSync_of_terminated (pod : Pod) {w : World} (h : w.state = .terminated)
    (faults : List (Option CriError)) : doSync pod faults w = (.ok .empty, w, faults) := by
  have hread : (Faulty.read World.state : Run _) faults w = (.ok w.state, w, faults) := rfl
  unfold doSync
  rw [Faulty.bind_of_ok hread, if_pos h]
  rfl

theorem doTerminated_of_none (pod : Pod) {w : World} (h : w.sandboxId = none)
    (faults : List (Option CriError)) :
    doTerminated pod faults w = (.ok .empty, w.setState .terminated, faults) := by
  have hread : (Faulty.read World.sandboxId : Run _) faults w = (.ok w.sandboxId, w, faults) := rfl
  unfold doTerminated
  rw [Faulty.bind_of_ok hread, h]
  rfl

theorem Leaving.step {w : World} (h : Leaving w) {event : Event} (ho : InOrder w event) :
    Leaving (w.step event) := by
  cases event with
  | call pod work faults =>
    cases work with
    | sync =>
      have hdone : w.state = .terminated := h.resolve_left ho.1
      show Leaving (doSync pod faults w).2.1
      rw [doSync_of_terminated pod hdone]
      exact h
    | terminating => exact leaving_doTerminating pod w faults
    | terminated => exact leaving_doTerminated pod h
  | exited id code => exact h
  | halted id => exact h
  | lost id => exact h

theorem Leaving.run {w : World} (h : Leaving w) {events : List Event} (ho : Orderly w events) :
    Leaving (w.run events) := by
  induction events generalizing w with
  | nil => exact h
  | cons event events ih => exact ih (h.step ho.1) ho.2

theorem leaving_of_mem {w : World} {events : List Event} (ho : Orderly w events) {pod : Pod}
    {faults : List (Option CriError)} (hmem : .call pod .terminating faults ∈ events) :
    Leaving (w.run events) := by
  obtain ⟨as, bs, rfl⟩ := List.append_of_mem hmem
  have hrun : w.run (as ++ .call pod .terminating faults :: bs) =
      ((w.run as).step (.call pod .terminating faults)).run bs := by
    simp [World.run]
  rw [hrun]
  exact Leaving.run (leaving_doTerminating pod _ faults) ho.append.2.2

theorem Leaving.quiet {w : World} (h : Leaving w) {pod : Pod} {work : WorkType}
    {faults : List (Option CriError)} (ho : InOrder w (.call pod work faults)) :
    Cri.Quiet w.cri (w.step (.call pod work faults)).cri := by
  have hlast : Lasting fun v => Cri.Quiet w.cri v.cri := fun _ _ hv _ hq => hv.trans hq
  cases work with
  | sync =>
    have hdone : w.state = .terminated := h.resolve_left ho.1
    show Cri.Quiet w.cri (doSync pod faults w).2.1.cri
    rw [doSync_of_terminated pod hdone]
    exact .refl _
  | terminating => exact (hlast.keeps_doTerminating (fun _ h => h) pod).run (.refl _)
  | terminated =>
    exact (hlast.keeps_doTerminated (fun _ h => h) (fun _ h => h) pod).run (.refl _)

/-! ## Termination is final -/

/-- In every run whose events come in order: after `Terminating` no call creates or starts
anything; a worker that is done stays done, and its calls change nothing; and when `Terminated`
returns, no sandbox that the worker has run is left, nor a container of one. -/
theorem termination_final {c : Cri} {events : List Event} {pod : Pod} {work : WorkType}
    {faults : List (Option CriError)}
    (ho : Orderly (World.start c) (events ++ [.call pod work faults])) :
    let w := (World.start c).run events
    let w' := w.step (.call pod work faults)
    ((∃ p fs, .call p .terminating fs ∈ events) → Cri.Quiet w.cri w'.cri) ∧
      (w.state = .terminated → w'.state = .terminated ∧ w'.cri = w.cri) ∧
      (work = .terminated → ∀ out, w.result pod work faults = .ok out →
        ∀ id, .ranPodSandbox id ∈ w'.cri.history →
          ¬ w'.cri.Has id ∧ ∀ x ∈ w'.cri.containers, x.podSandboxId ≠ id) := by
  intro w w'
  obtain ⟨hbefore, hlast, -⟩ := ho.append
  have hinv : Inv w := (inv_start c).run hbefore
  refine ⟨?_, ?_, ?_⟩
  · rintro ⟨p, fs, hmem⟩
    exact (leaving_of_mem hbefore hmem).quiet hlast
  · intro hdone
    cases work with
    | sync =>
      have hstep : w' = w := congrArg (fun r => r.2.1) (doSync_of_terminated pod hdone faults)
      rw [hstep]
      exact ⟨hdone, rfl⟩
    | terminating => exact absurd hdone hlast
    | terminated =>
      have hnone := hinv.done hdone
      have hstep : w' = w.setState .terminated :=
        congrArg (fun r => r.2.1) (doTerminated_of_none pod hnone faults)
      rw [hstep]
      exact ⟨rfl, rfl⟩
  · rintro rfl out hout id hran
    obtain ⟨hinv', hnone, -⟩ := ((doTerminated_inv pod) faults w hinv).1 out w'
      (doTerminated pod faults w).2.2 (Prod.ext hout rfl)
    have hgone : ¬ w'.cri.Has id := fun hhas => by
      have howned := hinv'.owned id hran hhas
      rw [hnone] at howned
      cases howned
    refine ⟨hgone, fun x hx hid => hgone ?_⟩
    obtain ⟨s, hs, hsid⟩ := w'.cri.placed x hx
    exact ⟨s, hs, hsid.trans hid⟩

/-- A runtime that keeps nothing yet. -/
def Cri.new : Cri := ⟨[], [], 1, 1, [], by simp, by simp, by simp, by simp⟩

/-- A pod with one container. -/
def onePod : Pod :=
  ⟨⟨"api", "default", "u1", [], []⟩, ⟨[⟨"app", "nginx:1.27", [], []⟩], .always⟩⟩

theorem termination_final_demo :
    let w := (World.start Cri.new).run [.call onePod .sync [], .call onePod .terminating []]
    let w' := w.step (.call onePod .terminated [])
    (w.state = .terminated → w'.state = .terminated ∧ w'.cri = w.cri) ∧
      Cri.Quiet w.cri w'.cri ∧ ¬ w'.cri.Has 1 ∧ ∀ x ∈ w'.cri.containers, x.podSandboxId ≠ 1 := by
  intro w w'
  have ho : Orderly (World.start Cri.new)
      ([.call onePod .sync [], .call onePod .terminating []] ++ [.call onePod .terminated []]) := by
    refine ⟨⟨by decide, fun id s h => ?_⟩, by show PodWorkerState.waiting ≠ _; decide, trivial, trivial⟩
    cases h
  obtain ⟨hquiet, hdone, hgone⟩ := termination_final ho
  obtain ⟨hhas, hnone⟩ := hgone rfl ⟨some 1, [], [], []⟩ (by decide) 1 (by decide)
  exact ⟨hdone, hquiet ⟨onePod, [], by simp⟩, hhas, hnone⟩

/-- `Sync` after `Terminating` brings the pod back. -/
theorem sync_revives :
    ¬ ∀ (c : Cri) (events : List Event) (pod : Pod) (work : WorkType)
        (faults : List (Option CriError)), (∃ p fs, .call p .terminating fs ∈ events) →
        Cri.Quiet ((World.start c).run events).cri
          (((World.start c).run events).step (.call pod work faults)).cri := by
  intro h
  obtain ⟨l, hl, hquiet⟩ := h Cri.new [.call onePod .sync [], .call onePod .terminating []] onePod
    .sync [] ⟨onePod, [], by simp⟩
  have hdo : (((World.start Cri.new).run
      [.call onePod .sync [], .call onePod .terminating []]).step (.call onePod .sync [])).cri.history =
      ((World.start Cri.new).run
        [.call onePod .sync [], .call onePod .terminating []]).cri.history ++
      [.createdContainer 3, .startedContainer 3] := by decide
  rw [hdo, List.append_cancel_left_eq] at hl
  exact hquiet (.createdContainer 3) (by simp [← hl]) trivial

end CaveHome.Kubelet
