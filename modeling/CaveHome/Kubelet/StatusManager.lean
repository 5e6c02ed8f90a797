import CaveHome.Lib.Dict
import CaveHome.Lib.Runs

/-!
# The pod status manager

Statuses are kept per pod until the sink has accepted them.  A batch takes a snapshot of what is to
be sent and releases the lock; the write of a status and the bookkeeping of its answer are steps of
their own, between which other calls may run.
-/

namespace CaveHome.Kubelet.StatusManager

/-! ## State -/

/-- What the sink answers to a write. -/
inductive Answer
  | ok
  | transient
  | permanent
deriving DecidableEq

/-- What happened, as the callers and the sink saw it. -/
inductive Event (υ τ : Type)
  | set (uid : υ) (status : τ)
  | forgot (uid : υ)
  | accepted (uid : υ) (status : τ)
  | refused (uid : υ) (status : τ)
deriving DecidableEq

/-- A call of `sync_batch`: the answer that is not recorded yet, and what is still to be sent. -/
structure Batch (υ τ : Type) where
  answered : Option (υ × τ × Answer)
  toFlush : List (υ × τ)
  succeeded : Nat
deriving DecidableEq

/-- The two maps and the batches that have been started; `history` is kept for the statements only,
the latest event first. -/
structure System (υ τ : Type) [DecidableEq υ] where
  pending : Dict υ τ
  acked : Dict υ τ
  batches : List (Batch υ τ)
  history : List (Event υ τ)

inductive Step (υ τ : Type)
  | setPodStatus (uid : υ) (status : τ)
  | forgetPod (uid : υ)
  | snapshot (order : List (υ × τ))
  | write (batch : Nat) (answer : Answer)
  | record (batch : Nat)

section

variable {υ τ : Type}

namespace Batch

def inFlight (b : Batch υ τ) : Bool := b.answered.isSome || !b.toFlush.isEmpty

/-- The batch still has to do with the pod. -/
def Carries (b : Batch υ τ) (uid : υ) : Prop :=
  (∃ st answer, b.answered = some (uid, st, answer)) ∨ ∃ st, (uid, st) ∈ b.toFlush

theorem not_carries (b : Batch υ τ) (h : b.inFlight = false) (uid : υ) : ¬b.Carries uid := by
  simp only [inFlight, Bool.or_eq_false_iff, Bool.not_eq_false', List.isEmpty_iff] at h
  rintro (⟨st, answer, hanswer⟩ | ⟨st, hst⟩)
  · rw [hanswer] at h
    cases h.1
  · rw [h.2] at hst
    cases hst

end Batch

variable [DecidableEq υ] [DecidableEq τ]

namespace Event

/-- The status that was set last, unless the pod was forgotten since. -/
def wanted (uid : υ) : List (Event υ τ) → Option τ
  | [] => none
  | .set uid' st :: h => if uid' = uid then some st else wanted uid h
  | .forgot uid' :: h => if uid' = uid then none else wanted uid h
  | .accepted _ _ :: h => wanted uid h
  | .refused _ _ :: h => wanted uid h

def lastAccepted (uid : υ) : List (Event υ τ) → Option τ
  | [] => none
  | .accepted uid' st :: h => if uid' = uid then some st else lastAccepted uid h
  | .set _ _ :: h => lastAccepted uid h
  | .forgot _ :: h => lastAccepted uid h
  | .refused _ _ :: h => lastAccepted uid h

/-- The sink has refused the status for the pod since a status was set for the pod. -/
def refusedSince (uid : υ) (st : τ) : List (Event υ τ) → Bool
  | [] => false
  | .refused uid' st' :: h => (uid' = uid ∧ st' = st) || refusedSince uid st h
  | .set uid' _ :: h => uid' ≠ uid && refusedSince uid st h
  | .forgot _ :: h => refusedSince uid st h
  | .accepted _ _ :: h => refusedSince uid st h

/-- The history after an answer of the sink. -/
def answered (uid : υ) (st : τ) (h : List (Event υ τ)) : Answer → List (Event υ τ)
  | .ok => .accepted uid st :: h
  | .transient => h
  | .permanent => .refused uid st :: h

end Event

/-! ## Steps -/

namespace System

def new : System υ τ := ⟨∅, ∅, [], []⟩

def setPodStatus (s : System υ τ) (uid : υ) (st : τ) : System υ τ :=
  { s with pending := s.pending.insert uid st, history := .set uid st :: s.history }

def forgetPod (s : System υ τ) (uid : υ) : System υ τ :=
  { s with
    pending := s.pending.erase uid
    acked := s.acked.erase uid
    history := .forgot uid :: s.history }

/-- The pending statuses that differ from the acknowledged ones. -/
def toFlush (s : System υ τ) : List (υ × τ) :=
  (s.pending.entries.filter fun e => (s.acked.lookup e.1).all fun a => a ≠ e.2).map fun e =>
    (e.1, e.2)

/-- The sink answers the next write of a batch. -/
def answer (s : System υ τ) (i : Nat) (uid : υ) (st : τ) (rest : List (υ × τ)) (succeeded : Nat)
    (answer : Answer) : System υ τ :=
  { s with
    batches := s.batches.set i ⟨some (uid, st, answer), rest, succeeded⟩
    history := Event.answered uid st s.history answer }

/-- The arms of the match on the answer, under the lock. -/
def record (s : System υ τ) (i : Nat) (uid : υ) (st : τ) (rest : List (υ × τ)) (succeeded : Nat) :
    Answer → System υ τ
  | .ok =>
    { s with
      acked := s.acked.insert uid st
      batches := s.batches.set i ⟨none, rest, succeeded + 1⟩ }
  | .transient => { s with batches := s.batches.set i ⟨none, rest, succeeded⟩ }
  | .permanent =>
    { s with
      pending := s.pending.erase uid
      batches := s.batches.set i ⟨none, rest, succeeded⟩ }

def step (s : System υ τ) : Step υ τ → Option (System υ τ)
  | .setPodStatus uid st => some (s.setPodStatus uid st)
  | .forgetPod uid => some (s.forgetPod uid)
  | .snapshot order =>
    if order.Perm s.toFlush then some { s with batches := s.batches ++ [⟨none, order, 0⟩] }
    else none
  | .write i answer =>
    match s.batches[i]? with
    | some ⟨none, (uid, st) :: rest, succeeded⟩ => some (s.answer i uid st rest succeeded answer)
    | _ => none
  | .record i =>
    match s.batches[i]? with
    | some ⟨some (uid, st, answer), rest, succeeded⟩ =>
      some (s.record i uid st rest succeeded answer)
    | _ => none

/-- The steps after which nothing is lost: what is recorded is still the last word of the sink, and
no status that the sink no longer holds is acknowledged while it is wanted. -/
def Timely (s : System υ τ) : Step υ τ → Prop
  | .setPodStatus uid st =>
    s.acked.lookup uid = some st → Event.lastAccepted uid s.history = some st
  | .forgetPod _ => True
  | .snapshot _ => True
  | .write i answer => answer = .ok → ∀ uid st rest succeeded,
      s.batches[i]? = some ⟨none, (uid, st) :: rest, succeeded⟩ →
        ∀ st', s.pending.lookup uid = some st' → st' ≠ st → s.acked.lookup uid ≠ some st'
  | .record i => ∀ uid st answer rest succeeded,
      s.batches[i]? = some ⟨some (uid, st, answer), rest, succeeded⟩ →
        match answer with
        | .ok => s.pending.lookup uid = some st → Event.lastAccepted uid s.history = some st
        | .transient => True
        | .permanent => ∀ st', s.pending.lookup uid = some st' →
            Event.refusedSince uid st' s.history

/-! ## What a step can do -/

inductive Does (s : System υ τ) : Step υ τ → System υ τ → Prop
  | setPodStatus (uid : υ) (st : τ) : Does s (.setPodStatus uid st) (s.setPodStatus uid st)
  | forgetPod (uid : υ) : Does s (.forgetPod uid) (s.forgetPod uid)
  | snapshot (order : List (υ × τ)) (h : order.Perm s.toFlush) :
    Does s (.snapshot order) { s with batches := s.batches ++ [⟨none, order, 0⟩] }
  | write (i : Nat) (answer : Answer) (uid : υ) (st : τ) (rest : List (υ × τ)) (succeeded : Nat)
    (h : s.batches[i]? = some ⟨none, (uid, st) :: rest, succeeded⟩) :
    Does s (.write i answer) (s.answer i uid st rest succeeded answer)
  | record (i : Nat) (uid : υ) (st : τ) (answer : Answer) (rest : List (υ × τ)) (succeeded : Nat)
    (h : s.batches[i]? = some ⟨some (uid, st, answer), rest, succeeded⟩) :
    Does s (.record i) (s.record i uid st rest succeeded answer)

theorem does_of_step {s t : System υ τ} {a : Step υ τ} (h : s.step a = some t) : s.Does a t := by
  cases a with
  | setPodStatus uid st => exact Option.some.inj h ▸ .setPodStatus uid st
  | forgetPod uid => exact Option.some.inj h ▸ .forgetPod uid
  | snapshot order =>
    simp only [step] at h
    split at h
    · exact Option.some.inj h ▸ .snapshot order ‹_›
    · cases h
  | write i answer =>
    simp only [step] at h
    split at h
    · exact Option.some.inj h ▸ .write i answer _ _ _ _ ‹_›
    · cases h
  | record i =>
    simp only [step] at h
    split at h
    · exact Option.some.inj h ▸ .record i _ _ _ _ _ ‹_›
    · cases h

theorem mem_toFlush {s : System υ τ} {uid : υ} {st : τ} :
    (uid, st) ∈ s.toFlush ↔ s.pending.lookup uid = some st ∧ s.acked.lookup uid ≠ some st := by
  simp only [toFlush, List.mem_map, List.mem_filter, Prod.mk.injEq]
  constructor
  · rintro ⟨e, ⟨he, hall⟩, rfl, rfl⟩
    refine ⟨Dict.mem_entries_iff.1 he, fun hacked => ?_⟩
    simp [hacked] at hall
  · rintro ⟨hpending, hacked⟩
    refine ⟨⟨uid, st⟩, ⟨Dict.mem_entries_iff.2 hpending, ?_⟩, rfl, rfl⟩
    cases hlookup : s.acked.lookup uid with
    | none => simp
    | some a =>
      rw [hlookup] at hacked
      simpa using fun heq => hacked (by rw [heq])

end System

end

end CaveHome.Kubelet.StatusManager

/-!
## No status is lost

What the two maps say about a pod against what the callers and the sink saw.  One step keeps it as
long as the step is timely; what is acknowledged was accepted in any case.
-/

namespace CaveHome.Kubelet.StatusManager

open Event (wanted lastAccepted refusedSince)

section

variable {υ τ : Type}

theorem Event.mem_answered {uid : υ} {st : τ} {h : List (Event υ τ)} {e : Event υ τ} (he : e ∈ h)
    (answer : Answer) : e ∈ answered uid st h answer := by
  cases answer with
  | ok => exact List.mem_cons_of_mem _ he
  | transient => exact he
  | permanent => exact List.mem_cons_of_mem _ he

variable [DecidableEq υ]

namespace System

structure Backed (s : System υ τ) : Prop where
  acked : ∀ uid st, s.acked.lookup uid = some st → .accepted uid st ∈ s.history
  answered : ∀ b ∈ s.batches, ∀ uid st, b.answered = some (uid, st, .ok) →
    .accepted uid st ∈ s.history

theorem new_backed : (new : System υ τ).Backed := by
  refine ⟨fun uid st h => ?_, fun b hb => ?_⟩
  · simp [new] at h
  · simp [new] at hb

/-- Neither map nor any batch has anything to do with the pod. -/
structure Clean (uid : υ) (s : System υ τ) : Prop where
  pending : s.pending.lookup uid = none
  acked : s.acked.lookup uid = none
  batches : ∀ b ∈ s.batches, ¬b.Carries uid

theorem forgetPod_clean {s : System υ τ} (h : ∀ b ∈ s.batches, b.inFlight = false) (uid : υ) :
    (s.forgetPod uid).Clean uid := by
  refine ⟨?_, ?_, fun b hb => b.not_carries (h b hb) uid⟩
  · simp [forgetPod]
  · simp [forgetPod]

variable [DecidableEq τ]

theorem Backed.step {s t : System υ τ} {a : Step υ τ} (hs : s.Backed) (h : s.step a = some t) :
    t.Backed := by
  cases does_of_step h with
  | setPodStatus uid st =>
    constructor
    · intro uid' st' hacked
      exact List.mem_cons_of_mem _ (hs.acked uid' st' hacked)
    · intro b hb uid' st' hanswer
      exact List.mem_cons_of_mem _ (hs.answered b hb uid' st' hanswer)
  | forgetPod uid =>
    constructor
    · intro uid' st' hacked
      simp only [forgetPod, Dict.lookup_erase_if] at hacked
      split at hacked
      · cases hacked
      · exact List.mem_cons_of_mem _ (hs.acked uid' st' hacked)
    · intro b hb uid' st' hanswer
      exact List.mem_cons_of_mem _ (hs.answered b hb uid' st' hanswer)
  | snapshot order hperm =>
    refine ⟨hs.acked, fun b hb uid' st' hanswer => ?_⟩
    rcases List.mem_append.1 hb with hb | hb
    · exact hs.answered b hb uid' st' hanswer
    · obtain rfl := List.mem_singleton.1 hb
      cases hanswer
  | write i answer uid st rest succeeded hbatch =>
    constructor
    · intro uid' st' hacked
      exact Event.mem_answered (hs.acked uid' st' hacked) answer
    · intro b hb uid' st' hanswer
      rcases List.mem_or_eq_of_mem_set hb with hb | rfl
      · exact Event.mem_answered (hs.answered b hb uid' st' hanswer) answer
      · cases hanswer
        exact List.mem_cons_self
  | record i uid st answer rest succeeded hbatch =>
    have hkept : ∀ n, ∀ b ∈ s.batches.set i ⟨none, rest, n⟩, ∀ uid' st',
        b.answered = some (uid', st', .ok) → .accepted uid' st' ∈ s.history := by
      intro n b hb uid' st' hanswer
      rcases List.mem_or_eq_of_mem_set hb with hb | rfl
      · exact hs.answered b hb uid' st' hanswer
      · cases hanswer
    cases answer with
    | ok =>
      refine ⟨fun uid' st' hacked => ?_, hkept _⟩
      simp only [record, Dict.lookup_insert_if] at hacked
      split at hacked
      · rename_i heq
        cases hacked
        exact hs.answered _ (List.mem_of_getElem? hbatch) uid' st (heq ▸ rfl)
      · exact hs.acked uid' st' hacked
    | transient => exact ⟨hs.acked, hkept _⟩
    | permanent => exact ⟨hs.acked, hkept _⟩

/-! ## What is wanted is pending -/

structure Kept (s : System υ τ) : Prop where
  pending : ∀ uid st, wanted uid s.history = some st → refusedSince uid st s.history = false →
    s.pending.lookup uid = some st
  unacked : ∀ uid st, wanted uid s.history = some st → refusedSince uid st s.history = false →
    lastAccepted uid s.history ≠ some st → s.acked.lookup uid ≠ some st

theorem Kept.step {s t : System υ τ} {a : Step υ τ} (ha : s.Timely a) (hs : s.Kept)
    (h : s.step a = some t) : t.Kept := by
  cases does_of_step h with
  | setPodStatus uid st =>
    constructor
    · intro uid' st' hwanted hrefused
      simp only [setPodStatus, Dict.lookup_insert_if] at hwanted hrefused ⊢
      simp only [wanted, refusedSince, Bool.and_eq_false_imp, decide_eq_true_eq] at hwanted hrefused
      split at hwanted
      · rename_i heq
        rw [if_pos heq, hwanted]
      · rename_i hne
        rw [if_neg hne]
        exact hs.pending uid' st' hwanted (hrefused hne)
    · intro uid' st' hwanted hrefused haccepted hacked
      simp only [setPodStatus, wanted, refusedSince, lastAccepted, Bool.and_eq_false_imp,
        decide_eq_true_eq] at hwanted hrefused haccepted hacked
      split at hwanted
      · rename_i heq
        cases heq
        cases hwanted
        exact haccepted (ha hacked)
      · rename_i hne
        exact hs.unacked uid' st' hwanted (hrefused hne) haccepted hacked
  | forgetPod uid =>
    constructor
    · intro uid' st' hwanted hrefused
      simp only [forgetPod, wanted, refusedSince] at hwanted hrefused
      split at hwanted
      · cases hwanted
      · rename_i hne
        simp only [forgetPod, Dict.lookup_erase_if, if_neg hne]
        exact hs.pending uid' st' hwanted hrefused
    · intro uid' st' hwanted hrefused haccepted hacked
      simp only [forgetPod, wanted, refusedSince, lastAccepted, Dict.lookup_erase_if]
        at hwanted hrefused haccepted hacked
      split at hwanted
      · cases hwanted
      · rename_i hne
        rw [if_neg hne] at hacked
        exact hs.unacked uid' st' hwanted hrefused haccepted hacked
  | snapshot order hperm => exact ⟨hs.pending, hs.unacked⟩
  | write i answer uid st rest succeeded hbatch =>
    cases answer with
    | ok =>
      refine ⟨hs.pending, fun uid' st' hwanted hrefused haccepted hacked => ?_⟩
      simp only [System.answer, Event.answered, wanted, refusedSince, lastAccepted]
        at hwanted hrefused haccepted hacked
      split at haccepted
      · rename_i heq
        cases heq
        exact ha rfl uid st rest succeeded hbatch st' (hs.pending uid st' hwanted hrefused)
          (fun heq => haccepted (by rw [heq])) hacked
      · exact hs.unacked uid' st' hwanted hrefused haccepted hacked
    | transient => exact ⟨hs.pending, hs.unacked⟩
    | permanent =>
      have hbefore : ∀ uid' st', refusedSince uid' st' (.refused uid st :: s.history) = false →
          refusedSince uid' st' s.history = false := by
        intro uid' st' hrefused
        exact (Bool.or_eq_false_iff.1 hrefused).2
      exact ⟨fun uid' st' hwanted hrefused =>
          hs.pending uid' st' hwanted (hbefore uid' st' hrefused),
        fun uid' st' hwanted hrefused =>
          hs.unacked uid' st' hwanted (hbefore uid' st' hrefused)⟩
  | record i uid st answer rest succeeded hbatch =>
    have hanswer := ha uid st answer rest succeeded hbatch
    cases answer with
    | ok =>
      refine ⟨hs.pending, fun uid' st' hwanted hrefused haccepted hacked => ?_⟩
      simp only [record, Dict.lookup_insert_if] at hwanted hrefused haccepted hacked
      split at hacked
      · rename_i heq
        cases heq
        cases hacked
        exact haccepted (hanswer (hs.pending uid st hwanted hrefused))
      · exact hs.unacked uid' st' hwanted hrefused haccepted hacked
    | transient => exact ⟨hs.pending, hs.unacked⟩
    | permanent =>
      refine ⟨fun uid' st' hwanted hrefused => ?_, hs.unacked⟩
      have hpending := hs.pending uid' st' hwanted hrefused
      simp only [record, Dict.lookup_erase_if]
      split
      · rename_i heq
        cases heq
        have hrefused' : refusedSince uid st' s.history = true := hanswer st' hpending
        cases hrefused'.symm.trans hrefused
      · exact hpending

theorem Clean.step {s t : System υ τ} {uid : υ} {a : Step υ τ}
    (ha : ∀ st, a ≠ .setPodStatus uid st) (hs : s.Clean uid) (h : s.step a = some t) :
    t.Clean uid := by
  cases does_of_step h with
  | setPodStatus uid' st =>
    have hne : uid' ≠ uid := fun heq => ha st (by rw [heq])
    refine ⟨?_, hs.acked, hs.batches⟩
    simp only [setPodStatus, Dict.lookup_insert_if, if_neg hne]
    exact hs.pending
  | forgetPod uid' =>
    refine ⟨?_, ?_, hs.batches⟩
    · simp only [forgetPod, Dict.lookup_erase_if, hs.pending, ite_self]
    · simp only [forgetPod, Dict.lookup_erase_if, hs.acked, ite_self]
  | snapshot order hperm =>
    refine ⟨hs.pending, hs.acked, fun b hb => ?_⟩
    rcases List.mem_append.1 hb with hb | hb
    · exact hs.batches b hb
    · -- what a snapshot carries is pending
      obtain rfl := List.mem_singleton.1 hb
      rintro (⟨st, answer, hanswer⟩ | ⟨st, hst⟩)
      · cases hanswer
      · have hpending := (mem_toFlush.1 (hperm.mem_iff.1 hst)).1
        rw [hs.pending] at hpending
        cases hpending
  | write i answer uid' st rest succeeded hbatch =>
    have hcarried := hs.batches _ (List.mem_of_getElem? hbatch)
    refine ⟨hs.pending, hs.acked, fun b hb => ?_⟩
    rcases List.mem_or_eq_of_mem_set hb with hb | rfl
    · exact hs.batches b hb
    · rintro (⟨st', answer', hanswer⟩ | ⟨st', hst⟩)
      · cases hanswer
        exact hcarried (.inr ⟨st, List.mem_cons_self⟩)
      · exact hcarried (.inr ⟨st', List.mem_cons_of_mem _ hst⟩)
  | record i uid' st answer rest succeeded hbatch =>
    have hcarried := hs.batches _ (List.mem_of_getElem? hbatch)
    have hne : uid' ≠ uid := fun heq => hcarried (.inl ⟨st, answer, by rw [heq]⟩)
    have hbatches : ∀ n, ∀ b ∈ s.batches.set i ⟨none, rest, n⟩, ¬b.Carries uid := by
      intro n b hb
      rcases List.mem_or_eq_of_mem_set hb with hb | rfl
      · exact hs.batches b hb
      · rintro (⟨st', answer', hanswer⟩ | ⟨st', hst⟩)
        · cases hanswer
        · exact hcarried (.inr ⟨st', hst⟩)
    cases answer with
    | ok =>
      refine ⟨hs.pending, ?_, hbatches _⟩
      simp only [record, Dict.lookup_insert_if, if_neg hne]
      exact hs.acked
    | transient => exact ⟨hs.pending, hs.acked, hbatches _⟩
    | permanent =>
      refine ⟨?_, hs.acked, hbatches _⟩
      simp only [record, Dict.lookup_erase_if, if_neg hne]
      exact hs.pending

theorem new_kept : (new : System υ τ).Kept := by
  refine ⟨fun uid st h => ?_, fun uid st h => ?_⟩ <;> cases h

/-! ## Runs -/

/-- After every run: what is acknowledged was accepted; when all steps were timely, a status that
is wanted and that the sink neither holds nor has refused is sent by the next batch; and a pod that
is forgotten while no batch is in flight leaves no trace until its status is set again. -/
theorem statuses_kept {steps : List (Step υ τ)} {s : System υ τ}
    (h : Runs.run step new steps = some s) :
    (∀ uid st, s.acked.lookup uid = some st → .accepted uid st ∈ s.history) ∧
    (Runs.Along step Timely new steps → ∀ uid st, wanted uid s.history = some st →
      lastAccepted uid s.history ≠ some st → refusedSince uid st s.history = false →
        s.pending.lookup uid = some st ∧ s.acked.lookup uid ≠ some st ∧ (uid, st) ∈ s.toFlush) ∧
    (∀ uid, (∀ b ∈ s.batches, b.inFlight = false) → ∀ later t,
      (∀ st, .setPodStatus uid st ∉ later) → Runs.run step (s.forgetPod uid) later = some t →
        t.pending.lookup uid = none ∧ t.acked.lookup uid = none) := by
  refine ⟨?_, fun htimely uid st hwanted haccepted hrefused => ?_,
    fun uid hbatches later t hlater hrun => ?_⟩
  · exact (Runs.invariant (fun s a t hs => hs.step) new_backed h).acked
  · have hkept : s.Kept :=
      Runs.invariant_along (fun s a t ha hs => hs.step ha) htimely new_kept h
    have hpending := hkept.pending uid st hwanted hrefused
    have hacked := hkept.unacked uid st hwanted hrefused haccepted
    exact ⟨hpending, hacked, mem_toFlush.2 ⟨hpending, hacked⟩⟩
  · have hclean : t.Clean uid :=
      Runs.invariant_along (fun s a t ha hs => hs.step ha)
        (Runs.along_of_forall (p := fun a : Step υ τ => ∀ st, a ≠ .setPodStatus uid st)
          fun a ha st heq => hlater st (heq ▸ ha))
        (forgetPod_clean hbatches uid) hrun
    exact ⟨hclean.pending, hclean.acked⟩

end System

end

namespace System

/-- A batch has taken the status `Pending`, and `Running` is set before the sink refuses it. -/
def overtaken : List (Step String String) :=
  [.setPodStatus "u1" "Pending", .snapshot [("u1", "Pending")], .setPodStatus "u1" "Running",
    .write 0 .permanent, .record 0]

/-- The refusal of an old status takes the newer one with it. -/
theorem refusal_drops_newer : ∃ s, Runs.run step new overtaken = some s ∧
    wanted "u1" s.history = some "Running" ∧ lastAccepted "u1" s.history = none ∧
    refusedSince "u1" "Running" s.history = false ∧ s.pending.lookup "u1" = none ∧
    s.toFlush = [] := by
  refine ⟨_, rfl, ?_, ?_, ?_, ?_, ?_⟩ <;> decide

/-- A status is accepted and a newer one set: the newer one is sent by the next batch. -/
def renewed : List (Step String String) :=
  [.setPodStatus "u1" "Pending", .snapshot [("u1", "Pending")], .write 0 .ok, .record 0,
    .setPodStatus "u1" "Running"]

theorem renewed_timely : Runs.Along step Timely new renewed := by
  refine Runs.along_cons (fun h => ?_) rfl <| Runs.along_cons trivial rfl <|
    Runs.along_cons (fun _ uid st rest n hbatch st' hpending hne => ?_) rfl <|
    Runs.along_cons (fun uid st answer rest n hbatch => ?_) rfl <|
    Runs.along_cons (fun h => ?_) rfl trivial
  · cases h
  · cases hbatch
    exact absurd (Option.some.inj hpending).symm hne
  · cases hbatch
    exact fun _ => rfl
  · revert h
    decide

theorem statuses_kept_demo : ∃ s, Runs.run step new renewed = some s ∧
    s.pending.lookup "u1" = some "Running" ∧ s.acked.lookup "u1" ≠ some "Running" ∧
    ("u1", "Running") ∈ s.toFlush := by
  have hrun : Runs.run step new renewed = some _ := rfl
  exact ⟨_, hrun, (statuses_kept hrun).2.1 renewed_timely "u1" "Running"
    (by decide) (by decide) (by decide)⟩

end System

end CaveHome.Kubelet.StatusManager
