import CaveHome.ControllerManager.WorkQueue
import Mathlib.Order.Bounds.Basic

/-!
# Delays of the work queue

When a key becomes ready that was asked for with delays only: at the earliest of the times, and not
before.  The account of a run holds the requests for a key since it was handed out, and the
invariant says where the key waits, given the account.  A request for a key in flight is outside of
it, for the queue forgets its delay.
-/

namespace CaveHome.ControllerManager

namespace WorkQueue

variable {q q' : WorkQueue} {k j : String} {t : Nat}

/-! ## Where a key waits -/

/-- The key is delayed until the time. -/
def DelayedUntil (q : WorkQueue) (k : String) (t : Nat) : Prop :=
  ∃ keys, q.delayed.get t = some keys ∧ k ∈ keys

theorem mem_delayedKeys_iff (h : q.delayed.Sorted) :
    k ∈ q.delayedKeys ↔ ∃ t, q.DelayedUntil k t := by
  rw [delayedKeys, BTreeMap.values, List.mem_flatMap]
  constructor
  · rintro ⟨⟨t, keys⟩, he, hk⟩
    exact ⟨t, keys, h.mem_iff.mp he, hk⟩
  · rintro ⟨t, keys, hget, hk⟩
    exact ⟨(t, keys), h.mem_iff.mpr hget, hk⟩

theorem Wf.delayedUntil_unique (h : q.Wf) {t' : Nat} (ht : q.DelayedUntil k t)
    (ht' : q.DelayedUntil k t') : t = t' := by
  obtain ⟨keys, hget, hk⟩ := ht
  obtain ⟨keys', hget', hk'⟩ := ht'
  by_contra hne
  have hsplit : q.delayedKeys.Perm (keys ++ BTreeMap.values (q.delayed.remove t)) :=
    BTreeMap.values_perm (h.sorted.perm_cons_remove hget)
  have hnodup := hsplit.nodup_iff.mp (List.nodup_append.mp h.nodup).2.1
  have hother : (q.delayed.remove t).get t' = some keys' := by
    rw [BTreeMap.get_remove, if_neg (Ne.symm hne), hget']
  have hmem : (t', keys') ∈ q.delayed.remove t := (h.sorted.remove t).mem_iff.mpr hother
  exact (List.nodup_append.mp hnodup).2.2 k hk k (List.mem_flatMap.mpr ⟨_, hmem, hk'⟩) rfl

theorem delayedReadyAt_eq_some (h : q.delayed.Sorted) (ht : q.delayedReadyAt k = some t) :
    q.DelayedUntil k t := by
  obtain ⟨e, he, rfl⟩ := Option.map_eq_some_iff.mp ht
  exact ⟨e.2, h.mem_iff.mp (List.mem_of_find?_eq_some he),
    by simpa using List.find?_some he⟩

theorem get_foldl_remove {ν : Type} (ts : List Nat) (m : BTreeMap Nat ν) (t : Nat) :
    (ts.foldl (fun m t => m.remove t) m).get t = if t ∈ ts then none else m.get t := by
  induction ts generalizing m with
  | nil => rfl
  | cons u ts ih =>
    rw [List.foldl_cons, ih, BTreeMap.get_remove]
    by_cases hmem : t ∈ ts <;> by_cases hu : t = u <;> simp [hmem, hu]

theorem delayedUntil_removeDelayed (h : q.delayed.Sorted) :
    (q.removeDelayed j).DelayedUntil k t ↔ q.DelayedUntil k t ∧ k ≠ j := by
  let kept : BTreeMap Nat (List String) := q.delayed.map fun e => (e.1, e.2.filter (· ≠ j))
  have hsorted : BTreeMap.Sorted kept :=
    List.pairwise_map.mpr (List.Pairwise.imp (fun hlt => hlt) h)
  have hkept : kept.get t = (q.delayed.get t).map (·.filter (· ≠ j)) := BTreeMap.get_map _ _ _
  have hget : (q.removeDelayed j).delayed.get t =
      if t ∈ (kept.filter (·.2.isEmpty)).map (·.1) then none else kept.get t :=
    get_foldl_remove _ kept t
  rw [DelayedUntil, hget, DelayedUntil]
  split
  next hmem =>
    -- an empty bucket held no other key
    obtain ⟨⟨u, keys⟩, he, rfl⟩ := List.mem_map.mp hmem
    obtain ⟨he, hempty⟩ := List.mem_filter.mp he
    have hnil : keys = [] := List.isEmpty_iff.mp hempty
    have hnone := hkept.symm.trans (hsorted.mem_iff.mp he)
    obtain ⟨old, hold, hfilter⟩ := Option.map_eq_some_iff.mp hnone
    simp only [hold, reduceCtorEq, false_and, exists_false, Option.some.injEq, exists_eq_left',
      false_iff, not_and, not_not]
    intro hk
    by_contra hkj
    have hmemf : k ∈ old.filter (· ≠ j) := List.mem_filter.mpr ⟨hk, by simpa using hkj⟩
    rw [hfilter, hnil] at hmemf
    cases hmemf
  next =>
    rw [hkept]
    cases q.delayed.get t with
    | none => simp
    | some old => simp

theorem delayedUntil_pushDelayed {readyAt : Nat} :
    (q.pushDelayed j readyAt).DelayedUntil k t ↔
      (k = j ∧ t = readyAt) ∨ q.DelayedUntil k t := by
  rw [DelayedUntil, pushDelayed, BTreeMap.get_insert, DelayedUntil]
  by_cases ht : t = readyAt
  · subst ht
    cases q.delayed.get t <;> simp [or_comm]
  · simp [ht]

/-! ### Flushing -/

theorem delayed_foldl_promote (keys : List String) (q : WorkQueue) :
    (keys.foldl promote q).delayed = q.delayed := by
  induction keys generalizing q with
  | nil => rfl
  | cons k keys ih =>
    rw [List.foldl_cons, ih, promote]
    split <;> rfl

theorem get_flushBucket (q : WorkQueue) (at_ t : Nat) :
    (q.flushBucket at_).delayed.get t = if t = at_ then none else q.delayed.get t := by
  rw [flushBucket]
  split
  next hnone =>
    split
    next ht => rw [ht, hnone]
    next => rfl
  next keys _ =>
    rw [delayed_foldl_promote]
    exact BTreeMap.get_remove _ _ _

theorem get_foldl_flushBucket (ats : List Nat) (q : WorkQueue) (t : Nat) :
    (ats.foldl flushBucket q).delayed.get t = if t ∈ ats then none else q.delayed.get t := by
  induction ats generalizing q with
  | nil => rfl
  | cons at_ ats ih =>
    rw [List.foldl_cons, ih, get_flushBucket]
    by_cases hmem : t ∈ ats <;> by_cases ht : t = at_ <;> simp [hmem, ht]

theorem delayedUntil_flushDue (h : q.delayed.Sorted) {now : Nat} :
    (q.flushDue now).DelayedUntil k t ↔ q.DelayedUntil k t ∧ now < t := by
  rw [DelayedUntil, flushDue, get_foldl_flushBucket, DelayedUntil]
  cases hget : q.delayed.get t with
  | none => simp
  | some keys =>
    have hmem : t ∈ (q.delayed.map (·.1)).filter (· ≤ now) ↔ t ≤ now := by
      rw [List.mem_filter, decide_eq_true_eq]
      refine and_iff_right (List.mem_map.mpr ⟨(t, keys), h.mem_iff.mpr hget, rfl⟩)
    by_cases ht : t ≤ now
    · simp [hmem, ht]
    · simp [hmem, ht, not_le.mp ht]

theorem Wf.mem_ready_flushDue (h : q.Wf) {now : Nat} :
    k ∈ (q.flushDue now).ready ↔ k ∈ q.ready ∨ ∃ t ≤ now, q.DelayedUntil k t := by
  have hm := h.flushDue_moved now
  have hwf := h.moved hm
  have hsplit : k ∈ (q.flushDue now).ready ↔
      k ∈ (q.flushDue now).waiting ∧ k ∉ (q.flushDue now).delayedKeys := by
    constructor
    · intro hk
      exact ⟨List.mem_append_left _ hk, fun hd =>
        (List.nodup_append.mp hwf.nodup).2.2 k hk k hd rfl⟩
    · rintro ⟨hk, hd⟩
      exact (List.mem_append.mp hk).resolve_right hd
  rw [hsplit, hm.perm.mem_iff, mem_delayedKeys_iff hwf.sorted, waiting, List.mem_append,
    mem_delayedKeys_iff h.sorted]
  simp only [delayedUntil_flushDue h.sorted]
  constructor
  · rintro ⟨hk | ⟨t, ht⟩, hnot⟩
    · exact .inl hk
    · exact .inr ⟨t, not_lt.mp fun hlt => hnot ⟨t, ht, hlt⟩, ht⟩
  · rintro (hk | ⟨t, hle, ht⟩)
    · refine ⟨.inl hk, ?_⟩
      rintro ⟨t, ht, -⟩
      have hd := (mem_delayedKeys_iff h.sorted).mpr ⟨t, ht⟩
      exact (List.nodup_append.mp h.nodup).2.2 k hk k hd rfl
    · refine ⟨.inr ⟨t, ht⟩, ?_⟩
      rintro ⟨t', ht', hlt⟩
      have := h.delayedUntil_unique ht ht'
      omega

/-! ## What a call does to one key -/

/-- The key waits where it did. -/
structure Undisturbed (k : String) (q q' : WorkQueue) : Prop where
  ready : k ∈ q'.ready ↔ k ∈ q.ready
  delayed : ∀ t, q'.DelayedUntil k t ↔ q.DelayedUntil k t
  dirty : k ∈ q'.dirtyWhileProcessing ↔ k ∈ q.dirtyWhileProcessing

theorem Undisturbed.refl (k : String) (q : WorkQueue) : Undisturbed k q q :=
  ⟨.rfl, fun _ => .rfl, .rfl⟩

theorem Undisturbed.trans {q₁ q₂ q₃ : WorkQueue} (h : Undisturbed k q₁ q₂)
    (h' : Undisturbed k q₂ q₃) : Undisturbed k q₁ q₃ :=
  ⟨h'.ready.trans h.ready, fun t => (h'.delayed t).trans (h.delayed t), h'.dirty.trans h.dirty⟩

theorem undisturbed_mark (hne : k ≠ j) (q : WorkQueue) :
    Undisturbed k q { q with dirtyWhileProcessing := insert j q.dirtyWhileProcessing } :=
  ⟨.rfl, fun _ => .rfl, by simp [hne]⟩

theorem undisturbed_removeDelayed (h : q.delayed.Sorted) (hne : k ≠ j) :
    Undisturbed k q (q.removeDelayed j) :=
  ⟨.rfl, fun _ => (delayedUntil_removeDelayed h).trans (and_iff_left hne), .rfl⟩

theorem undisturbed_pushDelayed (hne : k ≠ j) (q : WorkQueue) (readyAt : Nat) :
    Undisturbed k q (q.pushDelayed j readyAt) :=
  ⟨.rfl, fun _ => delayedUntil_pushDelayed.trans (or_iff_right fun h => hne h.1), .rfl⟩

theorem undisturbed_add (h : q.delayed.Sorted) (hne : k ≠ j) : Undisturbed k q (q.add j) := by
  have hlast : ∀ q : WorkQueue, Undisturbed k q
      { q with queued := insert j q.queued, ready := q.ready ++ [j] } :=
    fun q => ⟨by simp [hne], fun _ => .rfl, .rfl⟩
  unfold add
  split
  · exact undisturbed_mark hne q
  split
  · exact .refl k q
  dsimp only
  split
  · exact (undisturbed_removeDelayed h hne).trans (hlast _)
  · exact hlast q

theorem undisturbed_addAfter (h : q.delayed.Sorted) (hne : k ≠ j) (delay now : Nat) :
    Undisturbed k q (q.addAfter j delay now) := by
  unfold addAfter
  split
  · exact undisturbed_add h hne
  split
  · exact undisturbed_mark hne q
  split
  · exact .refl k q
  dsimp only
  split
  · exact undisturbed_pushDelayed hne q _
  · split
    · exact .refl k q
    · exact (undisturbed_removeDelayed h hne).trans (undisturbed_pushDelayed hne _ _)

theorem undisturbed_done (h : q.delayed.Sorted) (hk : k = j → k ∉ q.dirtyWhileProcessing) :
    Undisturbed k q (q.done j) := by
  unfold done
  dsimp only
  split
  next hdirty =>
    have hne : k ≠ j := fun he => hk he (he ▸ hdirty)
    have hmark : Undisturbed k q { q with
        processing := q.processing.erase j
        dirtyWhileProcessing := q.dirtyWhileProcessing.erase j } :=
      ⟨.rfl, fun _ => .rfl, by simp [hne]⟩
    exact hmark.trans (undisturbed_add h hne)
  next => exact ⟨.rfl, fun _ => .rfl, .rfl⟩

theorem Wf.delayed_addAfter (h : q.Wf) (hk : k ∉ q.processing) {delay : Nat} (hdelay : 0 < delay)
    (now : Nat) :
    (k ∈ q.ready → q.addAfter k delay now = q) ∧
      (k ∉ q.waiting → (q.addAfter k delay now).DelayedUntil k (min (now + delay) maxU64)) ∧
      ∀ t, q.DelayedUntil k t →
        (q.addAfter k delay now).DelayedUntil k (min t (min (now + delay) maxU64)) := by
  have hnone : k ∉ q.ready → q.delayedReadyAt k = none →
      q.addAfter k delay now = q.pushDelayed k (min (now + delay) maxU64) := by
    intro hready hat
    have hcontains : q.readyContains k = false := by simpa [readyContains] using hready
    rw [addAfter, if_neg hdelay.ne', if_neg hk, hcontains, hat]
    rfl
  have hsome : ∀ existing, k ∉ q.ready → q.delayedReadyAt k = some existing →
      q.addAfter k delay now =
        if existing ≤ min (now + delay) maxU64 then q
        else (q.removeDelayed k).pushDelayed k (min (now + delay) maxU64) := by
    intro existing hready hat
    have hcontains : q.readyContains k = false := by simpa [readyContains] using hready
    rw [addAfter, if_neg hdelay.ne', if_neg hk, hcontains, hat]
    rfl
  refine ⟨fun hready => ?_, fun hwaiting => ?_, fun t ht => ?_⟩
  · have hcontains : q.readyContains k = true := by simpa [readyContains] using hready
    rw [addAfter, if_neg hdelay.ne', if_neg hk, if_pos hcontains]
  · rw [waiting, List.mem_append, not_or] at hwaiting
    rw [hnone hwaiting.1 (delayedReadyAt_eq_none_iff.mpr hwaiting.2)]
    exact delayedUntil_pushDelayed.mpr (.inl ⟨rfl, rfl⟩)
  · have hd := (mem_delayedKeys_iff h.sorted).mpr ⟨t, ht⟩
    have hready : k ∉ q.ready := fun hk => (List.nodup_append.mp h.nodup).2.2 k hk k hd rfl
    cases hat : q.delayedReadyAt k with
    | none => exact absurd hd (delayedReadyAt_eq_none_iff.mp hat)
    | some existing =>
      rw [hsome existing hready hat]
      obtain rfl := h.delayedUntil_unique ht (delayedReadyAt_eq_some h.sorted hat)
      split
      next hle => rwa [min_eq_left hle]
      next hle =>
        rw [min_eq_right (not_le.mp hle).le]
        exact delayedUntil_pushDelayed.mpr (.inl ⟨rfl, rfl⟩)

/-! ## The account of a key -/

inductive Request
  | immediate
  | delayed (delay time : Nat)

/-- The request that was made by a call and not refused. -/
def request? : Call × Reply → Option (String × Request)
  | (.add key, _) => some (key, .immediate)
  | (.addAfter key delay now, _) => some (key, .delayed delay now)
  | (.addRateLimited key now, .added (.requeued _ delay)) => some (key, .delayed delay now)
  | (.applyOutcome key _ _, .applied .requeued) => some (key, .immediate)
  | (.applyOutcome key _ now, .applied (.requeuedAfter delay)) => some (key, .delayed delay now)
  | (.applyOutcome key _ now, .applied (.rateLimited _ delay)) => some (key, .delayed delay now)
  | _ => none

def handsOut (k : String) : Reply → Bool
  | .got (some key) => key = k
  | _ => false

structure Account where
  flight : Finset String := ∅
  /-- The requests since the key was handed out, each with whether the key was in flight. -/
  requests : List (Request × Bool) := []

namespace Account

def ask (a : Account) (k : String) (r : Request) : Account :=
  { a with requests := a.requests ++ [(r, decide (k ∈ a.flight))] }

def hear (a : Account) (k key : String) (r : Request) : Account := if key = k then a.ask k r else a

def note (k : String) (a : Account) (e : Call × Reply) : Account :=
  let a := { a with flight := track a.flight e }
  if handsOut k e.2 then { a with requests := [] }
  else
    match request? e with
    | none => a
    | some (key, r) => a.hear k key r

/-- All requests were with a delay, and none of them came while the key was in flight. -/
def Deferred (a : Account) : Prop :=
  ∀ r ∈ a.requests, r.2 = false ∧ ∃ delay time, r.1 = .delayed delay time ∧ 0 < delay

/-- The times asked for, as the queue can hold them. -/
def dueTimes (a : Account) : Set Nat :=
  {t | ∃ delay time b, (.delayed delay time, b) ∈ a.requests ∧ t = min (time + delay) maxU64}

theorem Deferred.of_ask {a : Account} {r : Request} (h : (a.ask k r).Deferred) :
    a.Deferred ∧ k ∉ a.flight ∧ ∃ delay time, r = .delayed delay time ∧ 0 < delay := by
  obtain ⟨hold, hnew⟩ := List.forall_mem_append.mp h
  obtain ⟨hflight, hdelayed⟩ := hnew _ List.mem_cons_self
  exact ⟨hold, of_decide_eq_false hflight, hdelayed⟩

theorem dueTimes_ask (a : Account) (k : String) (delay time : Nat) :
    (a.ask k (.delayed delay time)).dueTimes =
      insert (min (time + delay) maxU64) a.dueTimes := by
  ext t
  simp only [dueTimes, ask, List.mem_append, List.mem_singleton, Set.mem_insert_iff,
    Set.mem_ofPred_eq, Prod.mk.injEq, Request.delayed.injEq]
  constructor
  · rintro ⟨d, u, b, hmem | ⟨⟨rfl, rfl⟩, -⟩, rfl⟩
    · exact .inr ⟨d, u, b, hmem, rfl⟩
    · exact .inl rfl
  · rintro (rfl | ⟨d, u, b, hmem, rfl⟩)
    · exact ⟨delay, time, _, .inr ⟨⟨rfl, rfl⟩, rfl⟩, rfl⟩
    · exact ⟨d, u, b, .inl hmem, rfl⟩

end Account

def account (k : String) (history : List (Call × Reply)) : Account :=
  history.foldl (Account.note k) {}

/-! ## The invariant -/

def Call.time? : Call → Option Nat
  | .addAfter _ _ now | .addRateLimited _ now | .get now | .applyOutcome _ _ now => some now
  | .add _ | .done _ | .forget _ => none

/-- Where the key waits, given its account: nowhere if nobody asked for it, and until the earliest
of the times if all requests were deferred. -/
structure Honours (k : String) (a : Account) (clock : Nat) (q : WorkQueue) : Prop where
  wf : q.Wf
  flight : a.flight = q.processing
  unasked : a.requests = [] → k ∉ q.waiting ∧ k ∉ q.dirtyWhileProcessing
  placed : a.requests ≠ [] → a.Deferred → ∃ t, IsLeast a.dueTimes t ∧
    ((k ∈ q.ready ∧ t ≤ clock) ∨ q.DelayedUntil k t)

theorem honours_new (cfg : RateLimitConfig) (k : String) (clock : Nat) :
    Honours k {} clock { cfg } where
  wf := wf_new cfg
  flight := rfl
  unasked _ := ⟨List.not_mem_nil, Finset.notMem_empty _⟩
  placed h := absurd rfl h

namespace Honours

variable {a : Account} {clock now : Nat}

theorem mono (h : Honours k a clock q) (hle : clock ≤ now) : Honours k a now q where
  wf := h.wf
  flight := h.flight
  unasked := h.unasked
  placed hne hdeferred := by
    obtain ⟨t, hleast, hplace⟩ := h.placed hne hdeferred
    exact ⟨t, hleast, hplace.imp_left fun hp => ⟨hp.1, hp.2.trans hle⟩⟩

theorem idle (h : Honours k a clock q) (hdeferred : a.Deferred) :
    k ∉ q.dirtyWhileProcessing := by
  by_cases hne : a.requests = []
  · exact (h.unasked hne).2
  · intro hdirty
    obtain ⟨t, -, hplace⟩ := h.placed hne hdeferred
    have hwaiting : k ∈ q.waiting := by
      rcases hplace with ⟨hready, -⟩ | hdelayed
      · exact List.mem_append_left _ hready
      · exact List.mem_append_right _ ((mem_delayedKeys_iff h.wf.sorted).mpr ⟨t, hdelayed⟩)
    exact h.wf.idle k hwaiting (h.wf.dirty k hdirty)

theorem undisturbed (h : Honours k a clock q) (hwf : q'.Wf) (hsame : Undisturbed k q q') :
    Honours k { a with flight := q'.processing } clock q' where
  wf := hwf
  flight := rfl
  unasked hnil := by
    rw [waiting, List.mem_append, mem_delayedKeys_iff hwf.sorted, hsame.ready, hsame.dirty]
    simp only [hsame.delayed]
    rw [← mem_delayedKeys_iff h.wf.sorted, ← List.mem_append]
    exact h.unasked hnil
  placed hne hdeferred := by
    obtain ⟨t, hleast, hplace⟩ := h.placed hne hdeferred
    refine ⟨t, hleast, ?_⟩
    rw [hsame.ready, hsame.delayed]
    exact hplace

theorem spoiled (hwf : q'.Wf) (hflight : a.flight = q'.processing) (hne : a.requests ≠ [])
    (hnot : ¬ a.Deferred) : Honours k a clock q' :=
  ⟨hwf, hflight, fun hnil => absurd hnil hne, fun _ hdeferred => absurd hdeferred hnot⟩

theorem done (h : Honours k a clock q) (key : String) :
    Honours k { a with flight := a.flight.erase key } clock (q.done key) := by
  have hf := h.wf.finishes_done key
  by_cases hmarked : k = key ∧ k ∈ q.dirtyWhileProcessing
  · have hflight := (congrArg (fun s => s.erase key) h.flight).trans hf.processing.symm
    refine spoiled hf.wf hflight ?_ fun hdeferred => h.idle hdeferred hmarked.2
    intro hnil
    exact (h.unasked hnil).2 hmarked.2
  · have hsame := undisturbed_done h.wf.sorted (k := k) (j := key) fun he hd => hmarked ⟨he, hd⟩
    have hnext := h.undisturbed hf.wf hsame
    rwa [hf.processing, ← h.flight] at hnext

theorem ask_immediate (h : Honours k a clock q) :
    Honours k (a.ask k .immediate) clock (q.add k) := by
  have hr := h.wf.requested_add k
  refine spoiled (hr.wf h.wf) (h.flight.trans hr.processing_eq.symm) (by simp [Account.ask]) ?_
  intro hdeferred
  obtain ⟨delay, time, he, -⟩ := hdeferred.of_ask.2.2
  cases he

theorem ask_delayed (h : Honours k a clock q) (hle : clock ≤ now) (delay : Nat) :
    Honours k (a.ask k (.delayed delay now)) now (q.addAfter k delay now) := by
  have hr := h.wf.requested_addAfter k delay now
  refine ⟨hr.wf h.wf, h.flight.trans hr.processing_eq.symm, ?_, fun _ hdeferred => ?_⟩
  · intro hnil
    exact absurd hnil (by simp [Account.ask])
  obtain ⟨hold, hflight, delay', time', he, hpos⟩ := hdeferred.of_ask
  obtain ⟨rfl, rfl⟩ := Request.delayed.inj he
  have hk : k ∉ q.processing := h.flight ▸ hflight
  obtain ⟨hstays, hfresh, hsooner⟩ := h.wf.delayed_addAfter hk hpos now
  rw [Account.dueTimes_ask]
  by_cases hnil : a.requests = []
  · refine ⟨min (now + delay) maxU64, ?_, .inr (hfresh (h.unasked hnil).1)⟩
    have hempty : a.dueTimes = ∅ := by
      refine Set.eq_empty_of_forall_notMem fun t ⟨d, u, b, hmem, _⟩ => ?_
      rw [hnil] at hmem
      cases hmem
    rw [hempty, LawfulSingleton.insert_empty_eq]
    exact isLeast_singleton
  · obtain ⟨t, hleast, hplace⟩ := h.placed hnil hold
    refine ⟨min (min (now + delay) maxU64) t, hleast.insert _, ?_⟩
    rcases hplace with ⟨hready, ht⟩ | hdelayed
    · refine .inl ⟨?_, (min_le_right _ _).trans (ht.trans hle)⟩
      rwa [hstays hready]
    · rw [min_comm]
      exact .inr (hsooner t hdelayed)

theorem add (h : Honours k a clock q) (key : String) :
    Honours k (a.hear k key .immediate) clock (q.add key) := by
  rw [Account.hear]
  split
  next he => exact he ▸ h.ask_immediate
  next hne =>
    have hr := h.wf.requested_add key
    have hnext := h.undisturbed (hr.wf h.wf) (undisturbed_add h.wf.sorted (Ne.symm hne))
    rwa [hr.processing_eq, ← h.flight] at hnext

theorem addAfter (h : Honours k a clock q) (hle : clock ≤ now) (key : String) (delay : Nat) :
    Honours k (a.hear k key (.delayed delay now)) now (q.addAfter key delay now) := by
  rw [Account.hear]
  split
  next he => exact he ▸ h.ask_delayed hle delay
  next hne =>
    have hr := h.wf.requested_addAfter key delay now
    have hsame := undisturbed_addAfter h.wf.sorted (Ne.symm hne) delay now
    have hnext := (h.mono hle).undisturbed (hr.wf h.wf) hsame
    rwa [hr.processing_eq, ← h.flight] at hnext

theorem withFailures (h : Honours k a clock q) (failures : Dict String Nat) :
    Honours k a clock { q with failures } :=
  ⟨h.wf.withFailures failures, h.flight, h.unasked, h.placed⟩

theorem flushDue (h : Honours k a clock q) (hle : clock ≤ now) :
    Honours k a now (q.flushDue now) := by
  have hm := h.wf.flushDue_moved now
  refine ⟨h.wf.moved hm, h.flight.trans hm.processing.symm, fun hnil => ?_, fun hne hd => ?_⟩
  · rw [hm.perm.mem_iff, hm.dirty]
    exact h.unasked hnil
  · obtain ⟨t, hleast, hplace⟩ := h.placed hne hd
    refine ⟨t, hleast, ?_⟩
    rw [h.wf.mem_ready_flushDue, delayedUntil_flushDue h.wf.sorted]
    rcases hplace with ⟨hready, ht⟩ | hdelayed
    · exact .inl ⟨.inl hready, ht.trans hle⟩
    · by_cases hdue : t ≤ now
      · exact .inl ⟨.inr ⟨t, hdue, hdelayed⟩, hdue⟩
      · exact .inr ⟨hdelayed, not_le.mp hdue⟩

theorem addRateLimited (h : Honours k a clock q) (hle : clock ≤ now) (key : String) :
    (∃ n, (q.addRateLimited key now).2 = .dropped n ∧
        Honours k a now (q.addRateLimited key now).1) ∨
      ∃ n delay, (q.addRateLimited key now).2 = .requeued n delay ∧
        Honours k (a.hear k key (.delayed delay now)) now (q.addRateLimited key now).1 := by
  unfold WorkQueue.addRateLimited
  dsimp only
  split
  · exact .inl ⟨_, rfl, (h.mono hle).withFailures _⟩
  · exact .inr ⟨_, _, rfl, (h.withFailures _).addAfter hle key _⟩

theorem get (h : Honours k a clock q) (hle : clock ≤ now) :
    Honours k (a.note k (.get now, .got (q.get now).2)) now (q.get now).1 := by
  have hflush := h.flushDue hle
  have hwf := (h.wf.obeys_get now).wf
  cases hready : (q.flushDue now).ready with
  | nil =>
    have hget : q.get now = (q.flushDue now, none) := by
      rw [WorkQueue.get]
      simp [hready]
    rw [hget]
    exact hflush
  | cons key ready =>
    let next : WorkQueue :=
      { q.flushDue now with
        ready, queued := (q.flushDue now).queued.erase key,
        processing := insert key (q.flushDue now).processing }
    have hget : q.get now = (next, some key) := by
      rw [WorkQueue.get]
      simp [hready, next]
    rw [hget] at hwf ⊢
    have hkey : key ∈ (q.flushDue now).ready := hready ▸ List.mem_cons_self
    by_cases he : key = k
    · subst he
      have hnote : a.note key (.get now, .got (some key)) = ⟨insert key a.flight, []⟩ := by
        simp [Account.note, handsOut, track]
      rw [hnote]
      refine ⟨hwf, congrArg (insert key) hflush.flight, fun _ => ⟨fun hk => ?_, fun hk => ?_⟩,
        fun hne => absurd rfl hne⟩
      · exact hwf.idle key hk (Finset.mem_insert_self _ _)
      · exact hflush.wf.idle key (List.mem_append_left _ hkey) (hflush.wf.dirty key hk)
    · have hnote : a.note k (.get now, .got (some key)) =
          { a with flight := insert key a.flight } := by
        simp [Account.note, handsOut, track, request?, he]
      have hsame : Undisturbed k (q.flushDue now) next := by
        refine ⟨?_, fun _ => .rfl, .rfl⟩
        rw [hready, List.mem_cons]
        exact (or_iff_right (Ne.symm he)).symm
      have hnext := hflush.undisturbed hwf hsame
      rw [hnote, h.flight]
      rwa [show next.processing = insert key q.processing from
        congrArg (insert key) (h.wf.flushDue_moved now).processing] at hnext

theorem applyOutcome (h : Honours k a clock q) (hle : clock ≤ now) (key : String)
    (outcome : Outcome) :
    Honours k (a.note k (.applyOutcome key outcome now,
      .applied (ControllerManager.applyOutcome q key outcome now).2)) now
        (ControllerManager.applyOutcome q key outcome now).1 := by
  have hforget := (h.withFailures (q.failures.erase key)).done key
  cases outcome with
  | done => exact hforget.mono hle
  | requeue => exact (hforget.mono hle).add key
  | requeueAfter delay => exact hforget.addAfter hle key delay
  | err message =>
    rw [ControllerManager.applyOutcome]
    rcases (h.done key).addRateLimited hle key with ⟨n, hreply, hnext⟩ | ⟨n, delay, hreply, hnext⟩
    · cases hadd : (q.done key).addRateLimited key now with
      | mk q' outcome =>
        rw [hadd] at hreply hnext
        dsimp only at hreply
        subst hreply
        exact hnext
    · cases hadd : (q.done key).addRateLimited key now with
      | mk q' outcome =>
        rw [hadd] at hreply hnext
        dsimp only at hreply
        subst hreply
        exact hnext

theorem call (h : Honours k a clock q) (c : Call) (hclock : ∀ t, c.time? = some t → clock ≤ t) :
    Honours k (a.note k (c, (q.call c).2)) (c.time?.getD clock) (q.call c).1 := by
  cases c with
  | add key => exact h.add key
  | addAfter key delay now => exact h.addAfter (hclock now rfl) key delay
  | addRateLimited key now =>
    rw [WorkQueue.call]
    rcases h.addRateLimited (hclock now rfl) key with ⟨n, hreply, hnext⟩ | ⟨n, delay, hreply, hnext⟩
    · rw [Prod.map_snd, Prod.map_fst, hreply]
      exact hnext
    · rw [Prod.map_snd, Prod.map_fst, hreply]
      exact hnext
  | get now => exact h.get (hclock now rfl)
  | done key => exact h.done key
  | forget key => exact h.withFailures _
  | applyOutcome key outcome now => exact h.applyOutcome (hclock now rfl) key outcome

end Honours

/-! ## Runs -/

/-- The clock of the run never goes back, and ends with the instant. -/
def ClockedTo (clock : Nat) (calls : List Call) (now : Nat) : Prop :=
  (clock :: (calls.filterMap Call.time? ++ [now])).Pairwise (· ≤ ·)

instance (clock : Nat) (calls : List Call) (now : Nat) : Decidable (ClockedTo clock calls now) :=
  inferInstanceAs (Decidable (List.Pairwise _ _))

theorem Honours.run {a : Account} {clock now : Nat} {calls : List Call} (h : Honours k a clock q)
    (hclock : ClockedTo clock calls now) :
    Honours k ((q.run calls).2.foldl (Account.note k) a) now (q.run calls).1 := by
  induction calls generalizing q a clock with
  | nil => exact h.mono ((List.pairwise_cons.mp hclock).1 now List.mem_cons_self)
  | cons c calls ih =>
    obtain ⟨hfirst, hrest⟩ := List.pairwise_cons.mp hclock
    rw [List.filterMap_cons] at hfirst hrest
    cases htime : c.time? with
    | none =>
      rw [htime] at hfirst hrest
      have hnext := h.call c fun t ht => by rw [htime] at ht; cases ht
      rw [htime] at hnext
      exact ih hnext (List.pairwise_cons.mpr ⟨hfirst, hrest⟩)
    | some t =>
      rw [htime] at hfirst hrest
      have hnext := h.call c fun u hu => by
        rw [htime] at hu
        obtain rfl := Option.some.inj hu
        exact hfirst t List.mem_cons_self
      rw [htime] at hnext
      exact ih hnext hrest

/-- In every run whose clock never goes back, a key that was asked for since it was handed out with
delays only, and never while it was in flight, is not handed out before the earliest of the times,
and is ready from then on.  The clock may not stand at its end while all the times lie beyond. -/
theorem delays_honoured (cfg : RateLimitConfig) (calls : List Call) (k : String) (now : Nat)
    (hclock : ClockedTo 0 calls now)
    (hasked : (account k (WorkQueue.run { cfg } calls).2).requests ≠ [])
    (hdeferred : (account k (WorkQueue.run { cfg } calls).2).Deferred)
    (hend : now < maxU64 ∨ ∃ delay time b, (.delayed delay time, b) ∈
      (account k (WorkQueue.run { cfg } calls).2).requests ∧ time + delay ≤ maxU64) :
    ((∀ delay time b, (.delayed delay time, b) ∈
        (account k (WorkQueue.run { cfg } calls).2).requests → now < time + delay) →
      ((WorkQueue.run { cfg } calls).1.get now).2 ≠ some k) ∧
    ((∃ delay time b, (.delayed delay time, b) ∈
        (account k (WorkQueue.run { cfg } calls).2).requests ∧ time + delay ≤ now) →
      k ∈ ((WorkQueue.run { cfg } calls).1.flushDue now).ready) := by
  have h := ((honours_new cfg k 0).run hclock).flushDue le_rfl
  obtain ⟨t, hleast, hplace⟩ := h.placed hasked hdeferred
  constructor
  · intro hbefore hget
    -- the time at which the key becomes ready is still to come
    have hlate : now < t := by
      obtain ⟨delay, time, b, hmem, rfl⟩ := hleast.1
      refine lt_min (hbefore delay time b hmem) ?_
      rcases hend with hend | ⟨delay', time', b', hmem', hfits⟩
      · exact hend
      · exact (hbefore delay' time' b' hmem').trans_le hfits
    have hhead : k ∈ ((WorkQueue.run { cfg } calls).1.flushDue now).ready := by
      rw [get] at hget
      cases hready : ((WorkQueue.run { cfg } calls).1.flushDue now).ready with
      | nil => simp [hready] at hget
      | cons key ready =>
        simp only [hready, Option.some.injEq] at hget
        exact hget ▸ List.mem_cons_self
    rcases hplace with ⟨-, ht⟩ | hdelayed
    · omega
    · have hd := (mem_delayedKeys_iff h.wf.sorted).mpr ⟨t, hdelayed⟩
      exact (List.nodup_append.mp h.wf.nodup).2.2 k hhead k hd rfl
  · rintro ⟨delay, time, b, hmem, hdue⟩
    have ht : t ≤ now :=
      (hleast.2 ⟨delay, time, b, hmem, rfl⟩).trans ((min_le_left _ _).trans hdue)
    rcases hplace with ⟨hready, -⟩ | hdelayed
    · exact hready
    · have hwf := (wf_new cfg).run calls
      exact absurd ((delayedUntil_flushDue hwf.sorted).mp hdelayed).2 (not_lt.mpr ht)

/-- A key that was handed out, done, and asked for again with a delay. -/
def requeuedCalls : List Call := [.add "a", .get 0, .applyOutcome "a" (.requeueAfter 10) 5]

theorem delays_honoured_requeued :
    ((WorkQueue.run { cfg := {} } requeuedCalls).1.get 14).2 ≠ some "a" ∧
      "a" ∈ ((WorkQueue.run { cfg := {} } requeuedCalls).1.flushDue 15).ready := by
  have haccount : (account "a" (WorkQueue.run { cfg := {} } requeuedCalls).2).requests =
      [(.delayed 10 5, false)] := by rfl
  have hdeferred : (account "a" (WorkQueue.run { cfg := {} } requeuedCalls).2).Deferred := by
    intro r hr
    rw [haccount, List.mem_singleton] at hr
    rw [hr]
    exact ⟨rfl, 10, 5, rfl, by decide⟩
  have hne : (account "a" (WorkQueue.run { cfg := {} } requeuedCalls).2).requests ≠ [] := by
    rw [haccount]
    exact List.cons_ne_nil _ _
  constructor
  · have h := delays_honoured {} requeuedCalls "a" 14 (by decide) hne hdeferred (.inl (by decide))
    refine h.1 ?_
    intro delay time b hmem
    rw [haccount] at hmem
    simp only [List.mem_singleton, Prod.mk.injEq, Request.delayed.injEq] at hmem
    omega
  · have h := delays_honoured {} requeuedCalls "a" 15 (by decide) hne hdeferred (.inl (by decide))
    refine h.2 ?_
    exact ⟨10, 5, false, by rw [haccount]; exact List.mem_cons_self, by decide⟩

/-- A key that was asked for with a delay while it was in flight. -/
def delayedInFlight : List Call := [.add "a", .get 0, .addAfter "a" 10 0, .done "a"]

/-- It is handed out again at once. -/
theorem get_delayedInFlight :
    ClockedTo 0 delayedInFlight 0 ∧
      (account "a" (WorkQueue.run { cfg := {} } delayedInFlight).2).requests =
        [(.delayed 10 0, true)] ∧
      ((WorkQueue.run { cfg := {} } delayedInFlight).1.get 0).2 = some "a" := by
  exact ⟨by decide, by rfl, by decide⟩

end WorkQueue

end CaveHome.ControllerManager
