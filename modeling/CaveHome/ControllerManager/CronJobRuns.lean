import CaveHome.ControllerManager.CronJob
import Mathlib.Logic.Relation

/-!
# The runs of a cron job

A run is a sequence of reconciles, with anything done to the cluster in between that makes no job of
the cron job, keeps its finished jobs finished and leaves its identity and its base alone.  The
invariant is that the jobs made so far are named after instants that grow and that the last run is
no earlier than any of them.
-/

namespace CaveHome.ControllerManager

namespace CronJob

/-! ## What a call does to the jobs -/

/-- The jobs of the second cluster are jobs of the first. -/
def Fewer (c c' : Cluster) : Prop := ∀ k j, c'.jobs.get k = some j → c.jobs.get k = some j

section Prune

variable {cj : CronJob} {c : Cluster} {jobs : List Job} {limit : Nat}

theorem cronjobs_pruneOne : (pruneOne jobs limit c).cronjobs = c.cronjobs := by
  unfold pruneOne
  split <;> rfl

theorem cronjobs_pruneHistory : (cj.pruneHistory c).cronjobs = c.cronjobs :=
  cronjobs_pruneOne.trans cronjobs_pruneOne

theorem get_pruneOne (jobs : List Job) (limit : Nat) (c : Cluster) (k : String) :
    (pruneOne jobs limit c).jobs.get k = c.jobs.get k ∨
      (pruneOne jobs limit c).jobs.get k = none ∧ ∃ j ∈ jobs, key j = k := by
  unfold pruneOne
  split
  · exact .inl rfl
  · rw [show ({ c with jobs := _ } : Cluster).jobs = _ from rfl, Api.get_foldl_delete]
    split
    next hk =>
      obtain ⟨j, hj, rfl⟩ := List.mem_map.mp hk
      exact .inr ⟨rfl, j, List.mem_mergeSort.mp (List.mem_of_mem_take hj), rfl⟩
    next => exact .inl rfl

theorem fewer_pruneOne : Fewer c (pruneOne jobs limit c) := by
  intro k j hj
  rcases get_pruneOne jobs limit c k with h | h
  · rwa [h] at hj
  · rw [h.1] at hj
    cases hj

theorem fewer_pruneHistory : Fewer c (cj.pruneHistory c) :=
  fun k j hj => fewer_pruneOne k j (fewer_pruneOne k j hj)

end Prune

section Effect

variable {cj : CronJob} {now : Int} {c c' : Cluster} {k : String} {i : Int}

/-- The schedule fired at the instant, after the base and not after now, and not since. -/
def Due (cj : CronJob) (now : Int) (i : Int) : Prop :=
  ∃ s, CronSchedule.parse cj.spec.schedule = .ok s ∧ LastFire s cj.base now (some i)

/-- What a call has done to the jobs and to the cron job. -/
inductive Effect (cj : CronJob) (now : Int) (c c' : Cluster) : Prop
  | rested (hcron : c'.cronjobs.get (key cj) = some cj) (hjobs : Fewer c c')
  | skipped (i : Int) (hdue : cj.Due now i)
      (hcron : c'.cronjobs.get (key cj) = some { cj with lastScheduled := some i })
      (hjobs : Fewer c c')
  | started (i : Int) (hdue : cj.Due now i)
      (hcron : c'.cronjobs.get (key cj) = some { cj with lastScheduled := some i })
      (hjobs : ∀ k j, c'.jobs.get k = some j →
        k = key (cj.job i) ∧ j.jobMeta.name = cj.jobName i ∨
          c.jobs.get k = some j ∧ (cj.spec.concurrency ≠ .allow → j ∉ cj.active c))

theorem get_advanceSchedule (h : c.cronjobs.get (key cj) = some cj) :
    (cj.advanceSchedule i c).cronjobs.get (key cj) = some { cj with lastScheduled := some i } ∧
      (cj.advanceSchedule i c).jobs = c.jobs := by
  rw [advanceSchedule, h]
  refine ⟨?_, rfl⟩
  exact (Api.get_update ..).trans (if_pos rfl)

theorem get_replaceActive (hkeep : ¬ (cj.spec.concurrency = .forbid ∧ cj.active c ≠ [])) {j : Job}
    (h : (cj.replaceActive c).jobs.get k = some j) :
    c.jobs.get k = some j ∧ (cj.spec.concurrency ≠ .allow → j ∉ cj.active c) := by
  rw [replaceActive] at h
  split at h
  next hreplace =>
    rw [show ({ c with jobs := _ } : Cluster).jobs = _ from rfl, Api.get_foldl_delete] at h
    split at h
    · cases h
    next hk =>
      refine ⟨h, fun _ hj => hk ?_⟩
      rw [← Api.key_of_get h]
      exact List.mem_map_of_mem hj
  next hreplace =>
    refine ⟨h, fun hallow hj => hkeep ⟨?_, List.ne_nil_of_mem hj⟩⟩
    cases hp : cj.spec.concurrency with
    | allow => exact absurd hp hallow
    | forbid => rfl
    | replace => exact absurd hp hreplace

theorem cronjobs_replaceActive : (cj.replaceActive c).cronjobs = c.cronjobs := by
  unfold replaceActive
  split <;> rfl

theorem runDue_effect {r : Option Int} (hget : c.cronjobs.get (key cj) = some cj)
    (hdue : ∀ i, r = some i → cj.Due now i) : Effect cj now c (cj.runDue now c r) := by
  have hcron : (cj.pruneHistory c).cronjobs.get (key cj) = some cj := by
    rwa [cronjobs_pruneHistory]
  cases r with
  | none => exact .rested hcron fewer_pruneHistory
  | some i =>
    have hdue := hdue i rfl
    rw [runDue]
    split
    · obtain ⟨hadv, hjobs⟩ := get_advanceSchedule (i := i) hget
      refine .skipped i hdue (by rwa [cronjobs_pruneHistory]) fun k j hj => ?_
      rw [← hjobs]
      exact fewer_pruneHistory k j hj
    · split
      · exact .rested hcron fewer_pruneHistory
      next hkeep =>
        have hget' : (cj.startJob i (cj.replaceActive c)).cronjobs.get (key cj) = some cj := by
          rw [startJob, cronjobs_replaceActive]
          exact hget
        obtain ⟨hadv, hjobs⟩ := get_advanceSchedule (i := i) hget'
        refine .started i hdue (by rwa [cronjobs_pruneHistory]) fun k j hj => ?_
        have hj := fewer_pruneHistory k j hj
        rw [hjobs, startJob, Api.get_create] at hj
        split at hj
        next hk =>
          refine .inl ⟨hk, ?_⟩
          obtain ⟨uid, hmeta⟩ := Api.objectMeta_stamped (cj.replaceActive c).jobs (cj.job i)
          rw [← Option.some.inj hj]
          exact congrArg ObjectMeta.name hmeta
        next => exact .inr (get_replaceActive hkeep hj)

theorem reconcile_effect {fuel now : Nat} (hget : c.cronjobs.get k = some cj)
    (hfit : TimesFit cj.base (i64From now)) (h : reconcile fuel k c now = some c') :
    Effect cj (i64From now) c c' := by
  obtain rfl := Api.key_of_get hget
  rw [reconcile, hget] at h
  dsimp only at h
  split at h
  · obtain rfl := Option.some.inj h
    refine .rested ?_ fewer_pruneHistory
    rwa [cronjobs_pruneHistory]
  · split at h
    · obtain rfl := Option.some.inj h
      exact .rested hget fun _ _ => id
    next s hparse =>
      obtain ⟨r, hrecent, rfl⟩ := Option.map_eq_some_iff.mp h
      refine runDue_effect hget fun i hi => ⟨s, hparse, ?_⟩
      exact hi ▸ mostRecentSchedule_lastFire hfit hrecent

end Effect

/-! ## Runs -/

/-- The jobs of the owner that a call brought into the cluster. -/
def newJobs (uid : String) (c c' : Cluster) : List Job :=
  (c'.jobs.listOwnedBy uid).filter fun j => c.jobs.get (key j) ≠ some j

structure History where
  cluster : Cluster
  /-- The jobs that the calls made. -/
  created : List Job := []
  /-- The policies under which the calls ran. -/
  policies : List ConcurrencyPolicy := []

/-- What is done to the cluster between two calls. -/
structure Between (k uid : String) (c c' : Cluster) : Prop where
  jobs : ∀ j' ∈ c'.jobs.listOwnedBy uid, ∃ j ∈ c.jobs.listOwnedBy uid,
    key j = key j' ∧ (j'.unfinished → j.unfinished)
  cronjob : ∀ cj', c'.cronjobs.get k = some cj' → ∃ cj, c.cronjobs.get k = some cj ∧
    cj'.cronMeta.name = cj.cronMeta.name ∧ cj'.cronMeta.uid = cj.cronMeta.uid ∧
    cj'.createdAt = cj.createdAt ∧ cj'.lastScheduled = cj.lastScheduled

/-- The instants of a call stay away from the ends of their range. -/
def CallFits (k : String) (c : Cluster) (now : Nat) : Prop :=
  ∀ cj, c.cronjobs.get k = some cj → TimesFit cj.base (i64From now)

/-- If the call reads the schedule, then after the base and after every fire up to now there is a
fire within five years. -/
def CallCovered (k : String) (c : Cluster) (now : Nat) : Prop :=
  ∀ cj s, c.cronjobs.get k = some cj → ¬ cj.cronMeta.isTerminating → ¬ cj.spec.suspend →
    CronSchedule.parse cj.spec.schedule = .ok s → Covered s cj.base (i64From now)

inductive Step (k uid : String) (h : History) : History → Prop
  | call {fuel now : Nat} {c' : Cluster} (hfits : CallFits k h.cluster now)
      (hcall : reconcile fuel k h.cluster now = some c') :
      Step k uid h
        { cluster := c', created := h.created ++ newJobs uid h.cluster c',
          policies := h.policies ++
            ((h.cluster.cronjobs.get k).map (·.spec.concurrency)).toList }
  | others {c' : Cluster} (hbetween : Between k uid h.cluster c') :
      Step k uid h { h with cluster := c' }

/-- The last run is no later than that of the other. -/
def NoEarlier (last last' : Option Int) : Prop :=
  ∀ l, last = some l → ∃ l', last' = some l' ∧ l ≤ l'

theorem NoEarlier.trans {a b c : Option Int} (h : NoEarlier a b) (h' : NoEarlier b c) :
    NoEarlier a c := by
  intro l hl
  obtain ⟨l', hl', hle⟩ := h l hl
  obtain ⟨l'', hl'', hle'⟩ := h' l' hl'
  exact ⟨l'', hl'', hle.trans hle'⟩

section Calls

variable {cj cj' : CronJob} {c c' : Cluster} {k uid : String} {now : Int} {fuel : Nat} {i : Int} {j j' : Job}

theorem reconcile_isSome_iff {now : Nat} (hfits : CallFits k c now) :
    (∃ fuel, (reconcile fuel k c now).isSome) ↔ CallCovered k c now := by
  rw [CallCovered]
  cases hget : c.cronjobs.get k with
  | none => simp [reconcile, hget]
  | some cj =>
    by_cases hskip : cj.cronMeta.isTerminating || cj.spec.suspend
    · simp only [reconcile, hget, hskip, if_true, Option.isSome_some, exists_const, true_iff]
      rintro cj' s ⟨⟩ hterm hsus
      simp [hterm, hsus] at hskip
    · cases hparse : CronSchedule.parse cj.spec.schedule with
      | error e =>
        simp only [reconcile, hget, hskip, hparse, Bool.false_eq_true, if_false, Option.isSome_some,
          exists_const, true_iff]
        rintro cj' s ⟨⟩ - - hs
        rw [hparse] at hs
        cases hs
      | ok s =>
        have hiff := exists_mostRecentSchedule_iff (s := s) (hfits cj hget)
        simp only [reconcile, hget, hskip, hparse, Bool.false_eq_true, if_false,
          Option.isSome_map]
        rw [hiff]
        constructor
        · rintro hcovered cj' s' ⟨⟩ - - hs
          rw [hparse] at hs
          obtain rfl := Except.ok.inj hs
          exact hcovered
        · intro h
          rw [Bool.or_eq_true, not_or] at hskip
          exact h cj s rfl hskip.1 hskip.2 hparse

theorem mem_newJobs : j ∈ newJobs uid c c' ↔
    c'.jobs.get (key j) = some j ∧ Api.ownedBy uid j ∧ c.jobs.get (key j) ≠ some j := by
  simp [newJobs, Api.mem_listOwnedBy, and_assoc]

theorem newJobs_eq_nil (h : Fewer c c') : newJobs uid c c' = [] := by
  rw [newJobs, List.filter_eq_nil_iff]
  intro j hj
  simpa using h _ j (Api.mem_listOwnedBy.mp hj).1

theorem Effect.newJobs (h : Effect cj now c c') (uid : String) :
    newJobs uid c c' = [] ∨ ∃ i j, cj.Due now i ∧ CronJob.newJobs uid c c' = [j] ∧
      j.jobMeta.name = cj.jobName i ∧
      c'.cronjobs.get (key cj) = some { cj with lastScheduled := some i } := by
  cases h with
  | rested hcron hjobs => exact .inl (newJobs_eq_nil hjobs)
  | skipped i hdue hcron hjobs => exact .inl (newJobs_eq_nil hjobs)
  | started i hdue hcron hjobs =>
    have hnew : ∀ j ∈ CronJob.newJobs uid c c',
        key j = key (cj.job i) ∧ j.jobMeta.name = cj.jobName i := by
      intro j hj
      obtain ⟨hget, -, hold⟩ := mem_newJobs.mp hj
      exact (hjobs _ j hget).resolve_right fun h => hold h.1
    have hnodup : ((CronJob.newJobs uid c c').map key).Nodup :=
      (Api.nodup_keys_listOwnedBy c'.jobs uid).sublist (List.filter_sublist.map _)
    cases hlist : CronJob.newJobs uid c c' with
    | nil => exact .inl rfl
    | cons j rest =>
      rw [hlist] at hnew hnodup
      cases rest with
      | nil => exact .inr ⟨i, j, hdue, rfl, (hnew j List.mem_cons_self).2, hcron⟩
      | cons j' rest =>
        -- two new jobs would have the same key
        have hj := (hnew j (by simp)).1
        have hj' := (hnew j' (by simp)).1
        simp [hj, hj'] at hnodup

theorem Due.last_lt (h : cj.Due now i) {l : Int} (hl : cj.lastScheduled = some l) : l < i := by
  obtain ⟨s, -, hlast⟩ := h
  have hbase := hlast.1.2.1
  rwa [base, hl] at hbase

theorem Effect.noEarlier (h : Effect cj now c c') (hget : c'.cronjobs.get (key cj) = some cj') :
    NoEarlier cj.lastScheduled cj'.lastScheduled := by
  cases h with
  | rested hcron hjobs =>
    obtain rfl := Option.some.inj (hcron.symm.trans hget)
    exact fun l hl => ⟨l, hl, le_rfl⟩
  | skipped i hdue hcron hjobs =>
    obtain rfl := Option.some.inj (hcron.symm.trans hget)
    exact fun l hl => ⟨i, rfl, (hdue.last_lt hl).le⟩
  | started i hdue hcron hjobs =>
    obtain rfl := Option.some.inj (hcron.symm.trans hget)
    exact fun l hl => ⟨i, rfl, (hdue.last_lt hl).le⟩

theorem Effect.identity (h : Effect cj now c c') (hget : c'.cronjobs.get (key cj) = some cj') :
    cj'.cronMeta = cj.cronMeta := by
  cases h with
  | rested hcron hjobs => rw [Option.some.inj (hcron.symm.trans hget)]
  | skipped i hdue hcron hjobs => rw [← Option.some.inj (hcron.symm.trans hget)]
  | started i hdue hcron hjobs => rw [← Option.some.inj (hcron.symm.trans hget)]

/-- At most one job of the owner has not finished. -/
def AtMostOne (uid : String) (c : Cluster) : Prop :=
  ∀ j ∈ c.jobs.listOwnedBy uid, ∀ j' ∈ c.jobs.listOwnedBy uid,
    j.unfinished → j'.unfinished → j = j'

theorem AtMostOne.fewer (h : AtMostOne uid c) (hfewer : Fewer c c') : AtMostOne uid c' := by
  intro j hj j' hj'
  obtain ⟨hget, howned⟩ := Api.mem_listOwnedBy.mp hj
  obtain ⟨hget', howned'⟩ := Api.mem_listOwnedBy.mp hj'
  exact h j (Api.mem_listOwnedBy.mpr ⟨hfewer _ j hget, howned⟩) j'
    (Api.mem_listOwnedBy.mpr ⟨hfewer _ j' hget', howned'⟩)

theorem Effect.atMostOne (h : Effect cj now c c') (hpolicy : cj.spec.concurrency ≠ .allow)
    (hone : AtMostOne cj.cronMeta.uid c) : AtMostOne cj.cronMeta.uid c' := by
  cases h with
  | rested hcron hjobs => exact hone.fewer hjobs
  | skipped i hdue hcron hjobs => exact hone.fewer hjobs
  | started i hdue hcron hjobs =>
    -- an old job that has not finished was active, and so all of them are the new one
    have hnew : ∀ j ∈ c'.jobs.listOwnedBy cj.cronMeta.uid, j.unfinished →
        key j = key (cj.job i) := by
      intro j hj hun
      obtain ⟨hget, howned⟩ := Api.mem_listOwnedBy.mp hj
      rcases hjobs _ j hget with hj | ⟨hold, hactive⟩
      · exact hj.1
      · have hmem := Api.mem_listOwnedBy.mpr ⟨hold, howned⟩
        exact absurd (List.mem_filter.mpr ⟨hmem, hun⟩) (hactive hpolicy)
    intro j hj j' hj' hun hun'
    have hget := (Api.mem_listOwnedBy.mp hj).1
    have hget' := (Api.mem_listOwnedBy.mp hj').1
    rw [hnew j hj hun] at hget
    rw [hnew j' hj' hun', hget] at hget'
    exact Option.some.inj hget'

theorem Between.atMostOne (h : Between k uid c c') (hone : AtMostOne uid c) : AtMostOne uid c' := by
  intro j hj j' hj' hun hun'
  obtain ⟨o, ho, hkey, hfin⟩ := h.jobs j hj
  obtain ⟨o', ho', hkey', hfin'⟩ := h.jobs j' hj'
  have heq := hone o ho o' ho' (hfin hun) (hfin' hun')
  have hget := (Api.mem_listOwnedBy.mp hj).1
  have hget' := (Api.mem_listOwnedBy.mp hj').1
  rw [← hkey', ← heq, hkey, hget] at hget'
  exact Option.some.inj hget'

end Calls

/-! ## What holds in every run -/

/-- The jobs made so far are named after instants that grow, up to the last run. -/
structure Inv (k : String) (cj₀ : CronJob) (h : History) : Prop where
  identity : ∀ cj, h.cluster.cronjobs.get k = some cj →
    cj.cronMeta.name = cj₀.cronMeta.name ∧ cj.cronMeta.uid = cj₀.cronMeta.uid
  instants : ∃ is : List Int, is.Pairwise (· < ·) ∧
    h.created.map (·.jobMeta.name) = is.map cj₀.jobName ∧
    ∀ cj, h.cluster.cronjobs.get k = some cj → ∀ i ∈ is, NoEarlier (some i) cj.lastScheduled
  single : .allow ∉ h.policies → AtMostOne cj₀.cronMeta.uid h.cluster

section Runs

variable {k : String} {cj₀ : CronJob} {h h' : History}

theorem Step.noEarlier {uid : String} (hstep : Step k uid h h') {cj cj' : CronJob}
    (hget : h.cluster.cronjobs.get k = some cj) (hget' : h'.cluster.cronjobs.get k = some cj') :
    NoEarlier cj.lastScheduled cj'.lastScheduled := by
  obtain rfl := Api.key_of_get hget
  cases hstep with
  | call hfits hcall => exact (reconcile_effect hget (hfits cj hget) hcall).noEarlier hget'
  | others hbetween =>
    obtain ⟨cj₁, hcj₁, -, -, -, hlast⟩ := hbetween.cronjob cj' hget'
    obtain rfl := Option.some.inj (hget.symm.trans hcj₁)
    rw [hlast]
    exact fun l hl => ⟨l, hl, le_rfl⟩

theorem Inv.others {c' : Cluster} (hinv : Inv k cj₀ h)
    (hbetween : Between k cj₀.cronMeta.uid h.cluster c') : Inv k cj₀ { h with cluster := c' } := by
  obtain ⟨is, hsorted, hnames, hlast⟩ := hinv.instants
  refine ⟨fun cj' hget' => ?_, ⟨is, hsorted, hnames, fun cj' hget' i hi => ?_⟩, fun hpolicy => ?_⟩
  · obtain ⟨cj, hget, hname, huid, -, -⟩ := hbetween.cronjob cj' hget'
    rw [hname, huid]
    exact hinv.identity cj hget
  · obtain ⟨cj, hget, -, -, -, hsame⟩ := hbetween.cronjob cj' hget'
    rw [hsame]
    exact hlast cj hget i hi
  · exact hbetween.atMostOne (hinv.single hpolicy)

theorem Inv.call {fuel now : Nat} {c' : Cluster} (hinv : Inv k cj₀ h)
    (hfits : CallFits k h.cluster now) (hcall : reconcile fuel k h.cluster now = some c') :
    Inv k cj₀
      { cluster := c', created := h.created ++ newJobs cj₀.cronMeta.uid h.cluster c',
        policies := h.policies ++ ((h.cluster.cronjobs.get k).map (·.spec.concurrency)).toList } := by
  obtain ⟨is, hsorted, hnames, hlast⟩ := hinv.instants
  cases hget : h.cluster.cronjobs.get k with
  | none =>
    rw [reconcile, hget] at hcall
    obtain rfl := Option.some.inj hcall
    rw [newJobs_eq_nil fun _ _ => id]
    simp only [List.append_nil, Option.map_none, Option.toList_none]
    exact ⟨hinv.identity, ⟨is, hsorted, hnames, hlast⟩, hinv.single⟩
  | some cj =>
    have heffect := reconcile_effect hget (hfits cj hget) hcall
    obtain rfl := Api.key_of_get hget
    obtain ⟨hname, huid⟩ := hinv.identity cj hget
    refine ⟨fun cj' hget' => ?_, ?_, fun hpolicy => ?_⟩
    · rw [heffect.identity hget']
      exact ⟨hname, huid⟩
    · rcases heffect.newJobs cj₀.cronMeta.uid with hnil | ⟨i, j, hdue, hone, hj, hcron⟩
      · refine ⟨is, hsorted, by rw [hnil, List.append_nil, hnames], fun cj' hget' i hi => ?_⟩
        exact (hlast cj hget i hi).trans (heffect.noEarlier hget')
      · have hlt : ∀ i' ∈ is, i' < i := by
          intro i' hi'
          obtain ⟨l, hl, hle⟩ := hlast cj hget i' hi' i' rfl
          exact hle.trans_lt (hdue.last_lt hl)
        refine ⟨is ++ [i], ?_, ?_, fun cj' hget' i' hi' => ?_⟩
        · refine List.pairwise_append.mpr ⟨hsorted, List.pairwise_singleton .., ?_⟩
          simpa using hlt
        · rw [hone, List.map_append, List.map_append, hnames, List.map_singleton,
            List.map_singleton, hj, jobName, jobName, hname]
        · obtain rfl := Option.some.inj (hcron.symm.trans hget')
          rintro _ ⟨⟩
          refine ⟨i, rfl, ?_⟩
          rcases List.mem_append.mp hi' with hi' | hi'
          · exact (hlt i' hi').le
          · exact (List.mem_singleton.mp hi').le
    · simp only [Option.map_some, Option.toList_some, List.mem_append, List.mem_singleton,
        not_or] at hpolicy
      rw [← huid]
      exact heffect.atMostOne (Ne.symm hpolicy.2) (huid ▸ hinv.single hpolicy.1)

theorem inv_of_run {c₀ : Cluster} (hget : c₀.cronjobs.get k = some cj₀)
    (hnone : c₀.jobs.listOwnedBy cj₀.cronMeta.uid = [])
    (hrun : Relation.ReflTransGen (Step k cj₀.cronMeta.uid) { cluster := c₀ } h) :
    Inv k cj₀ h := by
  induction hrun with
  | refl =>
    refine ⟨fun cj hcj => ?_, ⟨[], List.Pairwise.nil, rfl, by simp⟩, fun _ j hj => ?_⟩
    · obtain rfl := Option.some.inj (hget.symm.trans hcj)
      exact ⟨rfl, rfl⟩
    · rw [show ({ cluster := c₀ } : History).cluster = c₀ from rfl, hnone] at hj
      cases hj
  | tail _ hstep ih =>
    cases hstep with
    | call hfits hcall => exact ih.call hfits hcall
    | others hbetween => exact ih.others hbetween

theorem jobName_injective (cj : CronJob) : Function.Injective cj.jobName := by
  intro i i' h
  have := String.append_right_inj _ |>.mp h
  exact Int.repr_inj.mp this

/-- In every run a call returns exactly where the fires it goes through are followed by others
within five years; no two of the jobs made so far belong to one instant; a job that the next call
makes is named after an instant of the schedule between the base and now; while every call ran
under `forbid` or `replace`, one job at most has not finished; and the last run never goes back. -/
theorem runs_once_per_instant {c₀ : Cluster} (hget : c₀.cronjobs.get k = some cj₀)
    (hnone : c₀.jobs.listOwnedBy cj₀.cronMeta.uid = [])
    (hrun : Relation.ReflTransGen (Step k cj₀.cronMeta.uid) { cluster := c₀ } h) :
    (∀ now, CallFits k h.cluster now →
      ((∃ fuel, (reconcile fuel k h.cluster now).isSome) ↔ CallCovered k h.cluster now)) ∧
    (h.created.map (·.jobMeta.name)).Nodup ∧
    (∀ fuel now c', CallFits k h.cluster now → reconcile fuel k h.cluster now = some c' →
      ∀ j ∈ newJobs cj₀.cronMeta.uid h.cluster c', ∃ cj s i,
        h.cluster.cronjobs.get k = some cj ∧ CronSchedule.parse cj.spec.schedule = .ok s ∧
        j.jobMeta.name = cj.jobName i ∧ s.Fires i ∧ cj.base < i ∧ i ≤ i64From now) ∧
    (.allow ∉ h.policies → AtMostOne cj₀.cronMeta.uid h.cluster) ∧
    (∀ h', Step k cj₀.cronMeta.uid h h' → ∀ cj cj', h.cluster.cronjobs.get k = some cj →
      h'.cluster.cronjobs.get k = some cj' → NoEarlier cj.lastScheduled cj'.lastScheduled) := by
  have hinv := inv_of_run hget hnone hrun
  refine ⟨fun now => reconcile_isSome_iff, ?_, ?_, hinv.single,
    fun h' hstep cj cj' => hstep.noEarlier⟩
  · obtain ⟨is, hsorted, hnames, -⟩ := hinv.instants
    rw [hnames]
    exact List.Nodup.map cj₀.jobName_injective (hsorted.imp ne_of_lt)
  · intro fuel now c' hfits hcall j hj
    cases hcj : h.cluster.cronjobs.get k with
    | none =>
      rw [reconcile, hcj] at hcall
      obtain rfl := Option.some.inj hcall
      rw [newJobs_eq_nil fun _ _ => id] at hj
      cases hj
    | some cj =>
      have heffect := reconcile_effect hcj (hfits cj hcj) hcall
      rcases heffect.newJobs cj₀.cronMeta.uid with hnil | ⟨i, j', ⟨s, hparse, hlast⟩, hone, hname, -⟩
      · rw [hnil] at hj
        cases hj
      · rw [hone] at hj
        obtain rfl := List.mem_singleton.mp hj
        exact ⟨cj, s, i, rfl, hparse, hname, hlast.1⟩

end Runs

/-- A cron job with a schedule. -/
def demo (schedule : String) : CronJob where
  cronMeta := { name := "nightly", namespaceName := "prod", uid := "cj-1" }
  spec := { schedule }

def demoCluster (schedule : String) : Cluster where
  cronjobs := (Api.new "cronjob").create (demo schedule)

/-- The cluster after the first call on a schedule of every minute. -/
def demoNext : Cluster := (reconcile 3 "prod/nightly" (demoCluster "* * * * *") 150).getD {}

theorem runs_once_per_instant_demo :
    (newJobs "cj-1" (demoCluster "* * * * *") demoNext).map (·.jobMeta.name) = ["nightly-120"] ∧
    ∃ h : History, h.cluster = demoNext ∧ (h.created.map (·.jobMeta.name)).Nodup := by
  have hcall : reconcile 3 "prod/nightly" (demoCluster "* * * * *") 150 = some demoNext := by
    have hreturns : (reconcile 3 "prod/nightly" (demoCluster "* * * * *") 150).isSome := by
      decide
    obtain ⟨c, hc⟩ := Option.isSome_iff_exists.mp hreturns
    rw [demoNext, hc, Option.getD_some]
  have hfits : CallFits "prod/nightly" (demoCluster "* * * * *") 150 := by
    intro cj hget
    obtain rfl : demo "* * * * *" = cj := Option.some.inj hget
    exact ⟨⟨by decide, by decide⟩, by decide⟩
  have hget : (demoCluster "* * * * *").cronjobs.get "prod/nightly" = some (demo "* * * * *") := rfl
  have hstep : Step "prod/nightly" "cj-1" { cluster := demoCluster "* * * * *" } _ :=
    .call hfits hcall
  have hrun := Relation.ReflTransGen.single hstep
  exact ⟨by decide, _, rfl, (runs_once_per_instant hget rfl hrun).2.1⟩

theorem not_fires_febThirtieth {s : CronSchedule}
    (h : CronSchedule.parse "0 0 30 2 *" = .ok s) (t : Int) : ¬ s.Fires t := by
  have hs : s = ⟨1, 1, 2 ^ 30, 4, 127, true, false⟩ := by
    have hparse : CronSchedule.parse "0 0 30 2 *" = .ok ⟨1, 1, 2 ^ 30, 4, 127, true, false⟩ := by
      decide
    exact Except.ok.inj (h.symm.trans hparse)
  subst hs
  intro hfires
  obtain ⟨⟨-, hmonth⟩, -, hday⟩ := civil_valid t
  have hfeb : ∀ m ≤ 12, CronSchedule.bit 4 m → m = 2 := by decide
  have hthirty : ∀ d ≤ 31, CronSchedule.bit (2 ^ 30) d → d = 30 := by decide
  have hm := hfeb _ hmonth hfires.month
  rw [hm, Gregorian.daysInMonth, if_pos rfl] at hday
  have hd := hthirty _ (by split at hday <;> omega) hfires.day
  split at hday <;> omega

/-- The call on it never returns. -/
theorem reconcile_febThirtieth :
    (demoCluster "0 0 30 2 *").cronjobs.get "prod/nightly" = some (demo "0 0 30 2 *") ∧
    (demoCluster "0 0 30 2 *").jobs.listOwnedBy "cj-1" = [] ∧
    ∀ fuel, reconcile fuel "prod/nightly" (demoCluster "0 0 30 2 *") 0 = none := by
  refine ⟨rfl, rfl, fun fuel => ?_⟩
  have hfits : CallFits "prod/nightly" (demoCluster "0 0 30 2 *") 0 := by
    intro cj hget
    obtain rfl : demo "0 0 30 2 *" = cj := Option.some.inj hget
    exact ⟨⟨by decide, by decide⟩, by decide⟩
  by_contra hreturns
  have hcovered := (reconcile_isSome_iff hfits).mp
    ⟨fuel, Option.isSome_iff_ne_none.mpr hreturns⟩
  have hparse : (CronSchedule.parse "0 0 30 2 *").toOption.isSome := by decide
  cases hs : CronSchedule.parse "0 0 30 2 *" with
  | error e =>
    rw [hs] at hparse
    cases hparse
  | ok s =>
    obtain ⟨f, hfires, -⟩ := hcovered (demo "0 0 30 2 *") s rfl (by decide) (by decide) hs 0
      (by decide) (by decide) (.inl rfl)
    exact not_fires_febThirtieth hs f hfires

end CronJob

/-!
## What the search of a cron schedule guarantees

The next fire is found wherever it lies within five years.  The walk to the last fire up to now
comes to an end only where no two fires on its way are farther apart.
-/

namespace CronJob

/-- The loop ends, and with the last fire after the base up to now. -/
def EndsWithLastFire (s : CronSchedule) (base now : Int) : Prop :=
  ∃ fuel r, mostRecentSchedule fuel s base now = some r ∧ LastFire s base now r

theorem endsWithLastFire_iff {s : CronSchedule} {base now : Int} (hfit : TimesFit base now) :
    EndsWithLastFire s base now ↔ Covered s base now := by
  rw [← exists_mostRecentSchedule_iff hfit]
  constructor
  · rintro ⟨fuel, r, hends, -⟩
    exact ⟨fuel, Option.isSome_of_eq_some hends⟩
  · rintro ⟨fuel, hends⟩
    obtain ⟨r, hr⟩ := Option.isSome_iff_exists.mp hends
    exact ⟨fuel, r, hr, mostRecentSchedule_lastFire hfit hr⟩

/-- A search finds the next fire within five years, and the walk finds the last fire up to now if
and only if there is a fire within five years after the base and after each of the fires up to
now. -/
theorem search_exact (s : CronSchedule) (after base now : Int)
    (hafter : CronSchedule.Searchable after) (hfit : TimesFit base now) :
    (s.FiresSoon after → IsLeast {f | s.Fires f ∧ after < f} (s.nextAfter after)) ∧
      (EndsWithLastFire s base now ↔ Covered s base now) :=
  ⟨s.nextAfter_isLeast hafter, endsWithLastFire_iff hfit⟩

/-- Every minute of every day. -/
def everyMinute : CronSchedule :=
  ⟨2 ^ 60 - 1, 2 ^ 24 - 1, 2 ^ 32 - 2, 2 ^ 13 - 2, 2 ^ 7 - 1, false, false⟩

theorem search_exact_everyMinute :
    CronSchedule.parse "* * * * *" = .ok everyMinute ∧ everyMinute.nextAfter 90 = 120 ∧
      IsLeast {f | everyMinute.Fires f ∧ 90 < f} (everyMinute.nextAfter 90) := by
  refine ⟨by decide, by decide, ?_⟩
  refine (search_exact everyMinute 90 90 90 ⟨by decide, by decide⟩
    ⟨⟨by decide, by decide⟩, by decide⟩).1 ⟨120, ?_, by decide, by decide⟩
  exact ⟨by decide, by decide, by decide, by decide, by decide⟩

/-- On the thirtieth of February the loop goes on for ever. -/
theorem febThirtieth_goes_on :
    ∃ s, CronSchedule.parse "0 0 30 2 *" = .ok s ∧ (∀ t, ¬ s.Fires t) ∧
      (∀ fuel, mostRecentSchedule fuel s 0 0 = none) ∧ ¬ EndsWithLastFire s 0 0 := by
  have hparse : CronSchedule.parse "0 0 30 2 *" = .ok ⟨1, 1, 2 ^ 30, 4, 127, true, false⟩ := by
    decide
  have hnever := not_fires_febThirtieth hparse
  have hfit : TimesFit 0 0 := ⟨⟨by decide, by decide⟩, by decide⟩
  have hstays : ∀ fuel, mostRecentSchedule fuel ⟨1, 1, 2 ^ 30, 4, 127, true, false⟩ 0 0 = none := by
    intro fuel
    by_contra hends
    have hcovered := (exists_mostRecentSchedule_iff hfit).mp
      ⟨fuel, Option.isSome_iff_ne_none.mpr hends⟩
    obtain ⟨f, hfires, -⟩ := hcovered 0 le_rfl le_rfl (.inl rfl)
    exact hnever f hfires
  refine ⟨_, hparse, hnever, hstays, ?_⟩
  rintro ⟨fuel, r, hends, -⟩
  rw [hstays] at hends
  cases hends

end CronJob

end CaveHome.ControllerManager
