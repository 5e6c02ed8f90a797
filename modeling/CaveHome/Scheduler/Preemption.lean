import CaveHome.Scheduler.NodeTotals
import CaveHome.Scheduler.Overcommit

/-!
# Preemption

Pods of a lower priority are taken off a node one after the other until the pod fits.  Taking a pod
off frees what it requests, its ports and its claims, so a node without more pods passes every
filter that it passes with them, as long as no pod requests a negative amount.
-/

namespace CaveHome.Scheduler

variable {pod : Pod}

/-! ## A node without some of its pods -/

/-- No container requests a negative amount. -/
def Pod.AsksNonneg (p : Pod) : Prop := ∀ c ∈ p.spec.containers, ∀ r, 0 ≤ c.asks r

theorem Pod.AsksNonneg.total_nonneg {p : Pod} (h : p.AsksNonneg) (r : ResourceName) :
    0 ≤ p.total r := by
  apply List.sum_nonneg
  intro x hx
  obtain ⟨c, hc, rfl⟩ := List.mem_map.mp hx
  exact h c hc r

namespace NodeInfo

variable {info : NodeInfo}

theorem fits_addContainer (h : ∀ r, I64.Fits (info.requested r)) (c : Container)
    (r : ResourceName) : I64.Fits ((info.addContainer c).requested r) := by
  simp only [addContainer]
  split
  · exact I64.fits_wrappingAdd _ _
  · exact h r

theorem removeContainer_saturates (h : ∀ r, I64.Fits (info.requested r)) (c : Container)
    (r : ResourceName) :
    (info.removeContainer c).requested r = I64.saturatingSub (info.requested r) (c.asks r) := by
  simp only [removeContainer, Container.asks]
  cases c.requests r with
  | none => exact (I64.saturatingSub_zero (h r)).symm
  | some q => rfl

theorem fits_removeContainer (h : ∀ r, I64.Fits (info.requested r)) (c : Container)
    (r : ResourceName) : I64.Fits ((info.removeContainer c).requested r) := by
  rw [removeContainer_saturates h]
  exact I64.fits_saturatingSub _ _

theorem foldl_removeContainer_takeBack (h : ∀ r, I64.Fits (info.requested r))
    (cs : List Container) (r : ResourceName) :
    (cs.foldl removeContainer info).requested r =
      I64.takeBack (info.requested r) (cs.map (·.asks r)) := by
  induction cs generalizing info with
  | nil => rfl
  | cons c cs ih =>
    rw [List.foldl_cons, ih (fits_removeContainer h c), removeContainer_saturates h, List.map_cons,
      I64.takeBack_cons]

theorem removePod_takeBack (h : ∀ r, I64.Fits (info.requested r)) {pod removed : Pod}
    (hfind : info.pods.find? (·.uid == pod.uid) = some removed) (r : ResourceName) :
    (info.removePod pod).requested r =
      I64.takeBack (info.requested r) (removed.spec.containers.map (·.asks r)) := by
  rw [NodeInfo.removePod, hfind]
  have hrest : ∀ r, I64.Fits
      (({ info with pods := info.pods.eraseP (·.uid == pod.uid) } : NodeInfo).requested r) := h
  exact foldl_removeContainer_takeBack hrest _ r

theorem Reached.fits {cond : NodeInfo → Op → Prop} (h : Reached cond info) (r : ResourceName) :
    I64.Fits (info.requested r) := by
  have hadd (cs : List Container) (info : NodeInfo) (h : ∀ r, I64.Fits (info.requested r)) :
      ∀ r, I64.Fits ((cs.foldl addContainer info).requested r) := by
    induction cs generalizing info with
    | nil => exact h
    | cons c cs ih => exact ih _ (fits_addContainer h c)
  induction h generalizing r with
  | new node => exact (show I64.Fits 0 by decide)
  | @call info _ op _ ih =>
    cases op with
    | addPod pod => exact hadd _ _ ih r
    | removePod pod =>
      rw [step]
      cases hfind : info.pods.find? (·.uid == pod.uid) with
      | none =>
        rw [NodeInfo.removePod, hfind]
        exact ih r
      | some removed =>
        rw [removePod_takeBack ih hfind]
        exact I64.fits_takeBack (ih r) _
    | setNode node => exact ih r

/-- No two pods of the node have one name. -/
def UidsApart (info : NodeInfo) : Prop := (info.pods.map (·.uid)).Nodup

instance : Decidable info.UidsApart := inferInstanceAs (Decidable (List.Nodup _))

theorem UidsApart.find (h : info.UidsApart) {v : Pod} (hv : v ∈ info.pods) :
    info.pods.find? (·.uid == v.uid) = some v := by
  have hsome : (info.pods.find? (·.uid == v.uid)).isSome :=
    List.find?_isSome.mpr ⟨v, hv, beq_self_eq_true _⟩
  obtain ⟨p, hp⟩ := Option.isSome_iff_exists.mp hsome
  have huid : p.uid = v.uid := by simpa using List.find?_some hp
  rw [hp, List.inj_on_of_nodup_map h (List.mem_of_find?_eq_some hp) hv huid]

theorem UidsApart.removePod (h : info.UidsApart) (v : Pod) : (info.removePod v).UidsApart := by
  rw [UidsApart, removePod_pods]
  exact h.sublist (List.eraseP_sublist.map _)

theorem UidsApart.mem_removePod_iff (h : info.UidsApart) {v : Pod} (hv : v ∈ info.pods) (p : Pod) :
    p ∈ (info.removePod v).pods ↔ p ∈ info.pods ∧ p ≠ v := by
  have hperm := find_perm_eraseP (h.find hv)
  have hnodup : (v :: info.pods.eraseP (·.uid == v.uid)).Nodup :=
    hperm.nodup_iff.mp (List.Nodup.of_map _ h)
  rw [removePod_pods, hperm.mem_iff, List.mem_cons]
  constructor
  · intro hp
    exact ⟨.inr hp, fun he => (List.nodup_cons.mp hnodup).1 (he ▸ hp)⟩
  · rintro ⟨hp, hne⟩
    exact hp.resolve_left hne

/-- Take pods off a node, one after the other. -/
def removeAll (info : NodeInfo) (vs : List Pod) : NodeInfo := vs.foldl removePod info

/-- What is left of a node without some of its pods. -/
structure Without (info : NodeInfo) (vs : List Pod) (left : NodeInfo) : Prop where
  node : left.node = info.node
  pods : ∀ p, p ∈ left.pods ↔ p ∈ info.pods ∧ p ∉ vs
  requested : ∀ r, left.requested r = max I64.minValue (info.requested r - (vs.map (·.total r)).sum)
  ports : left.usedHostPorts = info.usedHostPorts.diff (vs.flatMap (·.hostPorts))

theorem removeAll_without (hfits : ∀ r, I64.Fits (info.requested r)) (h : info.UidsApart)
    {vs : List Pod} (hvs : ∀ v ∈ vs, v ∈ info.pods ∧ v.AsksNonneg) (hn : vs.Nodup) :
    info.Without vs (info.removeAll vs) := by
  induction vs generalizing info with
  | nil =>
    refine ⟨rfl, fun p => by simp [removeAll], fun r => ?_, rfl⟩
    have hmin := (hfits r).1
    simp only [removeAll, List.foldl_nil, List.map_nil, List.sum_nil]
    omega
  | cons v vs ih =>
    obtain ⟨hnot, hn⟩ := List.nodup_cons.mp hn
    obtain ⟨hv, hnonneg⟩ := hvs v List.mem_cons_self
    have hrequested (r : ResourceName) :
        (info.removePod v).requested r = max I64.minValue (info.requested r - v.total r) := by
      rw [removePod_takeBack hfits (h.find hv)]
      refine I64.takeBack_of_nonneg (hfits r) fun q hq => ?_
      obtain ⟨c, hc, rfl⟩ := List.mem_map.mp hq
      exact hnonneg c hc r
    have hports : (info.removePod v).usedHostPorts = info.usedHostPorts.diff v.hostPorts := by
      rw [NodeInfo.removePod, h.find hv]
      exact foldl_removeContainer_usedHostPorts _ _
    have hfits' (r : ResourceName) : I64.Fits ((info.removePod v).requested r) := by
      rw [removePod_takeBack hfits (h.find hv)]
      exact I64.fits_takeBack (hfits r) _
    have hrest := ih hfits' (h.removePod v) (fun w hw => ⟨(h.mem_removePod_iff hv w).mpr
      ⟨(hvs w (List.mem_cons_of_mem v hw)).1, fun he => hnot (he ▸ hw)⟩,
      (hvs w (List.mem_cons_of_mem v hw)).2⟩) hn
    refine ⟨hrest.node.trans (removePod_node info v), fun p => ?_, fun r => ?_, ?_⟩
    · rw [removeAll, List.foldl_cons, ← removeAll, hrest.pods, h.mem_removePod_iff hv,
        List.mem_cons, not_or, and_assoc]
    · have hsum : 0 ≤ (vs.map (·.total r)).sum := by
        apply List.sum_nonneg
        intro x hx
        obtain ⟨w, hw, rfl⟩ := List.mem_map.mp hx
        exact (hvs w (List.mem_cons_of_mem v hw)).2.total_nonneg r
      rw [removeAll, List.foldl_cons, ← removeAll, hrest.requested, hrequested, List.map_cons,
        List.sum_cons]
      omega
    · rw [removeAll, List.foldl_cons, ← removeAll, hrest.ports, hports, List.flatMap_cons,
        List.diff_append]

/-- One node has no more on it than the other. -/
structure Lighter (light heavy : NodeInfo) : Prop where
  node : light.node = heavy.node
  requested : ∀ r, light.requested r ≤ heavy.requested r
  ports : light.usedHostPorts ⊆ heavy.usedHostPorts
  pods : light.pods ⊆ heavy.pods

theorem removeAll_lighter (hfits : ∀ r, I64.Fits (info.requested r)) (h : info.UidsApart)
    {vs ws : List Pod} (hws : ∀ w ∈ ws, w ∈ info.pods ∧ w.AsksNonneg) (hn : ws.Nodup)
    (hvs : vs.Subperm ws) : Lighter (info.removeAll ws) (info.removeAll vs) := by
  obtain ⟨vs', hvs', hsub⟩ := hvs
  obtain ⟨rest, hrest⟩ := hsub.exists_perm_append
  have hperm : ws.Perm (vs ++ rest) := hrest.trans (hvs'.append_right rest)
  have hv (v : Pod) (hv : v ∈ vs) : v ∈ ws := hperm.mem_iff.mpr (List.mem_append_left _ hv)
  have hvn : vs.Nodup := (List.nodup_append.mp (hperm.nodup_iff.mp hn)).1
  have hmore := removeAll_without hfits h hws hn
  have hless := removeAll_without hfits h (fun v hm => hws v (hv v hm)) hvn
  refine ⟨hmore.node.trans hless.node.symm, fun r => ?_, ?_, fun p hp => ?_⟩
  · have hsum : 0 ≤ (rest.map (·.total r)).sum := by
      apply List.sum_nonneg
      intro x hx
      obtain ⟨w, hw, rfl⟩ := List.mem_map.mp hx
      exact (hws w (hperm.mem_iff.mpr (List.mem_append_right _ hw))).2.total_nonneg r
    rw [hmore.requested, hless.requested, (hperm.map _).sum_eq, List.map_append, List.sum_append]
    omega
  · rw [hmore.ports, hless.ports, (hperm.flatMap_right _).diff_left, List.flatMap_append,
      List.diff_append]
    exact List.diff_subset _ _
  · obtain ⟨hp, hnot⟩ := (hmore.pods p).mp hp
    exact (hless.pods p).mpr ⟨hp, fun hmem => hnot (hv p hmem)⟩

end NodeInfo

/-! ## The filters on a node with less on it -/

section Filters

variable {light heavy : NodeInfo} (h : NodeInfo.Lighter light heavy) {state : CycleState}
include h

theorem NodeResourcesFit.check_lighter {r : ResourceName}
    (hpass : (check state pod heavy r).isSuccess = true) :
    (check state pod light r).isSuccess = true := by
  have hallocatable : light.allocatable r = heavy.allocatable r := by
    rw [NodeInfo.allocatable, h.node, ← NodeInfo.allocatable]
  have hfree : I64.saturatingSub (heavy.allocatable r) (heavy.requested r) ≤
      I64.saturatingSub (light.allocatable r) (light.requested r) := by
    have hle := h.requested r
    rw [hallocatable, I64.saturatingSub, I64.saturatingSub]
    omega
  unfold check at hpass ⊢
  dsimp only at hpass ⊢
  split at hpass
  next hzero => rw [if_pos hzero]; rfl
  next hzero =>
    rw [if_neg hzero]
    split at hpass
    next => cases hpass
    next hroom =>
      rw [if_neg (not_lt.mpr ((not_lt.mp hroom).trans hfree))]
      rfl

theorem NodeResourcesFit.filter_lighter
    (hpass : (filter.filter state pod heavy).2.isSuccess = true) :
    (filter.filter state pod light).2.isSuccess = true := by
  simp only [filter] at hpass ⊢
  split at hpass
  next hcpu =>
    rw [if_pos (check_lighter h hcpu)]
    exact check_lighter h hpass
  next hcpu => exact absurd hpass hcpu

theorem NodePorts.filter_lighter (hpass : (filter.filter state pod heavy).2.isSuccess = true) :
    (filter.filter state pod light).2.isSuccess = true := by
  simp only [filter, FilterPlugin.pure] at hpass ⊢
  split at hpass
  next hfits =>
    have hfits' : fits pod light = true := by
      simp only [fits, List.all_eq_true, Bool.not_eq_true', List.any_eq_false] at hfits ⊢
      exact fun c hc candidate hcand used hused => hfits c hc candidate hcand used (h.ports hused)
    rw [if_pos hfits']
    rfl
  next => cases hpass

theorem VolumeRestrictions.filter_lighter
    (hpass : (filter.filter state pod heavy).2.isSuccess = true) :
    (filter.filter state pod light).2.isSuccess = true := by
  simp only [filter, FilterPlugin.pure] at hpass ⊢
  split at hpass
  next hnone =>
    have hnone' : firstShared (writtenClaims pod) light.pods = none := by
      rw [firstShared, List.findSome?_eq_none_iff] at hnone ⊢
      exact fun p hp => hnone p (h.pods hp)
    rw [hnone']
    rfl
  next => cases hpass

theorem defaultFilters_lighter :
    ∀ f ∈ defaultRegistry.filters, (f.filter state pod heavy).2.isSuccess = true →
      (f.filter state pod light).2.isSuccess = true := by
  intro f hf hpass
  simp only [defaultRegistry, List.mem_cons, List.not_mem_nil, or_false] at hf
  obtain rfl | rfl | rfl | rfl | rfl | rfl | rfl := hf
  · simpa only [nodeUnschedulable, FilterPlugin.pure, h.node] using hpass
  · simpa only [nodeName, FilterPlugin.pure, h.node] using hpass
  · exact NodeResourcesFit.filter_lighter h hpass
  · exact NodePorts.filter_lighter h hpass
  · exact VolumeRestrictions.filter_lighter h hpass
  · simpa only [TaintToleration.filter, FilterPlugin.pure, h.node] using hpass
  · simpa only [nodeAffinityFilter, FilterPlugin.pure, h.node] using hpass

end Filters

theorem runFilters_isSuccess_iff {node : NodeInfo} {filters : List FilterPlugin}
    (h : Stateless filters) (state : CycleState) :
    (runFilters pod node filters state).2.isSuccess = true ↔
      ∀ f ∈ filters, (f.filter state pod node).2.isSuccess = true := by
  refine ⟨runFilters_isSuccess h, fun hall => ?_⟩
  induction filters with
  | nil => rfl
  | cons f filters ih =>
    have hf : (f.filter state pod node).1 = state := h f List.mem_cons_self state pod node
    simp only [runFilters, hf, hall f List.mem_cons_self, if_true]
    exact ih (fun g hg => h g (List.mem_cons_of_mem f hg))
      fun g hg => hall g (List.mem_cons_of_mem f hg)

namespace DefaultPreemption

/-! ## Trials -/

/-- Would the default profile take the pod on the node without the victims? -/
def Takes (pod : Pod) (node : NodeInfo) (victims : List Pod) : Prop :=
  fitsWithRegistry pod node victims defaultRegistry.toFilterRegistry = true

theorem takes_iff {node : NodeInfo} {victims : List Pod} :
    Takes pod node victims ↔ ∀ f ∈ defaultRegistry.filters,
      (f.filter (NodeResourcesFit.preFilter.preFilter {} pod).1 pod
        (node.removeAll victims)).2.isSuccess = true := by
  have hremove (node : NodeInfo) (state : CycleState) :
      removeVictims pod defaultRegistry.preFilters victims node state =
        some (node.removeAll victims, state) := by
    induction victims generalizing node with
    | nil => rfl
    | cons v vs ih => exact ih (node.removePod v)
  rw [← runFilters_isSuccess_iff defaultRegistry_stateless]
  unfold Takes fitsWithRegistry
  rw [show runPreFilters pod defaultRegistry.preFilters {} =
    some (NodeResourcesFit.preFilter.preFilter {} pod).1 from rfl]
  dsimp only
  rw [hremove]

/-- The pods on the node of a strictly lower priority. -/
def lower (pod : Pod) (node : NodeInfo) : List Pod :=
  node.pods.filter fun p => p.spec.priority < pod.spec.priority

/-- The pods that may go, in the order they are tried. -/
def tried (pod : Pod) (node : NodeInfo) : List Pod :=
  (lower pod node).insertionSort fun p p' => p.spec.priority ≤ p'.spec.priority

theorem tried_perm (node : NodeInfo) : (tried pod node).Perm (lower pod node) :=
  List.perm_insertionSort _ _

/-- A node on which victims are chosen. -/
structure Candidate (pod : Pod) (node : NodeInfo) (chosen : List Pod) : Prop where
  rejects : ¬ Takes pod node []
  chosen : chooseVictims pod node defaultRegistry.toFilterRegistry [] (tried pod node) = some chosen

theorem chooseVictims_some {registry : FilterRegistry} {node : NodeInfo}
    {chosen victims out : List Pod}
    (h : chooseVictims pod node registry chosen victims = some out) :
    fitsWithRegistry pod node out registry = true ∧
      ∃ taken, taken <+: victims ∧ out = chosen ++ taken := by
  induction victims generalizing chosen with
  | nil =>
    rw [chooseVictims] at h
    split at h
    next hfits =>
      obtain rfl := Option.some.inj h
      exact ⟨hfits, [], List.nil_prefix, (List.append_nil _).symm⟩
    next => cases h
  | cons v victims ih =>
    rw [chooseVictims] at h
    split at h
    next hfits =>
      obtain rfl := Option.some.inj h
      exact ⟨hfits, [], List.nil_prefix, (List.append_nil _).symm⟩
    next =>
      obtain ⟨hfits, taken, htaken, rfl⟩ := ih h
      exact ⟨hfits, v :: taken, List.cons_prefix_cons.mpr ⟨rfl, htaken⟩, by simp⟩

theorem chooseVictims_none {registry : FilterRegistry} {node : NodeInfo}
    {chosen victims : List Pod} (h : chooseVictims pod node registry chosen victims = none) :
    ¬ fitsWithRegistry pod node (chosen ++ victims) registry = true := by
  induction victims generalizing chosen with
  | nil =>
    rw [chooseVictims] at h
    split at h
    next => cases h
    next hfits => rwa [List.append_nil]
  | cons v victims ih =>
    rw [chooseVictims] at h
    split at h
    next => cases h
    next => simpa using ih h

theorem chooseVictims_of_fits {registry : FilterRegistry} {node : NodeInfo}
    {chosen victims : List Pod} (h : fitsWithRegistry pod node chosen registry = true) :
    chooseVictims pod node registry chosen victims = some chosen := by
  cases victims <;> rw [chooseVictims, if_pos h]

theorem Candidate.ne_nil {node : NodeInfo} {chosen : List Pod} (h : Candidate pod node chosen) :
    chosen ≠ [] := by
  rintro rfl
  exact h.rejects (chooseVictims_some h.chosen).1

theorem Candidate.takes {node : NodeInfo} {chosen : List Pod} (h : Candidate pod node chosen) :
    Takes pod node chosen ∧ chosen.Subperm (lower pod node) := by
  obtain ⟨hfits, taken, htaken, rfl⟩ := chooseVictims_some h.chosen
  exact ⟨hfits, htaken.sublist.subperm.trans (tried_perm node).subperm⟩

/-! ## The node that is nominated -/

theorem bestNode_cons (pod : Pod) (node : NodeInfo) (nodes : List NodeInfo) (best : Option (String × Nat)) :
    ((∀ chosen, ¬ Candidate pod node chosen) ∧
      bestNode pod defaultRegistry.toFilterRegistry (node :: nodes) best =
        bestNode pod defaultRegistry.toFilterRegistry nodes best) ∨
    ∃ chosen, Candidate pod node chosen ∧ (∀ chosen', Candidate pod node chosen' → chosen' = chosen) ∧
      bestNode pod defaultRegistry.toFilterRegistry (node :: nodes) best =
        bestNode pod defaultRegistry.toFilterRegistry nodes
          (if best.all fun b => chosen.length < b.2 then some (node.name, chosen.length)
            else best) := by
  cases hchosen : chooseVictims pod node defaultRegistry.toFilterRegistry [] (tried pod node) with
  | none =>
    refine .inl ⟨fun chosen hc => ?_, by rw [bestNode, ← lower, ← tried, hchosen]⟩
    rw [hc.chosen] at hchosen
    cases hchosen
  | some chosen =>
    cases chosen with
    | nil =>
      refine .inl ⟨fun chosen hc => hc.ne_nil ?_, by rw [bestNode, ← lower, ← tried, hchosen]⟩
      exact Option.some.inj (hc.chosen.symm.trans hchosen)
    | cons v vs =>
      refine .inr ⟨v :: vs, ⟨fun hfits => ?_, hchosen⟩, fun chosen' hc => ?_, by
        rw [bestNode, ← lower, ← tried, hchosen]
        rfl⟩
      · rw [chooseVictims_of_fits hfits] at hchosen
        cases hchosen
      · exact Option.some.inj (hc.chosen.symm.trans hchosen)

theorem bestNode_eq_none_iff {nodes : List NodeInfo} {best : Option (String × Nat)} :
    bestNode pod defaultRegistry.toFilterRegistry nodes best = none ↔
      best = none ∧ ∀ node ∈ nodes, ∀ chosen, ¬ Candidate pod node chosen := by
  induction nodes generalizing best with
  | nil => simp [bestNode]
  | cons node nodes ih =>
    obtain ⟨hnone, heq⟩ | ⟨chosen, hc, -, heq⟩ := bestNode_cons pod node nodes best
    · rw [heq, ih, List.forall_mem_cons]
      exact and_congr_right fun _ => (and_iff_right hnone).symm
    · rw [heq, ih, List.forall_mem_cons]
      refine ⟨fun ⟨hbest, _⟩ => ?_, fun ⟨_, hno, _⟩ => absurd hc (hno chosen)⟩
      cases best with
      | none => cases hbest
      | some b => split at hbest <;> cases hbest

theorem bestNode_eq_some {nodes : List NodeInfo} {best : Option (String × Nat)} {name : String}
    {n : Nat} (h : bestNode pod defaultRegistry.toFilterRegistry nodes best = some (name, n)) :
    best = some (name, n) ∨
      ∃ before node after chosen, nodes = before ++ node :: after ∧ node.name = name ∧
        Candidate pod node chosen ∧ chosen.length = n ∧ (∀ b ∈ best, n < b.2) ∧
        ∀ node' ∈ before, ∀ chosen', Candidate pod node' chosen' → n < chosen'.length := by
  induction nodes generalizing best with
  | nil => exact .inl h
  | cons node nodes ih =>
    obtain ⟨hnone, heq⟩ | ⟨chosen, hc, hunique, heq⟩ := bestNode_cons pod node nodes best
    · rw [heq] at h
      obtain hbest | ⟨before, node', after, chosen', rfl, hname, hc', hlen, hb, hbefore⟩ := ih h
      · exact .inl hbest
      · refine .inr ⟨node :: before, node', after, chosen', rfl, hname, hc', hlen, hb, ?_⟩
        exact List.forall_mem_cons.mpr ⟨fun chosen hc => absurd hc (hnone chosen), hbefore⟩
    · rw [heq] at h
      have hnode (m : Nat) (hm : m < chosen.length) (chosen' : List Pod)
          (hc' : Candidate pod node chosen') : m < chosen'.length := by
        rw [hunique chosen' hc']
        exact hm
      split at h
      next hbetter =>
        rw [Option.all_eq_true] at hbetter
        obtain hbest | ⟨before, node', after, chosen', rfl, hname, hc', hlen, hb, hbefore⟩ := ih h
        · obtain ⟨rfl, rfl⟩ := Prod.mk.inj (Option.some.inj hbest)
          exact .inr ⟨[], node, nodes, chosen, rfl, rfl, hc, rfl,
            fun b hb => by simpa using hbetter b hb, fun _ hmem => nomatch hmem⟩
        · have hlt : n < chosen.length := hb _ rfl
          refine .inr ⟨node :: before, node', after, chosen', rfl, hname, hc', hlen,
            fun b hb => ?_, List.forall_mem_cons.mpr ⟨hnode n hlt, hbefore⟩⟩
          exact hlt.trans (by simpa using hbetter b hb)
      next hworse =>
        obtain hbest | ⟨before, node', after, chosen', rfl, hname, hc', hlen, hb, hbefore⟩ := ih h
        · exact .inl hbest
        · cases best with
          | none => exact absurd rfl hworse
          | some b =>
            have hle : b.2 ≤ chosen.length := by simpa using hworse
            exact .inr ⟨node :: before, node', after, chosen', rfl, hname, hc', hlen, hb,
              List.forall_mem_cons.mpr ⟨hnode n ((hb b rfl).trans_le hle), hbefore⟩⟩

theorem candidate_iff {node : NodeInfo} (hfits : ∀ r, I64.Fits (node.requested r))
    (huids : node.UidsApart) (hasks : ∀ p ∈ lower pod node, p.AsksNonneg) :
    (∃ chosen, Candidate pod node chosen) ↔
      ¬ Takes pod node [] ∧ Takes pod node (lower pod node) := by
  have hmem (ws : List Pod) (hws : ws.Perm (lower pod node)) :
      ∀ w ∈ ws, w ∈ node.pods ∧ w.AsksNonneg := fun w hw =>
    ⟨(List.mem_filter.mp (hws.mem_iff.mp hw)).1, hasks w (hws.mem_iff.mp hw)⟩
  have hnodup : (lower pod node).Nodup := (List.Nodup.of_map _ huids).filter _
  have hmono {vs ws : List Pod} (hws : ws.Perm (lower pod node)) (hvs : vs.Subperm ws)
      (htakes : Takes pod node vs) : Takes pod node ws := by
    rw [takes_iff] at htakes ⊢
    have hlight := NodeInfo.removeAll_lighter hfits huids (hmem ws hws)
      (hws.nodup_iff.mpr hnodup) hvs
    exact fun f hf => defaultFilters_lighter hlight f hf (htakes f hf)
  constructor
  · rintro ⟨chosen, hc⟩
    exact ⟨hc.rejects, hmono (.refl _) hc.takes.2 hc.takes.1⟩
  · rintro ⟨hrejects, hall⟩
    have hsorted : Takes pod node (tried pod node) :=
      hmono (tried_perm node) (tried_perm node).symm.subperm hall
    cases hchosen : chooseVictims pod node defaultRegistry.toFilterRegistry [] (tried pod node) with
    | none => exact absurd hsorted (chooseVictims_none hchosen)
    | some chosen => exact ⟨chosen, hrejects, hchosen⟩

theorem postFilter_nominee (state : CycleState) (nodes : List NodeInfo)
    (failures : FilterFailureMap) (registry : FilterRegistry) :
    (postFilter.postFilter state pod nodes failures registry).2.1 =
      (bestNode pod registry nodes none).map (·.1) := by
  simp only [postFilter]
  cases bestNode pod registry nodes none <;> rfl

/-- Where no pod of a lower priority requests a negative amount, a node is nominated exactly when
one rejects the pod and would accept it without all pods of a lower priority.  The one nominated
accepts it without its victims, and no candidate before it has as few. -/
theorem nominates_iff {nodes : List NodeInfo}
    (hreached : ∀ node ∈ nodes, NodeInfo.Reached (fun _ _ => True) node)
    (huids : ∀ node ∈ nodes, node.UidsApart)
    (hasks : ∀ node ∈ nodes, ∀ p ∈ lower pod node, p.AsksNonneg) (state : CycleState)
    (failures : FilterFailureMap) :
    ((postFilter.postFilter state pod nodes failures defaultRegistry.toFilterRegistry).2.1.isSome ↔
      ∃ node ∈ nodes, ¬ Takes pod node [] ∧ Takes pod node (lower pod node)) ∧
    ∀ name, (postFilter.postFilter state pod nodes failures
        defaultRegistry.toFilterRegistry).2.1 = some name →
      ∃ before node after chosen, nodes = before ++ node :: after ∧ node.name = name ∧
        chosen.Subperm (lower pod node) ∧ Takes pod node chosen ∧ Candidate pod node chosen ∧
        ∀ node' ∈ before, ∀ chosen', Candidate pod node' chosen' →
          chosen.length < chosen'.length := by
  rw [postFilter_nominee]
  constructor
  · have hcandidates : (∃ node ∈ nodes, ∃ chosen, Candidate pod node chosen) ↔
        ∃ node ∈ nodes, ¬ Takes pod node [] ∧ Takes pod node (lower pod node) := by
      refine exists_congr fun node => and_congr_right fun hnode => ?_
      exact candidate_iff (hreached node hnode).fits (huids node hnode) (hasks node hnode)
    rw [← hcandidates, Option.isSome_map, ← Option.not_isNone, Bool.not_eq_true',
      ← Bool.not_eq_true, Option.isNone_iff_eq_none, bestNode_eq_none_iff]
    simp
  · intro name hname
    obtain ⟨⟨name', n⟩, hbest, rfl⟩ := Option.map_eq_some_iff.mp hname
    obtain hnone | ⟨before, node, after, chosen, rfl, hnode, hc, rfl, -, hbefore⟩ :=
      bestNode_eq_some hbest
    · cases hnone
    · exact ⟨before, node, after, chosen, rfl, hnode, hc.takes.2, hc.takes.1, hc, hbefore⟩

/-! ## A shelf with two parcels -/

/-- A pod that asks for `amount` of everything. -/
def parcelOf (uid : String) (priority amount : Int) : Pod where
  metadata := { name := uid, uid := uid }
  spec := { containers := [{ requests := fun _ => some amount }], priority := priority }

def emptyShelf : Node where
  metadata := { name := "shelf" }
  status := { allocatable := fun _ => some 10 }

/-- A node with room for ten, and two pods on it. -/
def shelf (first second : Int) : NodeInfo :=
  ((NodeInfo.new emptyShelf).step (.addPod (parcelOf "first" 0 first))).step
    (.addPod (parcelOf "second" 1 second))

theorem reached_shelf (first second : Int) :
    NodeInfo.Reached (fun _ _ => True) (shelf first second) :=
  ((NodeInfo.Reached.new _).call (.addPod (parcelOf "first" 0 first)) trivial).call
    (.addPod (parcelOf "second" 1 second)) trivial

/-- Without the first pod the third one fits. -/
theorem nominates_shelf :
    (∀ p ∈ lower (parcelOf "third" 2 8) (shelf 6 2), p.AsksNonneg) ∧
    ((postFilter.postFilter {} (parcelOf "third" 2 8) [shelf 6 2] ∅
        defaultRegistry.toFilterRegistry).2.1.isSome ↔
      ∃ node ∈ [shelf 6 2], ¬ Takes (parcelOf "third" 2 8) node [] ∧
        Takes (parcelOf "third" 2 8) node (lower (parcelOf "third" 2 8) node)) := by
  have hasks : ∀ p ∈ lower (parcelOf "third" 2 8) (shelf 6 2), p.AsksNonneg := by
    intro p hp
    have hmem : p = parcelOf "first" 0 6 ∨ p = parcelOf "second" 1 2 := by
      simpa [shelf, NodeInfo.step, NodeInfo.new] using (List.mem_filter.mp hp).1
    obtain rfl | rfl := hmem <;> rintro c (_ | ⟨_, ⟨⟩⟩) (_ | _) <;> decide
  exact ⟨hasks, (nominates_iff (List.forall_mem_singleton.mpr (reached_shelf 6 2))
    (List.forall_mem_singleton.mpr (by decide)) (List.forall_mem_singleton.mpr hasks) {} ∅).1⟩

/-- The second pod requests less than nothing: without the first there is room for twelve, and
without both for ten. -/
theorem nominates_negative :
    ¬ ∀ (pod : Pod) (nodes : List NodeInfo) (state : CycleState) (failures : FilterFailureMap),
      (∀ node ∈ nodes, NodeInfo.Reached (fun _ _ => True) node) →
      (∀ node ∈ nodes, node.UidsApart) →
      ((postFilter.postFilter state pod nodes failures
          defaultRegistry.toFilterRegistry).2.1.isSome ↔
        ∃ node ∈ nodes, ¬ Takes pod node [] ∧ Takes pod node (lower pod node)) := by
  intro h
  have hiff := h (parcelOf "third" 2 12) [shelf 10 (-5)] {} ∅
    (List.forall_mem_singleton.mpr (reached_shelf _ _)) (List.forall_mem_singleton.mpr (by decide))
  obtain ⟨node, hnode, -, hall⟩ := hiff.mp (by decide)
  obtain rfl := List.mem_singleton.mp hnode
  revert hall
  unfold Takes
  decide

end DefaultPreemption

end CaveHome.Scheduler
