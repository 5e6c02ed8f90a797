import CaveHome.ControllerManager.Types
import CaveHome.Lib.Dict
import Mathlib.Data.Finset.Card
import Mathlib.Data.Finset.Dedup
import Mathlib.Logic.Relation
import Mathlib.Order.Bounds.Defs

/-!
# The garbage collector

The collector builds a graph of the owner references and decides which objects go.  Terminating
objects go with all that depends on them, and then every object goes whose owners are all gone.
-/

namespace CaveHome.ControllerManager

structure Node where
  uid : String
  owners : List String
  hasBlockingOwner : Bool
  terminating : Bool

structure OwnerGraph where
  nodes : Dict String Node := ∅
  /-- For each owner the objects that refer to it. -/
  dependents : Dict String (BTreeSet String) := ∅

namespace OwnerGraph

def addDependent (uid : String) (dependents : Dict String (BTreeSet String)) (owner : String) :
    Dict String (BTreeSet String) :=
  dependents.insert owner (BTreeSet.insert uid ((dependents.lookup owner).getD []))

/-- An object without a uid is left out. -/
def addObject (g : OwnerGraph) (m : ObjectMeta) : OwnerGraph :=
  if m.uid = "" then g
  else
    let owners := m.ownerReferences.map (·.uid)
    { dependents := owners.foldl (addDependent m.uid) g.dependents
      nodes := g.nodes.insert m.uid
        { uid := m.uid, owners, hasBlockingOwner := m.ownerReferences.any (·.blockOwnerDeletion),
          terminating := m.isTerminating } }

def build {α : Type} [Object α] (objects : List α) : OwnerGraph :=
  objects.foldl (fun g o => g.addObject (objectMeta o)) {}

def dependentsOf (g : OwnerGraph) (uid : String) : BTreeSet String :=
  (g.dependents.lookup uid).getD []

/-- All uids that a walk from the stack can meet. -/
def uids (g : OwnerGraph) (frontier : List String) : Finset String :=
  (frontier ++ g.dependents.entries.flatMap (·.2)).toFinset

theorem dependentsOf_subset (g : OwnerGraph) (uid : String) :
    g.dependentsOf uid ⊆ g.dependents.entries.flatMap (·.2) := by
  intro d hd
  rw [dependentsOf] at hd
  cases hl : g.dependents.lookup uid with
  | none => simp [hl] at hd
  | some s =>
    rw [hl] at hd
    exact List.mem_flatMap.mpr ⟨⟨uid, s⟩, Dict.mem_entries_iff.mpr hl, hd⟩

/-- Pop uids off the stack, of which the list is the content from the top down.  A uid that was not
there before pushes its dependents. -/
def cascade (g : OwnerGraph) (frontier : List String) (deleted : Finset String) : Finset String :=
  match frontier with
  | [] => deleted
  | uid :: frontier =>
    if uid ∈ deleted then g.cascade frontier deleted
    else g.cascade ((g.dependentsOf uid).reverse ++ frontier) (insert uid deleted)
termination_by ((g.uids frontier \ deleted).card, frontier.length)
decreasing_by
  · have hsub : g.uids frontier \ deleted ⊆ g.uids (uid :: frontier) \ deleted := by
      refine Finset.sdiff_subset_sdiff (fun d hd => ?_) (Finset.Subset.refl _)
      simp only [uids, List.mem_toFinset, List.mem_append, List.mem_cons] at hd ⊢
      exact hd.imp_left Or.inr
    rcases (Finset.card_le_card hsub).lt_or_eq with h | h
    · exact Prod.Lex.left _ _ h
    · rw [h]
      exact Prod.Lex.right _ (Nat.lt_succ_self _)
  · rename_i hmem
    refine Prod.Lex.left _ _ (Finset.card_lt_card ?_)
    refine (Finset.ssubset_iff_of_subset fun d hd => ?_).mpr ⟨uid, ?_, ?_⟩
    · simp only [uids, Finset.mem_sdiff, List.mem_toFinset, List.mem_append, List.mem_reverse,
        List.mem_cons, Finset.mem_insert, not_or] at hd ⊢
      refine ⟨?_, hd.2.2⟩
      rcases hd.1 with (hd | hd) | hd
      · exact Or.inr (g.dependentsOf_subset uid hd)
      · exact Or.inl (Or.inr hd)
      · exact Or.inr hd
    · simpa [uids] using hmem
    · simp

/-- The nodes left of which every owner is missing or deleted. -/
def candidates (g : OwnerGraph) (deleted : Finset String) : List String :=
  ((g.nodes.entries.map (·.2)).filter fun n =>
    decide (n.uid ∉ deleted) && !n.owners.isEmpty &&
      n.owners.all fun o => (g.nodes.lookup o).isNone || decide (o ∈ deleted)).map (·.uid)

theorem candidates_subset (g : OwnerGraph) (deleted : Finset String) :
    (g.candidates deleted).toFinset ⊆ (g.nodes.entries.map (·.2.uid)).toFinset \ deleted := by
  intro u hu
  simp only [candidates, List.mem_toFinset, List.mem_map, List.mem_filter, Bool.and_eq_true,
    decide_eq_true_eq] at hu
  obtain ⟨n, ⟨⟨e, he, rfl⟩, ⟨hnot, -⟩, -⟩, rfl⟩ := hu
  exact Finset.mem_sdiff.mpr ⟨List.mem_toFinset.mpr (List.mem_map.mpr ⟨e, he, rfl⟩), hnot⟩

/-- Delete the candidates until there are none. -/
def sweep (g : OwnerGraph) (deleted : Finset String) : Finset String :=
  if g.candidates deleted = [] then deleted
  else g.sweep (deleted ∪ (g.candidates deleted).toFinset)
termination_by ((g.nodes.entries.map (·.2.uid)).toFinset \ deleted).card
decreasing_by
  rename_i hne
  obtain ⟨u, us, hu⟩ := List.exists_cons_of_ne_nil hne
  have hmem : u ∈ (g.candidates deleted).toFinset := by simp [hu]
  refine Finset.card_lt_card ((Finset.ssubset_iff_of_subset ?_).mpr ⟨u, ?_, ?_⟩)
  · exact Finset.sdiff_subset_sdiff (Finset.Subset.refl _) Finset.subset_union_left
  · exact g.candidates_subset deleted hmem
  · simp [hu]

/-- The uids of the objects that go. -/
def deleteSet (g : OwnerGraph) : Finset String :=
  let frontier := ((g.nodes.entries.map (·.2)).filter (·.terminating)).map (·.uid)
  g.sweep (g.cascade frontier.reverse ∅)

/-- The dependents that keep a terminating owner from being finalized. -/
def foregroundBlockers (g : OwnerGraph) (uid : String) : List String :=
  (g.dependentsOf uid).filter fun d => (g.nodes.lookup d).any (·.hasBlockingOwner)

end OwnerGraph

end CaveHome.ControllerManager

/-!
## What the garbage collector deletes

The documented rule is that an object goes when it is terminating or when all of its owners are
gone.  The least set of uids closed under the rule is what should be deleted.  The walk from the
terminating objects does not ask for the other owners of what it meets, so that it deletes more
where one of them is still there.
-/

namespace CaveHome.ControllerManager

namespace OwnerGraph

/-- The node has owners, and each of them is missing or in the set. -/
def Orphaned (g : OwnerGraph) (D : Set String) (n : Node) : Prop :=
  n.owners ≠ [] ∧ ∀ o ∈ n.owners, g.nodes.lookup o = none ∨ o ∈ D

/-- The set has every terminating node and every orphan it makes. -/
def Closed (g : OwnerGraph) (D : Set String) : Prop :=
  ∀ u n, g.nodes.lookup u = some n → n.terminating ∨ g.Orphaned D n → u ∈ D

def nodeUids (g : OwnerGraph) : Set String := {u | (g.nodes.lookup u).isSome}

/-- The collector deletes the least set closed under the rule, and so no object that is not
terminating and has an owner that stays. -/
def Exact (g : OwnerGraph) : Prop :=
  IsLeast {D | D ⊆ g.nodeUids ∧ g.Closed D} g.deleteSet ∧
    ∀ u n, g.nodes.lookup u = some n → n.terminating = false →
      (∃ o ∈ n.owners, (g.nodes.lookup o).isSome ∧ o ∉ g.deleteSet) → u ∉ g.deleteSet

/-- The second object can be reached from the first over dependents. -/
def Reaches (g : OwnerGraph) : String → String → Prop :=
  Relation.ReflTransGen fun a b => b ∈ g.dependentsOf a

/-- Objects that keep each other: none is terminating, and each has no owner at all or an owner
among them. -/
def SelfSupporting (g : OwnerGraph) (S : Set String) : Prop :=
  ∀ u ∈ S, ∃ n, g.nodes.lookup u = some n ∧ n.terminating = false ∧
    (n.owners = [] ∨ ∃ o ∈ n.owners, o ∈ S)

/-- No object of such a set depends, over any number of references, on a terminating object. -/
def NoSharedDependents (g : OwnerGraph) : Prop :=
  ∀ S, g.SelfSupporting S → ∀ t n, g.nodes.lookup t = some n → n.terminating →
    ∀ u ∈ S, ¬ g.Reaches t u

/-! ## Graphs of object sets -/

/-- What holds of every graph that is built from objects. -/
structure Wf (g : OwnerGraph) : Prop where
  uid_eq : ∀ u n, g.nodes.lookup u = some n → n.uid = u
  dependents_mem : ∀ a, ∀ b ∈ g.dependentsOf a, b ∈ g.nodeUids

/-- The graphs differ in the order in which they list their nodes only. -/
def Reordered (g g' : OwnerGraph) : Prop :=
  g.nodes.Reordered g'.nodes ∧ g'.dependents = g.dependents

theorem Wf.reordered {g g' : OwnerGraph} (h : g.Wf) (hr : g.Reordered g') : g'.Wf := by
  refine ⟨fun u n hn => h.uid_eq u n ((hr.1.lookup_eq u).symm.trans hn), fun a b hb => ?_⟩
  rw [nodeUids, Set.mem_ofPred_eq, hr.1.lookup_eq]
  exact h.dependents_mem a b (by rwa [dependentsOf, ← hr.2])

theorem mem_foldl_addDependent {uid owner d : String} (owners : List String)
    (dependents : Dict String (BTreeSet String)) :
    d ∈ ((owners.foldl (addDependent uid) dependents).lookup owner).getD [] →
      d = uid ∨ d ∈ (dependents.lookup owner).getD [] := by
  induction owners generalizing dependents with
  | nil => exact Or.inr
  | cons o owners ih =>
    intro hd
    rcases ih _ hd with h | h
    · exact Or.inl h
    · by_cases ho : owner = o
      · subst ho
        simpa [addDependent] using h
      · rw [addDependent, AList.lookup_insert_ne ho] at h
        exact Or.inr h

theorem Wf.addObject {g : OwnerGraph} (h : g.Wf) (m : ObjectMeta) : (g.addObject m).Wf := by
  rw [OwnerGraph.addObject]
  split
  · exact h
  · refine ⟨fun u n hn => ?_, fun a b hb => ?_⟩
    · by_cases hu : u = m.uid
      · subst hu
        rw [AList.lookup_insert, Option.some.injEq] at hn
        exact hn ▸ rfl
      · rw [AList.lookup_insert_ne hu] at hn
        exact h.uid_eq u n hn
    · by_cases hu : b = m.uid
      · simp [nodeUids, hu]
      · rw [nodeUids, Set.mem_ofPred_eq, AList.lookup_insert_ne hu]
        exact h.dependents_mem a b ((mem_foldl_addDependent _ _ hb).resolve_left hu)

theorem wf_build {α : Type} [Object α] (objects : List α) : (build objects).Wf := by
  have hfold : ∀ g : OwnerGraph, g.Wf →
      (objects.foldl (fun g o => g.addObject (objectMeta o)) g).Wf := by
    induction objects with
    | nil => exact fun g hg => hg
    | cons o objects ih => exact fun g hg => ih _ (hg.addObject _)
  refine hfold {} ⟨fun u n hn => ?_, fun a b hb => ?_⟩
  · simp at hn
  · simp [dependentsOf] at hb

theorem cascade_sound (g : OwnerGraph) (frontier : List String) (deleted : Finset String)
    {u : String} (hu : u ∈ g.cascade frontier deleted) :
    u ∈ deleted ∨ ∃ f ∈ frontier, g.Reaches f u := by
  fun_induction cascade g frontier deleted with
  | case1 deleted => exact Or.inl hu
  | case2 deleted uid frontier hmem ih =>
    exact (ih hu).imp_right fun ⟨f, hf, hr⟩ => ⟨f, List.mem_cons_of_mem _ hf, hr⟩
  | case3 deleted uid frontier hmem ih =>
    rcases ih hu with h | ⟨f, hf, hr⟩
    · rcases Finset.mem_insert.mp h with rfl | h
      · exact Or.inr ⟨u, List.mem_cons_self, Relation.ReflTransGen.refl⟩
      · exact Or.inl h
    · rcases List.mem_append.mp hf with hf | hf
      · have hstep : f ∈ g.dependentsOf uid := List.mem_reverse.mp hf
        exact Or.inr ⟨uid, List.mem_cons_self, Relation.ReflTransGen.head hstep hr⟩
      · exact Or.inr ⟨f, List.mem_cons_of_mem _ hf, hr⟩

theorem cascade_complete (g : OwnerGraph) (frontier : List String) (deleted : Finset String)
    (hinv : ∀ a ∈ deleted, ∀ b ∈ g.dependentsOf a, b ∈ deleted ∨ b ∈ frontier) :
    (∀ u, u ∈ deleted ∨ u ∈ frontier → u ∈ g.cascade frontier deleted) ∧
      ∀ a ∈ g.cascade frontier deleted, ∀ b ∈ g.dependentsOf a,
        b ∈ g.cascade frontier deleted := by
  fun_induction cascade g frontier deleted with
  | case1 deleted =>
    exact ⟨fun u hu => hu.resolve_right List.not_mem_nil,
      fun a ha b hb => (hinv a ha b hb).resolve_right List.not_mem_nil⟩
  | case2 deleted uid frontier hmem ih =>
    obtain ⟨hkeep, hclosed⟩ := ih fun a ha b hb => by
      rcases hinv a ha b hb with h | h
      · exact Or.inl h
      · rcases List.mem_cons.mp h with rfl | h
        · exact Or.inl hmem
        · exact Or.inr h
    refine ⟨fun u hu => hkeep u ?_, hclosed⟩
    rcases hu with h | h
    · exact Or.inl h
    · rcases List.mem_cons.mp h with rfl | h
      · exact Or.inl hmem
      · exact Or.inr h
  | case3 deleted uid frontier hmem ih =>
    obtain ⟨hkeep, hclosed⟩ := ih fun a ha b hb => by
      simp only [Finset.mem_insert, List.mem_append, List.mem_reverse]
      rcases Finset.mem_insert.mp ha with rfl | ha
      · exact Or.inr (Or.inl hb)
      · rcases hinv a ha b hb with h | h
        · exact Or.inl (Or.inr h)
        · rcases List.mem_cons.mp h with h | h
          · exact Or.inl (Or.inl h)
          · exact Or.inr (Or.inr h)
    refine ⟨fun u hu => hkeep u ?_, hclosed⟩
    simp only [Finset.mem_insert, List.mem_append]
    rcases hu with h | h
    · exact Or.inl (Or.inr h)
    · rcases List.mem_cons.mp h with h | h
      · exact Or.inl (Or.inl h)
      · exact Or.inr (Or.inr h)

theorem mem_candidates_iff {g : OwnerGraph} (hwf : g.Wf) {deleted : Finset String} {u : String} :
    u ∈ g.candidates deleted ↔
      u ∉ deleted ∧ ∃ n, g.nodes.lookup u = some n ∧ g.Orphaned deleted n := by
  simp only [candidates, List.mem_map, List.mem_filter, Bool.and_eq_true, decide_eq_true_eq,
    Bool.not_eq_true', List.isEmpty_eq_false_iff, List.all_eq_true, Bool.or_eq_true,
    Option.isNone_iff_eq_none]
  constructor
  · rintro ⟨n, ⟨⟨e, he, rfl⟩, ⟨hnot, hne⟩, hall⟩, rfl⟩
    have hl := Dict.mem_entries_iff.mp he
    have huid := hwf.uid_eq _ _ hl
    exact ⟨hnot, e.2, by rw [huid]; exact hl, hne, hall⟩
  · rintro ⟨hnot, n, hl, hne, hall⟩
    have huid := hwf.uid_eq _ _ hl
    refine ⟨n, ⟨⟨⟨u, n⟩, Dict.mem_entries_iff.mpr hl, rfl⟩, ⟨?_, hne⟩, hall⟩, huid⟩
    rwa [huid]

theorem subset_sweep (g : OwnerGraph) (deleted : Finset String) : deleted ⊆ g.sweep deleted := by
  fun_induction sweep g deleted with
  | case1 deleted h => exact Finset.Subset.refl _
  | case2 deleted h ih => exact Finset.subset_union_left.trans ih

theorem candidates_sweep (g : OwnerGraph) (deleted : Finset String) :
    g.candidates (g.sweep deleted) = [] := by
  fun_induction sweep g deleted with
  | case1 deleted h => exact h
  | case2 deleted h ih => exact ih

theorem sweep_subset {g : OwnerGraph} (hwf : g.Wf) {D : Set String} (hD : g.Closed D)
    (deleted : Finset String) (h : ↑deleted ⊆ D) : ↑(g.sweep deleted) ⊆ D := by
  fun_induction sweep g deleted with
  | case1 deleted _ => exact h
  | case2 deleted _ ih =>
    refine ih fun u hu => ?_
    rcases Finset.mem_union.mp hu with hu | hu
    · exact h hu
    · obtain ⟨-, n, hn, hne, hall⟩ := (mem_candidates_iff hwf).mp (List.mem_toFinset.mp hu)
      exact hD u n hn (Or.inr ⟨hne, fun o ho => (hall o ho).imp_right fun hmem => h hmem⟩)

/-! ## The set that is deleted -/

/-- The uids that the walk from the terminating objects meets. -/
def cascaded (g : OwnerGraph) : Finset String :=
  g.cascade (((g.nodes.entries.map (·.2)).filter (·.terminating)).map (·.uid)).reverse ∅

theorem mem_cascaded_iff {g : OwnerGraph} (hwf : g.Wf) {u : String} :
    u ∈ g.cascaded ↔ ∃ t n, g.nodes.lookup t = some n ∧ n.terminating ∧ g.Reaches t u := by
  constructor
  · intro hu
    obtain ⟨f, hf, hr⟩ := (g.cascade_sound _ _ hu).resolve_left (Finset.notMem_empty u)
    simp only [List.mem_reverse, List.mem_map, List.mem_filter] at hf
    obtain ⟨n, ⟨⟨e, he, rfl⟩, hterm⟩, rfl⟩ := hf
    have hl := Dict.mem_entries_iff.mp he
    rw [← hwf.uid_eq _ _ hl] at hl
    exact ⟨_, e.2, hl, hterm, hr⟩
  · rintro ⟨t, n, hl, hterm, hr⟩
    obtain ⟨hkeep, hclosed⟩ := g.cascade_complete
      (((g.nodes.entries.map (·.2)).filter (·.terminating)).map (·.uid)).reverse ∅
      fun a ha => absurd ha (Finset.notMem_empty a)
    induction hr with
    | refl =>
      refine hkeep t (Or.inr ?_)
      simp only [List.mem_reverse, List.mem_map, List.mem_filter]
      exact ⟨n, ⟨⟨⟨t, n⟩, Dict.mem_entries_iff.mpr hl, rfl⟩, hterm⟩, hwf.uid_eq _ _ hl⟩
    | tail _ hstep ih => exact hclosed _ ih _ hstep

theorem cascaded_subset_deleteSet (g : OwnerGraph) : g.cascaded ⊆ g.deleteSet :=
  g.subset_sweep _

theorem closed_deleteSet {g : OwnerGraph} (hwf : g.Wf) : g.Closed g.deleteSet := by
  intro u n hl hrule
  rcases hrule with hterm | horphan
  · refine g.cascaded_subset_deleteSet ((mem_cascaded_iff hwf).mpr ⟨u, n, hl, hterm, ?_⟩)
    exact Relation.ReflTransGen.refl
  · by_contra hnot
    have hmem : u ∈ g.candidates g.deleteSet :=
      (mem_candidates_iff hwf).mpr ⟨hnot, n, hl, horphan⟩
    rw [deleteSet, candidates_sweep] at hmem
    exact List.not_mem_nil hmem

theorem Reaches.mem_nodeUids {g : OwnerGraph} (hwf : g.Wf) {t u : String} (ht : t ∈ g.nodeUids)
    (hr : g.Reaches t u) : u ∈ g.nodeUids := by
  induction hr with
  | refl => exact ht
  | tail _ hstep _ => exact hwf.dependents_mem _ _ hstep

theorem closed_nodeUids (g : OwnerGraph) : g.Closed g.nodeUids := by
  intro u n hl _
  simp [nodeUids, hl]

theorem deleteSet_subset_nodeUids {g : OwnerGraph} (hwf : g.Wf) : ↑g.deleteSet ⊆ g.nodeUids := by
  refine sweep_subset hwf g.closed_nodeUids _ fun u hu => ?_
  obtain ⟨t, n, hl, -, hr⟩ := (mem_cascaded_iff hwf).mp hu
  exact hr.mem_nodeUids hwf (by simp [nodeUids, hl])

theorem Closed.selfSupporting {g : OwnerGraph} {D : Set String} (hD : g.Closed D) :
    g.SelfSupporting (g.nodeUids \ D) := by
  rintro u ⟨hu, hnot⟩
  obtain ⟨n, hl⟩ := Option.isSome_iff_exists.mp hu
  have hterm : n.terminating = false := by
    by_contra h
    exact hnot (hD u n hl (Or.inl (by simpa using h)))
  refine ⟨n, hl, hterm, ?_⟩
  by_contra h
  obtain ⟨hne, hout⟩ := not_or.mp h
  refine hnot (hD u n hl (Or.inr ⟨hne, fun o ho => ?_⟩))
  by_contra hpresent
  obtain ⟨hsome, hoD⟩ := not_or.mp hpresent
  exact hout ⟨o, ho, Option.isSome_iff_ne_none.mpr hsome, hoD⟩

theorem Closed.diff {g : OwnerGraph} {D S : Set String} (hD : g.Closed D)
    (hS : g.SelfSupporting S) : g.Closed (D \ S) := by
  intro u n hl hrule
  have hnotS : u ∉ S := by
    intro huS
    obtain ⟨n', hl', hterm, hkept⟩ := hS u huS
    obtain rfl := Option.some.inj (hl'.symm.trans hl)
    rcases hrule with h | ⟨hne, hall⟩
    · simp [h] at hterm
    · obtain ⟨o, ho, hoS⟩ := hkept.resolve_left hne
      obtain ⟨no, hno, -⟩ := hS o hoS
      rcases hall o ho with h | h
      · simp [h] at hno
      · exact h.2 hoS
  refine ⟨hD u n hl ?_, hnotS⟩
  exact hrule.imp_right fun ⟨hne, hall⟩ => ⟨hne, fun o ho => (hall o ho).imp_right And.left⟩

theorem isLeast_iff {g : OwnerGraph} (hwf : g.Wf) :
    IsLeast {D | D ⊆ g.nodeUids ∧ g.Closed D} g.deleteSet ↔ g.NoSharedDependents := by
  constructor
  · intro hleast S hS t n hl hterm u hu hr
    have hdel : u ∈ g.deleteSet :=
      g.cascaded_subset_deleteSet ((mem_cascaded_iff hwf).mpr ⟨t, n, hl, hterm, hr⟩)
    have hsub : ↑g.deleteSet \ S ⊆ g.nodeUids :=
      Set.sdiff_subset.trans (deleteSet_subset_nodeUids hwf)
    exact (hleast.2 ⟨hsub, (closed_deleteSet hwf).diff hS⟩ hdel).2 hu
  · intro hcond
    refine ⟨⟨deleteSet_subset_nodeUids hwf, closed_deleteSet hwf⟩, fun D hD => ?_⟩
    refine sweep_subset hwf hD.2 _ fun u hu => ?_
    obtain ⟨t, n, hl, hterm, hr⟩ := (mem_cascaded_iff hwf).mp hu
    by_contra hnot
    have hmem : u ∈ g.nodeUids := hr.mem_nodeUids hwf (by simp [nodeUids, hl])
    exact hcond _ hD.2.selfSupporting t n hl hterm u ⟨hmem, hnot⟩ hr

theorem not_mem_of_isLeast {g : OwnerGraph} {D : Set String}
    (hleast : IsLeast {D | D ⊆ g.nodeUids ∧ g.Closed D} D) {u : String} {n : Node}
    (hl : g.nodes.lookup u = some n) (hterm : n.terminating = false)
    (howner : ∃ o ∈ n.owners, (g.nodes.lookup o).isSome ∧ o ∉ D) : u ∉ D := by
  intro hu
  obtain ⟨o, ho, hpresent, hoD⟩ := howner
  have hclosed : g.Closed (D \ {u}) := by
    intro v nv hlv hrule
    have hv : v ∈ D := by
      refine hleast.1.2 v nv hlv (hrule.imp_right fun ⟨hne, hall⟩ => ⟨hne, fun o ho => ?_⟩)
      exact (hall o ho).imp_right And.left
    refine ⟨hv, fun hvu => ?_⟩
    obtain rfl : v = u := hvu
    obtain rfl := Option.some.inj (hl.symm.trans hlv)
    rcases hrule with h | ⟨-, hall⟩
    · simp [h] at hterm
    · rcases hall o ho with h | h
      · simp [h] at hpresent
      · exact hoD h.1
  exact (hleast.2 ⟨Set.sdiff_subset.trans hleast.1.1, hclosed⟩ hu).2 rfl

/-- The collector is exact on the graph of an object set, in whatever order the nodes are visited,
if and only if no object that live owners keep also depends on a terminating object. -/
theorem exact_iff {α : Type} [Object α] (objects : List α) (g : OwnerGraph)
    (hg : (build objects).Reordered g) : g.Exact ↔ g.NoSharedDependents := by
  have hwf := (wf_build objects).reordered hg
  constructor
  · intro h
    exact (isLeast_iff hwf).mp h.1
  · intro h
    have hleast := (isLeast_iff hwf).mpr h
    exact ⟨hleast, fun u n hl hterm howner => not_mem_of_isLeast hleast hl hterm howner⟩

/-- A terminating object, and one that depends on it alone. -/
def ownedOnce : List ObjectMeta :=
  [{ name := "owner", namespaceName := "ns", uid := "owner", deletionTimestamp := some 10 },
   { name := "child", namespaceName := "ns", uid := "child",
     ownerReferences := [.to "Owner" "owner" "owner"] }]

theorem ownedOnce_exact :
    (build ownedOnce).Reordered (build ownedOnce) ∧ (build ownedOnce).Exact := by
  have hrefl : (build ownedOnce).Reordered (build ownedOnce) := ⟨List.Perm.refl _, rfl⟩
  refine ⟨hrefl, (exact_iff ownedOnce _ hrefl).mpr fun S hS t n _ _ u hu _ => ?_⟩
  have hentries : (build ownedOnce).nodes.entries =
      [⟨"child", ⟨"child", ["owner"], false, false⟩⟩, ⟨"owner", ⟨"owner", [], false, true⟩⟩] := rfl
  have howner : "owner" ∉ S := by
    intro hmem
    obtain ⟨n, hl, hterm, -⟩ := hS _ hmem
    have hn := (Dict.mem_entries_iff (e := ⟨_, n⟩)).mpr hl
    simp [hentries] at hn
    simp [hn] at hterm
  obtain ⟨n, hl, -, hkept⟩ := hS u hu
  have hn := (Dict.mem_entries_iff (e := ⟨u, n⟩)).mpr hl
  simp only [hentries, List.mem_cons, Sigma.mk.injEq, heq_eq_eq, List.not_mem_nil, or_false] at hn
  rcases hn with ⟨rfl, rfl⟩ | ⟨rfl, rfl⟩
  · simp at hkept
    exact howner hkept
  · exact howner hu

/-- An object with two owners, of which one is terminating and one stays. -/
def ownedTwice : List ObjectMeta :=
  [{ name := "gone", namespaceName := "ns", uid := "gone", deletionTimestamp := some 10 },
   { name := "owner", namespaceName := "ns", uid := "owner" },
   { name := "dep", namespaceName := "ns", uid := "dep",
     ownerReferences := [.to "O" "gone" "gone", .to "O" "owner" "owner"] }]

/-- The object goes although one of its owners stays. -/
theorem ownedTwice_not_exact : ¬ (build ownedTwice).Exact := by
  intro h
  have hgone : (build ownedTwice).nodes.lookup "gone" = some ⟨"gone", [], false, true⟩ := rfl
  have howner : (build ownedTwice).nodes.lookup "owner" = some ⟨"owner", [], false, false⟩ := rfl
  have hdep : (build ownedTwice).nodes.lookup "dep" =
      some ⟨"dep", ["gone", "owner"], false, false⟩ := rfl
  have hS : (build ownedTwice).SelfSupporting {"owner", "dep"} := by
    rintro u (rfl | rfl)
    · exact ⟨_, howner, rfl, Or.inl rfl⟩
    · exact ⟨_, hdep, rfl, Or.inr ⟨"owner", by simp, by simp⟩⟩
  have hreach : (build ownedTwice).Reaches "gone" "dep" := by
    have hstep : "dep" ∈ (build ownedTwice).dependentsOf "gone" := by decide
    exact Relation.ReflTransGen.single hstep
  exact (isLeast_iff (wf_build ownedTwice)).mp h.1 _ hS "gone" _ hgone rfl "dep" (by simp) hreach

end OwnerGraph

end CaveHome.ControllerManager
