import CaveHome.Lib.BTreeMap
import CaveHome.Lib.Ranks
import Mathlib.Data.List.Sort
import Mathlib.Data.Prod.Lex
import Mathlib.Data.String.Basic

/-!
# Garbage collection of containers

Which dead containers are removed: those that are old enough are grouped by pod and name, each group
is cut to a number of containers, and then all of them together are, first by an even share for each
group and at last by age.
-/

namespace CaveHome.Kubelet

/-- A container as the collection sees it. -/
structure ContainerRecord where
  id : String
  podUid : String
  name : String
  createdAt : Nat
  running : Bool
deriving DecidableEq

/-- The caps are unlimited when they are negative. -/
structure GcPolicy where
  minAgeSecs : Nat
  maxPerPodContainer : Int
  maxContainers : Int

/-- The pod and the name of a container. -/
def ContainerRecord.unitKey (c : ContainerRecord) : String ×ₗ String := toLex (c.podUid, c.name)

abbrev Units := BTreeMap (String ×ₗ String) (List ContainerRecord)

/-- Neither running nor too young. -/
def evictable (policy : GcPolicy) (now : Nat) (c : ContainerRecord) : Bool :=
  !c.running && policy.minAgeSecs ≤ now - c.createdAt

/-- The newest comes first, and of those of one time the one with the least identifier. -/
def newestFirst (a b : ContainerRecord) : Prop :=
  b.createdAt < a.createdAt ∨ b.createdAt = a.createdAt ∧ a.id ≤ b.id

instance : DecidableRel newestFirst := fun _ _ => inferInstanceAs (Decidable (_ ∨ _))

def oldestFirst (a b : ContainerRecord) : Prop :=
  a.createdAt < b.createdAt ∨ a.createdAt = b.createdAt ∧ a.id ≤ b.id

instance : DecidableRel oldestFirst := fun _ _ => inferInstanceAs (Decidable (_ ∨ _))

/-- The candidates in their units, each with the newest first. -/
def evictUnits (policy : GcPolicy) (containers : List ContainerRecord) (now : Nat) : Units :=
  (BTreeMap.grouped ContainerRecord.unitKey (containers.filter (evictable policy now))).map
    fun e => (e.1, e.2.insertionSort newestFirst)

/-- Remove the last of a unit while it is too long. -/
def capUnit (cap : Nat) (unit : List ContainerRecord) (removed : List ContainerRecord) :
    List ContainerRecord × List ContainerRecord :=
  if cap < unit.length then
    capUnit cap unit.dropLast (removed ++ unit.getLast?.toList)
  else (unit, removed)
termination_by unit.length
decreasing_by
  rw [List.length_dropLast]
  omega

/-- Cap the units one after the other. -/
def capUnits (cap : Nat) : Units → List ContainerRecord → Units × List ContainerRecord
  | [], removed => ([], removed)
  | (key, unit) :: units, removed =>
    let (unit, removed) := capUnit cap unit removed
    let (units, removed) := capUnits cap units removed
    ((key, unit) :: units, removed)

/-- A quotient, which there is none of by zero. -/
def checkedDiv (a b : Nat) : Option Nat := if b = 0 then none else some (a / b)

/-- The caps for all containers: an even share for each unit, and then the oldest of all. -/
def capAll (max numUnits : Nat) (units : Units) (removed : List ContainerRecord) :
    Option (List ContainerRecord) := do
  let total := (units.map fun e => e.2.length).sum
  if max < total then
    let share ← checkedDiv max numUnits
    let perUnit := Nat.max share 1
    let (units, removed) := capUnits perUnit units removed
    let remaining := (units.map fun e => e.2.length).sum
    if max < remaining then
      let survivors := (BTreeMap.values units).insertionSort oldestFirst
      return removed ++ survivors.take (remaining - max)
    else return removed
  else return removed

/-- The records that are removed, in the order of the three stages. -/
def removedRecords (policy : GcPolicy) (containers : List ContainerRecord) (now : Nat) :
    Option (List ContainerRecord) :=
  let units := evictUnits policy containers now
  let numUnits := units.length
  let (units, removed) :=
    if 0 ≤ policy.maxPerPodContainer then capUnits policy.maxPerPodContainer.toNat units []
    else (units, [])
  if 0 ≤ policy.maxContainers then capAll policy.maxContainers.toNat numUnits units removed
  else some removed

def selectContainersToRemove (policy : GcPolicy) (containers : List ContainerRecord) (now : Nat) :
    Option (List String) :=
  (removedRecords policy containers now).map fun removed =>
    Ranks.dedup ((removed.map (·.id)).insertionSort (· ≤ ·))

/-! ## The orders -/

instance : Std.Total newestFirst where
  total a b := by
    unfold newestFirst
    rcases Nat.lt_trichotomy a.createdAt b.createdAt with h | h | h
    · exact .inr (.inl h)
    · exact (le_total a.id b.id).imp (fun hid => .inr ⟨h.symm, hid⟩) fun hid => .inr ⟨h, hid⟩
    · exact .inl (.inl h)

instance : IsTrans ContainerRecord newestFirst where
  trans a b c := by
    rintro (hab | ⟨hab, hid⟩) (hbc | ⟨hbc, hid'⟩)
    · exact .inl (hbc.trans hab)
    · exact .inl (by omega)
    · exact .inl (by omega)
    · exact .inr ⟨hbc.trans hab, hid.trans hid'⟩

instance : Std.Total oldestFirst where
  total a b := by
    unfold oldestFirst
    rcases Nat.lt_trichotomy a.createdAt b.createdAt with h | h | h
    · exact .inl (.inl h)
    · exact (le_total a.id b.id).imp (fun hid => .inr ⟨h, hid⟩) fun hid => .inr ⟨h.symm, hid⟩
    · exact .inr (.inl h)

instance : IsTrans ContainerRecord oldestFirst where
  trans a b c := by
    rintro (hab | ⟨hab, hid⟩) (hbc | ⟨hbc, hid'⟩)
    · exact .inl (hab.trans hbc)
    · exact .inl (by omega)
    · exact .inl (by omega)
    · exact .inr ⟨hab.trans hbc, hid.trans hid'⟩

theorem newestFirst.le {a b : ContainerRecord} (h : newestFirst a b) :
    b.createdAt ≤ a.createdAt := by
  rcases h with h | ⟨h, -⟩ <;> omega

theorem oldestFirst.le {a b : ContainerRecord} (h : oldestFirst a b) :
    a.createdAt ≤ b.createdAt := by
  rcases h with h | ⟨h, -⟩ <;> omega

theorem id_eq_of_newestFirst {a b : ContainerRecord} (h : newestFirst a b)
    (h' : newestFirst b a) : a.id = b.id := by
  rcases h with h | ⟨h, hid⟩
  · rcases h' with h' | ⟨h', -⟩ <;> omega
  · rcases h' with h' | ⟨-, hid'⟩
    · omega
    · exact le_antisymm hid hid'

/-! ## Capping -/

theorem capUnit_eq (cap : Nat) (unit removed : List ContainerRecord) :
    capUnit cap unit removed = (unit.take cap, removed ++ (unit.drop cap).reverse) := by
  fun_induction capUnit cap unit removed with
  | case1 unit removed hlt ih =>
    rw [ih]
    obtain ⟨front, last, rfl⟩ : ∃ front last, unit = front ++ [last] := by
      rcases List.eq_nil_or_concat unit with rfl | ⟨front, last, rfl⟩
      · simp at hlt
      · exact ⟨front, last, List.concat_eq_append⟩
    rw [List.length_append, List.length_singleton] at hlt
    rw [List.dropLast_concat, List.getLast?_concat, Option.toList_some,
      List.take_append_of_le_length (by omega), List.drop_append_of_le_length (by omega),
      List.reverse_append, List.reverse_singleton, List.append_assoc]
  | case2 unit removed hle =>
    rw [List.take_of_length_le (by omega), List.drop_eq_nil_of_le (by omega)]
    simp

/-- All units cut to so many containers. -/
def cutUnits (cap : Nat) (units : Units) : Units := units.map fun e => (e.1, e.2.take cap)

/-- What is cut off. -/
def cutOff (cap : Nat) (units : Units) : List ContainerRecord :=
  units.flatMap fun e => (e.2.drop cap).reverse

theorem capUnits_eq (cap : Nat) (units : Units) (removed : List ContainerRecord) :
    capUnits cap units removed = (cutUnits cap units, removed ++ cutOff cap units) := by
  induction units generalizing removed with
  | nil => simp [capUnits, cutUnits, cutOff]
  | cons e units ih =>
    obtain ⟨key, unit⟩ := e
    rw [capUnits, capUnit_eq]
    dsimp only
    rw [ih, List.append_assoc]
    rfl

theorem values_cut_perm (cap : Nat) (units : Units) :
    (BTreeMap.values (cutUnits cap units) ++ cutOff cap units).Perm (BTreeMap.values units) := by
  induction units with
  | nil => exact .rfl
  | cons e units ih =>
    have hhead : (e.2.take cap ++ (e.2.drop cap).reverse).Perm e.2 := by
      have hrev := ((e.2.drop cap).reverse_perm).append_left (e.2.take cap)
      rwa [List.take_append_drop] at hrev
    change ((e.2.take cap ++ BTreeMap.values (cutUnits cap units)) ++
      ((e.2.drop cap).reverse ++ cutOff cap units)).Perm (e.2 ++ BTreeMap.values units)
    refine List.Perm.trans ?_ (hhead.append ih)
    rw [List.append_assoc, List.append_assoc]
    refine List.Perm.append_left _ ?_
    rw [← List.append_assoc, ← List.append_assoc]
    exact List.perm_append_comm.append_right _

/-- How far the candidates have been divided into those that stay in their units, with the newest
first, and those that are removed. -/
structure Cutting (candidates : List ContainerRecord) (units : Units)
    (removed : List ContainerRecord) : Prop where
  perm : (BTreeMap.values units ++ removed).Perm candidates
  keys : BTreeMap.Sorted units
  keyed : ∀ e ∈ units, ∀ c ∈ e.2, c.unitKey = e.1
  sorted : ∀ e ∈ units, e.2.Pairwise newestFirst
  older : ∀ c ∈ removed, ∀ c' ∈ BTreeMap.values units, c'.unitKey = c.unitKey → newestFirst c' c

variable {policy : GcPolicy} {containers candidates removed : List ContainerRecord} {now : Nat}
  {units : Units}

theorem mem_values {c : ContainerRecord} :
    c ∈ BTreeMap.values units ↔ ∃ e ∈ units, c ∈ e.2 := List.mem_flatMap

theorem Cutting.get_of_mem (h : Cutting candidates units removed)
    {e : _ × List ContainerRecord} (he : e ∈ units) : BTreeMap.get e.1 units = some e.2 :=
  h.keys.mem_iff.mp he

theorem Cutting.unit_eq (h : Cutting candidates units removed) {e e' : _ × List ContainerRecord}
    (he : e ∈ units) (he' : e' ∈ units) (hkey : e.1 = e'.1) : e = e' := by
  have hget := h.get_of_mem he
  have hget' := h.get_of_mem he'
  rw [hkey, hget'] at hget
  exact Prod.ext hkey (Option.some.inj hget).symm

theorem Cutting.cut (h : Cutting candidates units removed) (cap : Nat) :
    Cutting candidates (cutUnits cap units) (removed ++ cutOff cap units) where
  perm := by
    refine List.Perm.trans ?_ h.perm
    rw [← List.append_assoc]
    refine List.Perm.trans ?_ ((values_cut_perm cap units).append_right removed)
    rw [List.append_assoc, List.append_assoc]
    exact List.Perm.append_left _ List.perm_append_comm
  keys := List.pairwise_map.mpr h.keys
  keyed := by
    intro e he c hc
    obtain ⟨e, hmem, rfl⟩ := List.mem_map.mp he
    exact h.keyed e hmem c (List.mem_of_mem_take hc)
  sorted := by
    intro e he
    obtain ⟨e, hmem, rfl⟩ := List.mem_map.mp he
    exact (h.sorted e hmem).sublist (List.take_sublist _ _)
  older := by
    intro c hc c' hc' hkey
    obtain ⟨e', he', hc'⟩ := mem_values.mp hc'
    obtain ⟨e', hmem', rfl⟩ := List.mem_map.mp he'
    rcases List.mem_append.mp hc with hc | hc
    · exact h.older c hc c' (mem_values.mpr ⟨e', hmem', List.mem_of_mem_take hc'⟩) hkey
    · obtain ⟨e, hmem, hc⟩ := List.mem_flatMap.mp hc
      have hc := List.mem_reverse.mp hc
      have heq : e' = e := by
        refine h.unit_eq hmem' hmem ?_
        rw [← h.keyed e hmem c (List.mem_of_mem_drop hc), ← hkey,
          h.keyed e' hmem' c' (List.mem_of_mem_take hc')]
      subst heq
      have hpairs := h.sorted e' hmem
      rw [← List.take_append_drop cap e'.2] at hpairs
      exact (List.pairwise_append.mp hpairs).2.2 c' hc' c hc

/-! ## The units -/

/-- The candidates with a key. -/
def ofUnit (key : String ×ₗ String) (l : List ContainerRecord) : List ContainerRecord :=
  l.filter fun c => c.unitKey = key

theorem get_evictUnits (policy : GcPolicy) (containers : List ContainerRecord) (now : Nat)
    (key : String ×ₗ String) :
    BTreeMap.get key (evictUnits policy containers now) =
      if ofUnit key (containers.filter (evictable policy now)) = [] then none
      else some ((ofUnit key (containers.filter (evictable policy now))).insertionSort
        newestFirst) := by
  rw [evictUnits, BTreeMap.get_map, BTreeMap.get_grouped]
  change Option.map _ (if ofUnit key (containers.filter (evictable policy now)) = [] then none
    else some (ofUnit key (containers.filter (evictable policy now)))) = _
  split <;> rfl

theorem sorted_evictUnits (policy : GcPolicy) (containers : List ContainerRecord) (now : Nat) :
    BTreeMap.Sorted (evictUnits policy containers now) :=
  List.pairwise_map.mpr (BTreeMap.sorted_grouped _ _)

theorem values_map_sort_perm (units : Units) :
    (BTreeMap.values (units.map fun e => (e.1, e.2.insertionSort newestFirst))).Perm
      (BTreeMap.values units) := by
  induction units with
  | nil => exact .rfl
  | cons e units ih => exact (List.perm_insertionSort newestFirst e.2).append ih

theorem cutting_evictUnits (policy : GcPolicy) (containers : List ContainerRecord) (now : Nat) :
    Cutting (containers.filter (evictable policy now)) (evictUnits policy containers now) [] where
  perm := by
    rw [List.append_nil]
    exact (values_map_sort_perm _).trans (BTreeMap.values_grouped _ _)
  keys := sorted_evictUnits policy containers now
  keyed := by
    intro e he c hc
    have hget : BTreeMap.get e.1 (evictUnits policy containers now) = some e.2 :=
      (sorted_evictUnits policy containers now).mem_iff.mp he
    rw [get_evictUnits] at hget
    split at hget
    · cases hget
    · rw [← Option.some.inj hget, List.mem_insertionSort] at hc
      exact of_decide_eq_true (List.mem_filter.mp hc).2
  sorted := by
    intro e he
    obtain ⟨e, -, rfl⟩ := List.mem_map.mp he
    exact List.pairwise_insertionSort newestFirst e.2
  older := fun c hc => absurd hc List.not_mem_nil

theorem Cutting.ofUnit_length_le (h : Cutting candidates units removed) {cap : Nat}
    (hcap : ∀ e ∈ units, e.2.length ≤ cap) (key : String ×ₗ String) :
    (ofUnit key (BTreeMap.values units)).length ≤ cap := by
  have hkeyed := h.keyed
  have hkeys := h.keys
  clear h
  induction units with
  | nil => exact Nat.zero_le _
  | cons e units ih =>
    obtain ⟨hhead, htail⟩ := List.pairwise_cons.mp hkeys
    have hrest := ih (fun e' he' => hcap e' (List.mem_cons_of_mem _ he'))
      (fun e' he' => hkeyed e' (List.mem_cons_of_mem _ he')) htail
    have hsplit : ofUnit key (BTreeMap.values (e :: units)) =
        ofUnit key e.2 ++ ofUnit key (BTreeMap.values units) := List.filter_append _ _
    rw [hsplit, List.length_append]
    by_cases hkey : e.1 = key
    · -- no other unit has the key
      have hnone : ofUnit key (BTreeMap.values units) = [] := by
        refine List.filter_eq_nil_iff.mpr fun c hc => ?_
        obtain ⟨e', he', hc⟩ := mem_values.mp hc
        rw [decide_eq_true_eq, hkeyed e' (List.mem_cons_of_mem _ he') c hc, ← hkey]
        exact (hhead e' he').ne'
      have hle := (List.length_filter_le (fun c => c.unitKey = key) e.2).trans
        (hcap e List.mem_cons_self)
      rw [hnone, List.length_nil]
      exact hle
    · have hnone : ofUnit key e.2 = [] := by
        refine List.filter_eq_nil_iff.mpr fun c hc => ?_
        rw [decide_eq_true_eq, hkeyed e List.mem_cons_self c hc]
        exact hkey
      rw [hnone, List.length_nil, Nat.zero_add]
      exact hrest

theorem length_le_of_cutUnits {cap : Nat} : ∀ e ∈ cutUnits cap units, e.2.length ≤ cap := by
  intro e he
  obtain ⟨e, -, rfl⟩ := List.mem_map.mp he
  exact List.length_take_le _ _

theorem length_le_cutUnits {cap bound : Nat} (h : ∀ e ∈ units, e.2.length ≤ bound) :
    ∀ e ∈ cutUnits cap units, e.2.length ≤ bound := by
  intro e he
  obtain ⟨e, hmem, rfl⟩ := List.mem_map.mp he
  exact (List.length_take_le' _ _).trans (h e hmem)

theorem sum_lengths (units : Units) :
    (units.map fun e => e.2.length).sum = (BTreeMap.values units).length :=
  (List.length_flatMap).symm

/-! ## The stages -/

/-- The candidates that stay and those that are removed. -/
structure Decision (policy : GcPolicy) (candidates kept removed : List ContainerRecord) : Prop where
  perm : (kept ++ removed).Perm candidates
  unit_le : 0 ≤ policy.maxPerPodContainer →
    ∀ key, (ofUnit key kept).length ≤ policy.maxPerPodContainer.toNat
  total_le : 0 ≤ policy.maxContainers → kept.length ≤ policy.maxContainers.toNat
  older : ∀ c ∈ removed, ∀ c' ∈ kept, c'.unitKey = c.unitKey → c.createdAt ≤ c'.createdAt

theorem Cutting.decision (h : Cutting candidates units removed)
    (hunit : 0 ≤ policy.maxPerPodContainer →
      ∀ e ∈ units, e.2.length ≤ policy.maxPerPodContainer.toNat)
    (htotal : 0 ≤ policy.maxContainers →
      (BTreeMap.values units).length ≤ policy.maxContainers.toNat) :
    Decision policy candidates (BTreeMap.values units) removed where
  perm := h.perm
  unit_le := fun hcap key => h.ofUnit_length_le (hunit hcap) key
  total_le := htotal
  older := fun c hc c' hc' hkey => (h.older c hc c' hc' hkey).le

theorem Cutting.removeOldest (h : Cutting candidates units removed) (n : Nat)
    (hunit : 0 ≤ policy.maxPerPodContainer →
      ∀ e ∈ units, e.2.length ≤ policy.maxPerPodContainer.toNat)
    (htotal : 0 ≤ policy.maxContainers →
      (BTreeMap.values units).length - n ≤ policy.maxContainers.toNat) :
    Decision policy candidates (((BTreeMap.values units).insertionSort oldestFirst).drop n)
      (removed ++ ((BTreeMap.values units).insertionSort oldestFirst).take n) := by
  have hperm := List.perm_insertionSort oldestFirst (BTreeMap.values units)
  have hsorted := List.pairwise_insertionSort oldestFirst (BTreeMap.values units)
  generalize (BTreeMap.values units).insertionSort oldestFirst = sorted at hperm hsorted
  have hparts := List.take_append_drop n sorted
  refine ⟨?_, fun hcap key => ?_, fun hmax => ?_, fun c hc c' hc' hkey => ?_⟩
  · refine List.Perm.trans ?_ ((hperm.append_right removed).trans h.perm)
    conv => rhs; rw [← hparts]
    refine List.perm_append_comm.trans ?_
    rw [List.append_assoc]
    exact List.perm_append_comm
  · have hsub : (ofUnit key (sorted.drop n)).length ≤ (ofUnit key sorted).length :=
      ((List.drop_sublist n sorted).filter _).length_le
    exact hsub.trans (((hperm.filter _).length_eq).trans_le (h.ofUnit_length_le (hunit hcap) key))
  · rw [List.length_drop, hperm.length_eq]
    exact htotal hmax
  · rcases List.mem_append.mp hc with hc | hc
    · have hmem := hperm.mem_iff.mp (List.mem_of_mem_drop hc')
      exact (h.older c hc c' hmem hkey).le
    · rw [← hparts] at hsorted
      exact ((List.pairwise_append.mp hsorted).2.2 c hc c' hc').le

theorem capAll_spec (h : Cutting candidates units removed) {numUnits : Nat}
    (hunits : numUnits = units.length)
    (hunit : 0 ≤ policy.maxPerPodContainer →
      ∀ e ∈ units, e.2.length ≤ policy.maxPerPodContainer.toNat) :
    ∃ removed' kept, capAll policy.maxContainers.toNat numUnits units removed = some removed' ∧
      Decision policy candidates kept removed' := by
  unfold capAll
  rw [sum_lengths]
  by_cases htotal : policy.maxContainers.toNat < (BTreeMap.values units).length
  · -- then there is a unit to share among
    have hne : numUnits ≠ 0 := by
      rintro rfl
      rw [List.length_eq_zero_iff.mp hunits.symm] at htotal
      simp [BTreeMap.values] at htotal
    rw [if_pos htotal, checkedDiv, if_neg hne, Option.bind_eq_bind, Option.bind_some]
    dsimp only
    rw [capUnits_eq]
    dsimp only
    rw [sum_lengths]
    generalize Nat.max (policy.maxContainers.toNat / numUnits) 1 = share
    have hcut := h.cut share
    have hunit' : 0 ≤ policy.maxPerPodContainer →
        ∀ e ∈ cutUnits share units, e.2.length ≤ policy.maxPerPodContainer.toNat :=
      fun hcap => length_le_cutUnits (hunit hcap)
    split
    next hremaining =>
      exact ⟨_, _, rfl, hcut.removeOldest _ hunit' fun _ => by omega⟩
    next hremaining =>
      exact ⟨_, _, rfl, hcut.decision hunit' fun _ => Nat.not_lt.mp hremaining⟩
  · rw [if_neg htotal]
    exact ⟨_, _, rfl, h.decision hunit fun _ => Nat.not_lt.mp htotal⟩

theorem removedRecords_spec (policy : GcPolicy) (containers : List ContainerRecord) (now : Nat) :
    ∃ removed kept, removedRecords policy containers now = some removed ∧
      Decision policy (containers.filter (evictable policy now)) kept removed := by
  have h := cutting_evictUnits policy containers now
  unfold removedRecords
  dsimp only
  by_cases hcap : 0 ≤ policy.maxPerPodContainer
  · rw [if_pos hcap, capUnits_eq]
    dsimp only
    have hcut := h.cut policy.maxPerPodContainer.toNat
    split
    next hmax =>
      exact capAll_spec hcut (List.length_map _).symm fun _ => length_le_of_cutUnits
    next hmax =>
      exact ⟨_, _, rfl, hcut.decision (fun _ => length_le_of_cutUnits) fun h0 => absurd h0 hmax⟩
  · rw [if_neg hcap]
    dsimp only
    split
    next hmax => exact capAll_spec h rfl fun h0 => absurd h0 hcap
    next hmax =>
      exact ⟨_, _, rfl, h.decision (fun h0 => absurd h0 hcap) fun h0 => absurd h0 hmax⟩

theorem cutUnits_eq_self {cap : Nat} (h : ∀ e ∈ units, e.2.length ≤ cap) :
    cutUnits cap units = units ∧ cutOff cap units = [] := by
  constructor
  · refine List.map_congr_left (g := id) ?_ |>.trans (List.map_id _)
    intro e he
    rw [List.take_of_length_le (h e he)]
    rfl
  · refine List.flatMap_eq_nil_iff.mpr fun e he => ?_
    rw [List.drop_eq_nil_of_le (h e he), List.reverse_nil]

theorem removedRecords_eq_nil
    (hunit : 0 ≤ policy.maxPerPodContainer → ∀ key,
      (ofUnit key (containers.filter (evictable policy now))).length ≤
        policy.maxPerPodContainer.toNat)
    (htotal : 0 ≤ policy.maxContainers →
      (containers.filter (evictable policy now)).length ≤ policy.maxContainers.toNat) :
    removedRecords policy containers now = some [] := by
  have h := cutting_evictUnits policy containers now
  have hlength := h.perm.length_eq
  rw [List.append_nil] at hlength
  have hunits : 0 ≤ policy.maxPerPodContainer → ∀ e ∈ evictUnits policy containers now,
      e.2.length ≤ policy.maxPerPodContainer.toNat := by
    intro hcap e he
    have hget := h.get_of_mem he
    rw [get_evictUnits] at hget
    split at hget
    · cases hget
    · rw [← Option.some.inj hget, List.length_insertionSort]
      exact hunit hcap e.1
  have hstage : (if 0 ≤ policy.maxPerPodContainer then
        capUnits policy.maxPerPodContainer.toNat (evictUnits policy containers now) []
      else (evictUnits policy containers now, [])) = (evictUnits policy containers now, []) := by
    split
    next hcap =>
      obtain ⟨hcut, hoff⟩ := cutUnits_eq_self (hunits hcap)
      rw [capUnits_eq, hcut, hoff, List.append_nil]
    next => rfl
  unfold removedRecords
  dsimp only
  rw [hstage]
  dsimp only
  split
  next hmax =>
    unfold capAll
    rw [sum_lengths, hlength, if_neg (Nat.not_lt.mpr (htotal hmax))]
    rfl
  next => rfl

theorem evictUnits_perm {containers' : List ContainerRecord} (h : containers.Perm containers')
    (hnodup : (containers.map (·.id)).Nodup) :
    evictUnits policy containers now = evictUnits policy containers' now := by
  refine (sorted_evictUnits _ _ _).ext (sorted_evictUnits _ _ _) fun key => ?_
  rw [get_evictUnits, get_evictUnits]
  have hperm : (ofUnit key (containers.filter (evictable policy now))).Perm
      (ofUnit key (containers'.filter (evictable policy now))) := (h.filter _).filter _
  have hsub : ofUnit key (containers.filter (evictable policy now)) ⊆ containers := fun c hc =>
    (List.mem_filter.mp (List.mem_filter.mp hc).1).1
  generalize ofUnit key (containers.filter (evictable policy now)) = l at hperm hsub
  generalize ofUnit key (containers'.filter (evictable policy now)) = l' at hperm
  have hsort : l.insertionSort newestFirst = l'.insertionSort newestFirst := by
    refine List.Perm.eq_of_pairwise ?_ (List.pairwise_insertionSort newestFirst l)
      (List.pairwise_insertionSort newestFirst l') ?_
    · intro a b ha hb hab hba
      have ha := hsub ((List.mem_insertionSort _).mp ha)
      have hb := hsub (hperm.mem_iff.mpr ((List.mem_insertionSort _).mp hb))
      exact List.inj_on_of_nodup_map hnodup ha hb (id_eq_of_newestFirst hab hba)
    · exact (List.perm_insertionSort _ l).trans
        (hperm.trans (List.perm_insertionSort _ l').symm)
  have hnil : l = [] ↔ l' = [] := by
    constructor
    · rintro rfl
      exact hperm.symm.eq_nil
    · rintro rfl
      exact hperm.eq_nil
  by_cases hempty : l = []
  · rw [if_pos hempty, if_pos (hnil.mp hempty)]
  · rw [if_neg hempty, if_neg (mt hnil.mpr hempty), hsort]

/-! ## The selection -/

theorem removedRecords_perm {containers' : List ContainerRecord} (h : containers.Perm containers')
    (hnodup : (containers.map (·.id)).Nodup) :
    removedRecords policy containers now = removedRecords policy containers' now := by
  unfold removedRecords
  rw [evictUnits_perm h hnodup]

theorem mem_dedup_sorted {id : String} {removed : List ContainerRecord} :
    id ∈ Ranks.dedup ((removed.map (·.id)).insertionSort (· ≤ ·)) ↔ ∃ c ∈ removed, c.id = id := by
  rw [Ranks.mem_dedup, List.mem_insertionSort, List.mem_map]

/-- The candidates that are left after a removal. -/
def survivors (policy : GcPolicy) (containers : List ContainerRecord) (now : Nat)
    (removed : List String) : List ContainerRecord :=
  (containers.filter (evictable policy now)).filter fun c => c.id ∉ removed

theorem Decision.survivors_perm {kept : List ContainerRecord} {ids : List String}
    (h : Decision policy (containers.filter (evictable policy now)) kept removed)
    (hnodup : (containers.map (·.id)).Nodup) (hids : ∀ id, id ∈ ids ↔ ∃ c ∈ removed, c.id = id) :
    (survivors policy containers now ids).Perm kept := by
  have hdistinct : ((kept ++ removed).map (·.id)).Nodup :=
    (h.perm.map _).nodup_iff.mpr (hnodup.sublist (List.filter_sublist.map _))
  rw [List.map_append] at hdistinct
  have hdisjoint := (List.nodup_append.mp hdistinct).2.2
  have hkept : kept.filter (fun c => c.id ∉ ids) = kept := by
    refine List.filter_eq_self.mpr fun c hc => decide_eq_true fun hid => ?_
    obtain ⟨c', hc', heq⟩ := (hids c.id).mp hid
    exact hdisjoint _ (List.mem_map_of_mem hc) _ (List.mem_map_of_mem hc') heq.symm
  have hremoved : removed.filter (fun c => c.id ∉ ids) = [] := by
    refine List.filter_eq_nil_iff.mpr fun c hc => ?_
    rw [decide_eq_true_eq]
    exact not_not_intro ((hids c.id).mpr ⟨c, hc, rfl⟩)
  have hfilter := (h.perm.filter fun c => decide (c.id ∉ ids)).symm
  rwa [List.filter_append, hkept, hremoved, List.append_nil] at hfilter

/-- What a selection guarantees. -/
structure Selects (policy : GcPolicy) (containers : List ContainerRecord) (now : Nat)
    (removed : List String) : Prop where
  /-- Only containers that are dead and old enough are removed. -/
  evictable : ∀ id ∈ removed, ∃ c ∈ containers, c.id = id ∧ c.running = false ∧
    policy.minAgeSecs ≤ now - c.createdAt
  unit_le : 0 ≤ policy.maxPerPodContainer → ∀ key,
    ((ofUnit key (survivors policy containers now removed)).length : Int) ≤
      policy.maxPerPodContainer
  total_le : 0 ≤ policy.maxContainers →
    ((survivors policy containers now removed).length : Int) ≤ policy.maxContainers
  /-- No older container of the unit stays. -/
  older : ∀ c ∈ containers, c.id ∈ removed → ∀ c' ∈ survivors policy containers now removed,
    c'.unitKey = c.unitKey → ¬ c'.createdAt < c.createdAt
  unlimited : policy.maxPerPodContainer < 0 → policy.maxContainers < 0 → removed = []
  order : ∀ containers', containers.Perm containers' →
    selectContainersToRemove policy containers' now = some removed
  again : selectContainersToRemove policy (containers.filter fun c => c.id ∉ removed) now = some []

/-- The selection does not divide by zero, and it keeps what it must. -/
theorem selectContainersToRemove_spec (policy : GcPolicy) (containers : List ContainerRecord)
    (now : Nat) (hnodup : (containers.map (·.id)).Nodup) :
    ∃ removed, selectContainersToRemove policy containers now = some removed ∧
      Selects policy containers now removed := by
  obtain ⟨removed, kept, hremoved, h⟩ := removedRecords_spec policy containers now
  have hselect : selectContainersToRemove policy containers now =
      some (Ranks.dedup ((removed.map (·.id)).insertionSort (· ≤ ·))) := by
    rw [selectContainersToRemove, hremoved]
    rfl
  have hids : ∀ id, id ∈ Ranks.dedup ((removed.map (·.id)).insertionSort (· ≤ ·)) ↔
      ∃ c ∈ removed, c.id = id := fun id => mem_dedup_sorted
  refine ⟨_, hselect, ?_⟩
  generalize Ranks.dedup ((removed.map (·.id)).insertionSort (· ≤ ·)) = ids at hselect hids
  have hsurvivors := h.survivors_perm hnodup hids
  have hunit : 0 ≤ policy.maxPerPodContainer → ∀ key,
      (ofUnit key (survivors policy containers now ids)).length ≤
        policy.maxPerPodContainer.toNat := fun hcap key =>
    ((hsurvivors.filter _).length_eq).trans_le (h.unit_le hcap key)
  have htotal : 0 ≤ policy.maxContainers →
      (survivors policy containers now ids).length ≤ policy.maxContainers.toNat := fun hmax =>
    hsurvivors.length_eq.trans_le (h.total_le hmax)
  have hmem : ∀ c ∈ removed, c ∈ containers ∧ evictable policy now c = true := fun c hc =>
    List.mem_filter.mp (h.perm.mem_iff.mp (List.mem_append_right _ hc))
  have hagain : (containers.filter fun c => c.id ∉ ids).filter (evictable policy now) =
      survivors policy containers now ids := List.filter_comm ..
  refine ⟨fun id hid => ?_, fun hcap key => ?_, fun hmax => ?_, fun c hc hid c' hc' hkey => ?_,
    fun hcap hmax => ?_, fun containers' hperm => ?_, ?_⟩
  · obtain ⟨c, hc, rfl⟩ := (hids id).mp hid
    obtain ⟨hcontainers, hevict⟩ := hmem c hc
    have hparts := Bool.and_eq_true_iff.mp hevict
    exact ⟨c, hcontainers, rfl, by simpa using hparts.1, of_decide_eq_true hparts.2⟩
  · have hle := hunit hcap key
    omega
  · have hle := htotal hmax
    omega
  · obtain ⟨c₀, hc₀, heq⟩ := (hids c.id).mp hid
    obtain rfl := List.inj_on_of_nodup_map hnodup (hmem c₀ hc₀).1 hc heq
    exact Nat.not_lt.mpr (h.older c₀ hc₀ c' (hsurvivors.mem_iff.mp hc') hkey)
  · have hnil : removedRecords policy containers now = some [] :=
      removedRecords_eq_nil (fun h0 => by omega) fun h0 => by omega
    rw [selectContainersToRemove, hnil] at hselect
    exact (Option.some.inj hselect).symm
  · rw [← hselect, selectContainersToRemove, selectContainersToRemove,
      removedRecords_perm hperm hnodup]
  · have hnil : removedRecords policy (containers.filter fun c => c.id ∉ ids) now = some [] :=
      removedRecords_eq_nil (fun hcap key => by rw [hagain]; exact hunit hcap key)
        fun hmax => by rw [hagain]; exact htotal hmax
    rw [selectContainersToRemove, hnil]
    rfl

/-- Two dead containers of one unit and a running one, with room for one. -/
theorem selectContainersToRemove_two :
    ∃ removed, selectContainersToRemove ⟨0, 1, -1⟩
        [⟨"a", "pod", "main", 1, false⟩, ⟨"b", "pod", "main", 2, false⟩,
          ⟨"c", "pod", "side", 3, true⟩] 10 = some removed ∧
      Selects ⟨0, 1, -1⟩ [⟨"a", "pod", "main", 1, false⟩, ⟨"b", "pod", "main", 2, false⟩,
        ⟨"c", "pod", "side", 3, true⟩] 10 removed :=
  selectContainersToRemove_spec _ _ _ (by decide)

end CaveHome.Kubelet
