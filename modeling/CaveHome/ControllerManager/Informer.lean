import CaveHome.ControllerManager.Store
import CaveHome.Lib.Dict
import Mathlib.Data.List.Induction

/-!
# The delta queue

Observed changes wait in a queue, all of one key together, until they are popped and applied to a
store.  Changes of one key that follow each other are merged, except deletions.
-/

namespace CaveHome.ControllerManager

inductive DeltaType
  | added
  | updated
  | deleted
  /-- Seen again in a list of all objects. -/
  | sync
  deriving DecidableEq

structure Delta (α : Type) where
  deltaType : DeltaType
  object : α

structure DeltaFifo (α : Type) where
  /-- The changes of each key that wait. -/
  queues : Dict String (List (Delta α)) := ∅
  /-- The keys with changes, the oldest first. -/
  order : List String := []
  /-- The keys of the objects that exist. -/
  known : BTreeSet String := []
  lastKnown : Dict String α := ∅

variable {α : Type}

/-- Append a change, or merge it into the last one if neither is a deletion. -/
def pushDelta (q : List (Delta α)) (delta : Delta α) : List (Delta α) :=
  match q.getLast? with
  | none => q ++ [delta]
  | some last =>
    if last.deltaType ≠ .deleted ∧ delta.deltaType ≠ .deleted then
      q.dropLast ++ [{
        object := delta.object
        deltaType := if delta.deltaType = .updated then .updated else last.deltaType }]
    else q ++ [delta]

namespace DeltaFifo

def enqueue (f : DeltaFifo α) (key : String) (delta : Delta α) : DeltaFifo α :=
  let f := if (f.queues.lookup key).isNone then
    { f with queues := f.queues.insert key [], order := f.order ++ [key] } else f
  { f with queues := f.queues.insert key (pushDelta ((f.queues.lookup key).getD []) delta) }

variable [Object α]

def observe (f : DeltaFifo α) (deltaType : DeltaType) (o : α) : DeltaFifo α :=
  let f := { f with
    known := BTreeSet.insert (key o) f.known, lastKnown := f.lastKnown.insert (key o) o }
  f.enqueue (key o) ⟨deltaType, o⟩

def add (f : DeltaFifo α) (o : α) : DeltaFifo α := f.observe .added o

def update (f : DeltaFifo α) (o : α) : DeltaFifo α := f.observe .updated o

def delete (f : DeltaFifo α) (o : α) : DeltaFifo α :=
  let f := { f with
    known := BTreeSet.remove (key o) f.known, lastKnown := f.lastKnown.erase (key o) }
  f.enqueue (key o) ⟨.deleted, o⟩

/-- Report a known key that is not there any more as deleted. -/
def vanish (f : DeltaFifo α) (key : String) : DeltaFifo α :=
  match f.lastKnown.lookup key with
  | none => f
  | some o => ({ f with lastKnown := f.lastKnown.erase key } : DeltaFifo α).enqueue key ⟨.deleted, o⟩

def syncObject (f : DeltaFifo α) (o : α) : DeltaFifo α :=
  ({ f with lastKnown := f.lastKnown.insert (key o) o } : DeltaFifo α).enqueue (key o) ⟨.sync, o⟩

/-- The set of the keys of objects. -/
def keySet (objects : List α) : BTreeSet String :=
  objects.foldl (fun keys o => BTreeSet.insert (key o) keys) []

/-- Take the objects for all that exist. -/
def replace (f : DeltaFifo α) (objects : List α) : DeltaFifo α :=
  let newKeys := keySet objects
  let vanished := f.known.filter fun k => !newKeys.contains k
  let f := vanished.foldl vanish f
  let f := objects.foldl syncObject f
  { f with known := newKeys }

/-- Take the changes of the oldest key.  Keys without changes are passed over. -/
def popFrom (queues : Dict String (List (Delta α))) :
    List String → Dict String (List (Delta α)) × List String × Option (String × List (Delta α))
  | [] => (queues, [], none)
  | key :: order =>
    match queues.lookup key with
    | none => popFrom (queues.erase key) order
    | some [] => popFrom (queues.erase key) order
    | some (delta :: deltas) => (queues.erase key, order, some (key, delta :: deltas))

def pop (f : DeltaFifo α) : DeltaFifo α × Option (String × List (Delta α)) :=
  let (queues, order, popped) := popFrom f.queues f.order
  ({ f with queues, order }, popped)

def isEmpty (f : DeltaFifo α) : Bool := f.order.isEmpty

end DeltaFifo

def applyDelta [Object α] (s : Store α) (delta : Delta α) : Store α :=
  match delta.deltaType with
  | .deleted => s.remove (key delta.object)
  | _ => s.upsert delta.object

end CaveHome.ControllerManager

/-!
## The store converges to the observed objects

The queue is compared with a plain account of the calls: the set of objects they define, and all
changes that have not been popped yet, unmerged and in the order of their arrival.
-/

namespace CaveHome.ControllerManager

variable {α : Type}

/-! ## Merged changes -/

/-- What a change leaves of its object. -/
def Delta.outcome (delta : Delta α) : Option α :=
  if delta.deltaType = .deleted then none else some delta.object

/-- What changes of one key leave of its object. -/
def outcome (start : Option α) (deltas : List (Delta α)) : Option α :=
  deltas.foldl (fun _ delta => delta.outcome) start

theorem outcome_append (start : Option α) (ds ds' : List (Delta α)) :
    outcome start (ds ++ ds') = outcome (outcome start ds) ds' := List.foldl_append

@[simp]
theorem outcome_concat (start : Option α) (ds : List (Delta α)) (d : Delta α) :
    outcome start (ds ++ [d]) = d.outcome := by
  rw [outcome_append]
  rfl

/-- A merged change stands for a deletion, or for changes in a row of which it has the last
object. -/
def Delta.StandsFor (d : Delta α) (group : List (Delta α)) : Prop :=
  (d.deltaType = .deleted ∧ group = [d]) ∨
    (d.deltaType ≠ .deleted ∧ (∀ g ∈ group, g.deltaType ≠ .deleted) ∧
      (group.getLast?.map (·.object)) = some d.object)

/-- The changes are those that arrived, in the same order, with some in a row merged. -/
def Merges (arrived merged : List (Delta α)) : Prop :=
  ∃ groups : List (List (Delta α)), groups.flatten = arrived ∧
    List.Forall₂ Delta.StandsFor merged groups

theorem exists_concat_of_forall₂ {β γ : Type} {R : β → γ → Prop} {bs : List β} {b : β}
    {cs : List γ} (h : List.Forall₂ R (bs ++ [b]) cs) :
    ∃ front c, cs = front ++ [c] ∧ List.Forall₂ R bs front ∧ R b c := by
  induction bs generalizing cs with
  | nil =>
    cases h with
    | cons hb hnil =>
      cases hnil
      exact ⟨[], _, rfl, .nil, hb⟩
  | cons b' bs ih =>
    cases h with
    | cons hb htail =>
      obtain ⟨front, c, rfl, hfront, hc⟩ := ih htail
      exact ⟨_ :: front, c, rfl, .cons hb hfront, hc⟩

theorem Delta.standsFor_self (d : Delta α) : d.StandsFor [d] := by
  by_cases h : d.deltaType = .deleted
  · exact Or.inl ⟨h, rfl⟩
  · exact Or.inr ⟨h, by simpa using h, rfl⟩

theorem merges_nil : Merges ([] : List (Delta α)) [] := ⟨[], rfl, .nil⟩

theorem Merges.pushDelta {arrived merged : List (Delta α)} (h : Merges arrived merged)
    (d : Delta α) : Merges (arrived ++ [d]) (pushDelta merged d) := by
  obtain ⟨groups, rfl, hall⟩ := h
  have happend : Merges (groups.flatten ++ [d]) (merged ++ [d]) :=
    ⟨groups ++ [[d]], by simp, List.rel_append hall (.cons d.standsFor_self .nil)⟩
  rw [ControllerManager.pushDelta]
  split
  · exact happend
  next last hlast =>
    split
    next hmerge =>
      obtain ⟨front, rfl⟩ := List.getLast?_eq_some_iff.mp hlast
      obtain ⟨groups, group, rfl, hfront, hstands⟩ := exists_concat_of_forall₂ hall
      obtain ⟨-, hgroup, -⟩ := hstands.resolve_left fun hd => hmerge.1 hd.1
      refine ⟨groups ++ [group ++ [d]], by simp, ?_⟩
      rw [List.dropLast_concat]
      refine List.rel_append hfront (.cons (Or.inr ⟨?_, ?_, by simp⟩) .nil)
      · dsimp only
        split
        · decide
        · exact hmerge.1
      · intro g hg
        rcases List.mem_append.mp hg with hg | hg
        · exact hgroup g hg
        · exact List.mem_singleton.mp hg ▸ hmerge.2
    · exact happend

/-- The changes as the queue keeps them. -/
def merged (arrived : List (Delta α)) : List (Delta α) := arrived.foldl pushDelta []

@[simp]
theorem merged_concat (arrived : List (Delta α)) (d : Delta α) :
    merged (arrived ++ [d]) = pushDelta (merged arrived) d := by
  simp [merged]

theorem merges_merged (arrived : List (Delta α)) : Merges arrived (merged arrived) := by
  induction arrived using List.reverseRecOn with
  | nil => exact merges_nil
  | append_singleton arrived d ih =>
    rw [merged_concat]
    exact ih.pushDelta d

theorem outcome_pushDelta (start : Option α) (q : List (Delta α)) (d : Delta α) :
    outcome start (pushDelta q d) = d.outcome := by
  rw [pushDelta]
  split
  · exact outcome_concat start q d
  next last _ =>
    split
    next hmerge =>
      rw [outcome_concat, Delta.outcome, Delta.outcome, if_neg hmerge.2, if_neg]
      dsimp only
      split
      · decide
      · exact hmerge.1
    · exact outcome_concat start q d

theorem outcome_merged (start : Option α) (arrived : List (Delta α)) :
    outcome start (merged arrived) = outcome start arrived := by
  induction arrived using List.reverseRecOn with
  | nil => rfl
  | append_singleton arrived d _ => rw [merged_concat, outcome_pushDelta, outcome_concat]

theorem merged_ne_nil {arrived : List (Delta α)} (h : arrived ≠ []) : merged arrived ≠ [] := by
  induction arrived using List.reverseRecOn with
  | nil => exact absurd rfl h
  | append_singleton arrived d _ =>
    rw [merged_concat, pushDelta]
    split
    · simp
    · split <;> simp

/-! ## The account of the calls -/

variable [Object α]

def Delta.key (d : Delta α) : String := ControllerManager.key d.object

/-- The objects that the calls define, and the changes that have arrived and not been popped. -/
structure Account (α : Type) where
  wanted : BTreeMap String α := []
  arrivals : List (Delta α) := []

inductive InformerCall (α : Type)
  | add (o : α)
  | update (o : α)
  | delete (o : α)
  | replace (objects : List α)
  | pop

def insertAll (wanted : BTreeMap String α) (objects : List α) : BTreeMap String α :=
  objects.foldl (fun wanted o => BTreeMap.insert (key o) o wanted) wanted

/-- The deletions that a list of all objects implies. -/
def vanished (wanted : BTreeMap String α) (objects : List α) : BTreeMap String α :=
  wanted.filter fun e => !(objects.map key).contains e.1

/-- `replace` makes the objects all there are, the last one of a key winning.  `pop` takes all
changes of the key whose first change arrived first. -/
def Account.receive (a : Account α) : InformerCall α → Account α
  | .add o => ⟨a.wanted.insert (key o) o, a.arrivals ++ [⟨.added, o⟩]⟩
  | .update o => ⟨a.wanted.insert (key o) o, a.arrivals ++ [⟨.updated, o⟩]⟩
  | .delete o => ⟨a.wanted.remove (key o), a.arrivals ++ [⟨.deleted, o⟩]⟩
  | .replace objects => ⟨insertAll [] objects,
      a.arrivals ++ (vanished a.wanted objects).map (fun e => ⟨.deleted, e.2⟩) ++
        objects.map (⟨.sync, ·⟩)⟩
  | .pop =>
    match a.arrivals with
    | [] => a
    | first :: _ => { a with arrivals := a.arrivals.filter fun d => d.key ≠ first.key }

def account (calls : List (InformerCall α)) : Account α := calls.foldl Account.receive {}

structure Informer (α : Type) [Object α] where
  fifo : DeltaFifo α := {}
  store : Store α := .empty

/-- A popped change is applied at once. -/
def Informer.receive (s : Informer α) : InformerCall α → Informer α
  | .add o => { s with fifo := s.fifo.add o }
  | .update o => { s with fifo := s.fifo.update o }
  | .delete o => { s with fifo := s.fifo.delete o }
  | .replace objects => { s with fifo := s.fifo.replace objects }
  | .pop =>
    let (fifo, popped) := s.fifo.pop
    ⟨fifo, ((popped.map (·.2)).getD []).foldl applyDelta s.store⟩

def informer (calls : List (InformerCall α)) : Informer α := calls.foldl Informer.receive {}

/-! ## The queue holds the arrivals -/

def arrivalsOf (k : String) (arrivals : List (Delta α)) : List (Delta α) :=
  arrivals.filter fun d => d.key = k

/-- The keys of the changes, by their first change. -/
def firstKeys : List (Delta α) → List String
  | [] => []
  | d :: ds => d.key :: (firstKeys ds).filter (· ≠ d.key)

theorem mem_firstKeys {k : String} {ds : List (Delta α)} :
    k ∈ firstKeys ds ↔ arrivalsOf k ds ≠ [] := by
  induction ds with
  | nil => simp [firstKeys, arrivalsOf]
  | cons d ds ih =>
    rw [firstKeys, List.mem_cons, List.mem_filter, ih, arrivalsOf, arrivalsOf, List.filter_cons]
    by_cases hk : d.key = k
    · simp [hk]
    · simp [hk, Ne.symm hk]

theorem firstKeys_concat (ds : List (Delta α)) (d : Delta α) :
    firstKeys (ds ++ [d]) =
      if arrivalsOf d.key ds = [] then firstKeys ds ++ [d.key] else firstKeys ds := by
  induction ds with
  | nil => simp [firstKeys, arrivalsOf]
  | cons e ds ih =>
    rw [List.cons_append, firstKeys, ih, firstKeys]
    by_cases he : e.key = d.key
    · have hne : arrivalsOf d.key (e :: ds) ≠ [] := by simp [arrivalsOf, he]
      rw [if_neg hne]
      split
      · simp [he]
      · rfl
    · have heq : arrivalsOf d.key (e :: ds) = arrivalsOf d.key ds := by simp [arrivalsOf, he]
      rw [heq]
      split
      · simp [Ne.symm he]
      · rfl

theorem firstKeys_filter (ds : List (Delta α)) (k : String) :
    firstKeys (ds.filter fun d => d.key ≠ k) = (firstKeys ds).filter (· ≠ k) := by
  induction ds with
  | nil => rfl
  | cons d ds ih =>
    rw [List.filter_cons, firstKeys, List.filter_cons]
    by_cases hk : d.key = k
    · rw [if_neg (by simpa using hk), if_neg (by simpa using hk), ih, List.filter_filter]
      simp [hk]
    · rw [if_pos (by simpa using hk), if_pos (by simpa using hk), firstKeys, ih,
        List.filter_comm]

@[simp]
theorem arrivalsOf_append (k : String) (ds ds' : List (Delta α)) :
    arrivalsOf k (ds ++ ds') = arrivalsOf k ds ++ arrivalsOf k ds' := List.filter_append ..

/-- The queue has the arrivals of each key, merged, and the keys by their first arrival. -/
structure Holds (f : DeltaFifo α) (arrivals : List (Delta α)) : Prop where
  order : f.order = firstKeys arrivals
  queues : ∀ k, f.queues.lookup k =
    if arrivalsOf k arrivals = [] then none else some (merged (arrivalsOf k arrivals))

theorem Holds.enqueue {f : DeltaFifo α} {arrivals : List (Delta α)} (h : Holds f arrivals)
    (d : Delta α) : Holds (f.enqueue d.key d) (arrivals ++ [d]) := by
  have hself : arrivalsOf d.key [d] = [d] := by simp [arrivalsOf]
  have hother : ∀ k, k ≠ d.key → arrivalsOf k [d] = [] := by
    intro k hk
    simp [arrivalsOf, Ne.symm hk]
  have hlookup := h.queues d.key
  constructor
  · rw [firstKeys_concat, ← h.order, DeltaFifo.enqueue]
    by_cases hempty : arrivalsOf d.key arrivals = []
    · rw [if_pos hempty] at hlookup
      simp [hlookup, hempty]
    · rw [if_neg hempty] at hlookup
      simp [hlookup, hempty]
  · intro k
    rw [arrivalsOf_append]
    by_cases hk : k = d.key
    · subst hk
      rw [hself, if_neg (by simp), merged_concat, DeltaFifo.enqueue]
      by_cases hempty : arrivalsOf d.key arrivals = []
      · rw [if_pos hempty] at hlookup
        simp [hlookup, hempty, merged]
      · rw [if_neg hempty] at hlookup
        simp [hlookup]
    · rw [hother k hk, List.append_nil, ← h.queues k, DeltaFifo.enqueue]
      dsimp only
      rw [AList.lookup_insert_ne hk]
      split
      · exact AList.lookup_insert_ne hk
      · rfl

theorem mem_arrivalsOf {k : String} {ds : List (Delta α)} {d : Delta α} :
    d ∈ arrivalsOf k ds ↔ d ∈ ds ∧ d.key = k := by
  simp [arrivalsOf]

theorem arrivalsOf_filter_self (k : String) (ds : List (Delta α)) :
    arrivalsOf k (ds.filter fun d => d.key ≠ k) = [] := by
  rw [arrivalsOf, List.filter_filter]
  exact List.filter_eq_nil_iff.mpr fun d _ => by simp

theorem arrivalsOf_filter_ne {k j : String} (h : k ≠ j) (ds : List (Delta α)) :
    arrivalsOf k (ds.filter fun d => d.key ≠ j) = arrivalsOf k ds := by
  rw [arrivalsOf, List.filter_filter]
  refine List.filter_congr fun d _ => ?_
  by_cases hd : d.key = k
  · simp [hd, h]
  · simp [hd]

theorem Holds.pop {f : DeltaFifo α} {first : Delta α} {ds : List (Delta α)}
    (h : Holds f (first :: ds)) :
    ∃ f', f.pop = (f', some (first.key, merged (arrivalsOf first.key (first :: ds)))) ∧
      f'.known = f.known ∧ f'.lastKnown = f.lastKnown ∧
      Holds f' ((first :: ds).filter fun d => d.key ≠ first.key) := by
  have hne : arrivalsOf first.key (first :: ds) ≠ [] := by simp [arrivalsOf]
  have hlookup := h.queues first.key
  rw [if_neg hne] at hlookup
  obtain ⟨d, rest, hcons⟩ := List.exists_cons_of_ne_nil (merged_ne_nil hne)
  have hpop : DeltaFifo.popFrom f.queues f.order =
      (f.queues.erase first.key, (firstKeys ds).filter (· ≠ first.key),
        some (first.key, merged (arrivalsOf first.key (first :: ds)))) := by
    rw [h.order, firstKeys, DeltaFifo.popFrom, hlookup, hcons]
  refine ⟨{ f with
      queues := f.queues.erase first.key
      order := (firstKeys ds).filter (· ≠ first.key) },
    by simp only [DeltaFifo.pop, hpop], rfl, rfl, ?_, fun k => ?_⟩
  · rw [firstKeys_filter, firstKeys, List.filter_cons_of_neg (by simp), List.filter_filter]
    simp
  · by_cases hk : k = first.key
    · subst hk
      rw [arrivalsOf_filter_self, if_pos rfl]
      exact AList.lookup_erase _ _
    · rw [arrivalsOf_filter_ne hk, ← h.queues k]
      exact AList.lookup_erase_ne hk

theorem Holds.pop_nil {f : DeltaFifo α} (h : Holds f []) : f.pop = (f, none) := by
  have horder : f.order = [] := h.order
  simp only [DeltaFifo.pop, horder, DeltaFifo.popFrom]
  rw [← horder]

/-! ## The set of objects -/

theorem get_insertAll (objects : List α) (wanted : BTreeMap String α) (k : String) :
    BTreeMap.get k (insertAll wanted objects) =
      if k ∈ objects.map key then BTreeMap.get k (insertAll [] objects) else wanted.get k := by
  induction objects generalizing wanted with
  | nil => simp [insertAll]
  | cons o objects ih =>
    have hcons : ∀ m : BTreeMap String α, insertAll m (o :: objects) =
        insertAll (m.insert (key o) o) objects := fun _ => rfl
    rw [hcons, hcons, ih, ih (BTreeMap.insert (key o) o [])]
    by_cases hmem : k ∈ objects.map key
    · simp [hmem]
    · by_cases hk : k = key o
      · simp [hk]
      · simp [hmem, hk, BTreeMap.get_insert_ne]

theorem get_insertAll_of_not_mem {objects : List α} {k : String} (h : k ∉ objects.map key) :
    BTreeMap.get k (insertAll [] objects) = none := by
  rw [get_insertAll, if_neg h]
  rfl

theorem sorted_insertAll (objects : List α) {wanted : BTreeMap String α} (h : wanted.Sorted) :
    (insertAll wanted objects).Sorted := by
  induction objects generalizing wanted with
  | nil => exact h
  | cons o objects ih => exact ih (h.insert _ _)

/-- Each object of the set is filed under its own key. -/
def Keyed (wanted : BTreeMap String α) : Prop := ∀ k o, wanted.get k = some o → key o = k

theorem Keyed.insert {wanted : BTreeMap String α} (h : Keyed wanted) (o : α) :
    Keyed (wanted.insert (key o) o) := by
  intro k o' hget
  rw [BTreeMap.get_insert] at hget
  split at hget
  next hk => exact (congrArg key (Option.some.inj hget).symm).trans hk.symm
  next => exact h k o' hget

theorem keyed_insertAll (objects : List α) {wanted : BTreeMap String α} (h : Keyed wanted) :
    Keyed (insertAll wanted objects) := by
  induction objects generalizing wanted with
  | nil => exact h
  | cons o objects ih => exact ih (h.insert o)

omit [Object α] in
theorem map_fst_insert (k : String) (o : α) (wanted : BTreeMap String α) :
    (wanted.insert k o).map (·.1) = BTreeSet.insert k (wanted.map (·.1)) := by
  induction wanted with
  | nil => rfl
  | cons e wanted ih =>
    rw [BTreeMap.insert, List.map_cons, BTreeSet.insert]
    split
    · rfl
    · split
      next hk => rw [List.map_cons, hk]
      next => rw [List.map_cons, ih]

omit [Object α] in
theorem map_fst_remove (k : String) (wanted : BTreeMap String α) :
    (wanted.remove k).map (·.1) = BTreeSet.remove k (wanted.map (·.1)) := by
  rw [BTreeMap.remove, BTreeSet.remove, List.filter_map]
  rfl

theorem keySet_eq (objects : List α) :
    DeltaFifo.keySet objects = (insertAll [] objects).map (·.1) := by
  have hfold : ∀ (wanted : BTreeMap String α),
      objects.foldl (fun keys o => BTreeSet.insert (key o) keys) (wanted.map (·.1)) =
        (insertAll wanted objects).map (·.1) := by
    induction objects with
    | nil => exact fun _ => rfl
    | cons o objects ih =>
      intro wanted
      rw [List.foldl_cons, ← map_fst_insert, ih]
      rfl
  exact hfold []

theorem mem_keySet {objects : List α} {k : String} :
    k ∈ DeltaFifo.keySet objects ↔ k ∈ objects.map key := by
  have hfold : ∀ keys : BTreeSet String,
      k ∈ objects.foldl (fun keys o => BTreeSet.insert (key o) keys) keys ↔
        k ∈ objects.map key ∨ k ∈ keys := by
    induction objects with
    | nil => simp
    | cons o objects ih =>
      intro keys
      rw [List.foldl_cons, ih, BTreeSet.mem_insert, List.map_cons, List.mem_cons]
      tauto
  exact (hfold []).trans (or_iff_left List.not_mem_nil)

/-! ## A list of all objects -/

section Replace

variable {f : DeltaFifo α} {arrivals : List (Delta α)}

theorem Holds.foldl_vanish (gone : BTreeMap String α) (h : Holds f arrivals) (hsorted : gone.Sorted)
    (hkeyed : ∀ e ∈ gone, key e.2 = e.1) (hlast : ∀ e ∈ gone, f.lastKnown.lookup e.1 = some e.2) :
    Holds ((gone.map (·.1)).foldl DeltaFifo.vanish f)
        (arrivals ++ gone.map fun e => ⟨.deleted, e.2⟩) ∧
      ∀ k, ((gone.map (·.1)).foldl DeltaFifo.vanish f).lastKnown.lookup k =
        if k ∈ gone.map (·.1) then none else f.lastKnown.lookup k := by
  induction gone generalizing f arrivals with
  | nil => simpa using h
  | cons e gone ih =>
    obtain ⟨hhead, htail⟩ := List.pairwise_cons.mp hsorted
    have hvanish : f.vanish e.1 =
        ({ f with lastKnown := f.lastKnown.erase e.1 } : DeltaFifo α).enqueue e.1
          ⟨.deleted, e.2⟩ := by
      rw [DeltaFifo.vanish, hlast e List.mem_cons_self]
    have hlastKnown : ∀ k, (f.vanish e.1).lastKnown.lookup k =
        (f.lastKnown.erase e.1).lookup k := by
      intro k
      rw [hvanish, DeltaFifo.enqueue]
      dsimp only
      split <;> rfl
    have hholds : Holds (f.vanish e.1) (arrivals ++ [⟨.deleted, e.2⟩]) := by
      have hstart : Holds { f with lastKnown := f.lastKnown.erase e.1 } arrivals :=
        ⟨h.order, h.queues⟩
      have := hstart.enqueue ⟨.deleted, e.2⟩
      rw [hvanish]
      rwa [Delta.key, hkeyed e List.mem_cons_self] at this
    obtain ⟨hrest, hlookup⟩ := ih hholds htail
      (fun e' he' => hkeyed e' (List.mem_cons_of_mem _ he')) fun e' he' => by
        rw [hlastKnown, AList.lookup_erase_ne (ne_of_gt (hhead e' he'))]
        exact hlast e' (List.mem_cons_of_mem _ he')
    refine ⟨by simpa using hrest, fun k => ?_⟩
    rw [List.map_cons, List.foldl_cons, hlookup, hlastKnown]
    by_cases hmem : k ∈ gone.map (·.1)
    · rw [if_pos hmem, if_pos (List.mem_cons_of_mem _ hmem)]
    · rw [if_neg hmem]
      by_cases hk : k = e.1
      · rw [if_pos (hk ▸ List.mem_cons_self), hk, AList.lookup_erase]
      · rw [if_neg (fun h => (List.mem_cons.mp h).elim hk hmem), AList.lookup_erase_ne hk]

theorem Holds.foldl_sync (objects : List α) (h : Holds f arrivals) :
    Holds (objects.foldl DeltaFifo.syncObject f) (arrivals ++ objects.map (⟨.sync, ·⟩)) ∧
      ∀ k, (objects.foldl DeltaFifo.syncObject f).lastKnown.lookup k =
        if k ∈ objects.map key then BTreeMap.get k (insertAll [] objects)
        else f.lastKnown.lookup k := by
  induction objects generalizing f arrivals with
  | nil => simpa using h
  | cons o objects ih =>
    have hstart : Holds { f with lastKnown := f.lastKnown.insert (key o) o } arrivals :=
      ⟨h.order, h.queues⟩
    have hlastKnown : ∀ k, (f.syncObject o).lastKnown.lookup k =
        (f.lastKnown.insert (key o) o).lookup k := by
      intro k
      rw [DeltaFifo.syncObject, DeltaFifo.enqueue]
      dsimp only
      split <;> rfl
    have hholds : Holds (f.syncObject o) (arrivals ++ [⟨.sync, o⟩]) := hstart.enqueue ⟨.sync, o⟩
    obtain ⟨hrest, hlookup⟩ := ih hholds
    refine ⟨by simpa using hrest, fun k => ?_⟩
    have hwanted : insertAll [] (o :: objects) = insertAll (BTreeMap.insert (key o) o []) objects :=
      rfl
    rw [List.foldl_cons, hlookup, hlastKnown, hwanted,
      get_insertAll objects (BTreeMap.insert (key o) o []), List.map_cons]
    by_cases hmem : k ∈ objects.map key
    · rw [if_pos hmem, if_pos (List.mem_cons_of_mem _ hmem), if_pos hmem]
    · rw [if_neg hmem, if_neg hmem]
      by_cases hk : k = key o
      · rw [if_pos (hk ▸ List.mem_cons_self), hk, AList.lookup_insert, BTreeMap.get_insert_self]
      · rw [if_neg (fun h => (List.mem_cons.mp h).elim hk hmem), AList.lookup_insert_ne hk]

end Replace

theorem outcome_deleted (start : Option α) (k : String) (gone : BTreeMap String α)
    (hkeyed : ∀ e ∈ gone, key e.2 = e.1) :
    outcome start (arrivalsOf k (gone.map fun e => ⟨.deleted, e.2⟩)) =
      if k ∈ gone.map (·.1) then none else start := by
  induction gone generalizing start with
  | nil => rfl
  | cons e gone ih =>
    have htail := fun start => ih start fun e' he' => hkeyed e' (List.mem_cons_of_mem _ he')
    have hkey : (⟨.deleted, e.2⟩ : Delta α).key = e.1 := hkeyed e List.mem_cons_self
    rw [List.map_cons, arrivalsOf, List.filter_cons, hkey]
    by_cases hk : e.1 = k
    · rw [if_pos (by simpa using hk), if_pos (hk ▸ List.mem_cons_self)]
      refine (htail none).trans ?_
      split <;> rfl
    · rw [if_neg (by simpa using hk)]
      refine (htail start).trans ?_
      simp only [List.map_cons, List.mem_cons, Ne.symm hk, false_or]

theorem outcome_sync (start : Option α) (k : String) (objects : List α) :
    outcome start (arrivalsOf k (objects.map (⟨.sync, ·⟩))) =
      if k ∈ objects.map key then BTreeMap.get k (insertAll [] objects) else start := by
  induction objects generalizing start with
  | nil => rfl
  | cons o objects ih =>
    have hkey : (⟨.sync, o⟩ : Delta α).key = key o := rfl
    have hwanted : insertAll [] (o :: objects) = insertAll (BTreeMap.insert (key o) o []) objects :=
      rfl
    rw [List.map_cons, arrivalsOf, List.filter_cons, hkey, hwanted,
      get_insertAll objects (BTreeMap.insert (key o) o [])]
    by_cases hk : key o = k
    · rw [if_pos (by simpa using hk)]
      refine (ih (some o)).trans ?_
      by_cases hmem : k ∈ objects.map key
      · simp [hmem]
      · simp [hmem, hk]
    · rw [if_neg (by simpa using hk)]
      refine (ih start).trans ?_
      by_cases hmem : k ∈ objects.map key
      · simp [hmem]
      · simp [hmem, Ne.symm hk]

/-! ## Runs -/

/-- The informer and the account of its calls. -/
structure Agrees (s : Informer α) (a : Account α) : Prop where
  sorted : a.wanted.Sorted
  keyed : Keyed a.wanted
  known : s.fifo.known = a.wanted.map (·.1)
  lastKnown : ∀ k, s.fifo.lastKnown.lookup k = a.wanted.get k
  holds : Holds s.fifo a.arrivals
  store : ∀ k, outcome (s.store.get k) (arrivalsOf k a.arrivals) = a.wanted.get k

variable {s : Informer α} {a : Account α}

theorem agrees_empty : Agrees ({} : Informer α) {} where
  sorted := BTreeMap.sorted_nil
  keyed _ _ h := by cases h
  known := rfl
  lastKnown _ := rfl
  holds := ⟨rfl, fun _ => rfl⟩
  store _ := rfl

theorem outcome_arrival (start : Option α) (arrivals : List (Delta α)) (d : Delta α) (k : String) :
    outcome start (arrivalsOf k (arrivals ++ [d])) =
      if k = d.key then d.outcome else outcome start (arrivalsOf k arrivals) := by
  rw [arrivalsOf_append]
  split
  next hk =>
    have hself : arrivalsOf k [d] = [d] := by simp [arrivalsOf, hk]
    rw [hself, outcome_concat]
  next hk =>
    have hother : arrivalsOf k [d] = [] := by simp [arrivalsOf, Ne.symm hk]
    rw [hother, List.append_nil]

omit [Object α] in
theorem enqueue_known (f : DeltaFifo α) (k : String) (d : Delta α) :
    (f.enqueue k d).known = f.known := by
  rw [DeltaFifo.enqueue]
  dsimp only
  split <;> rfl

omit [Object α] in
theorem enqueue_lastKnown (f : DeltaFifo α) (k : String) (d : Delta α) :
    (f.enqueue k d).lastKnown = f.lastKnown := by
  rw [DeltaFifo.enqueue]
  dsimp only
  split <;> rfl

theorem Agrees.observe (h : Agrees s a) (deltaType : DeltaType) (htype : deltaType ≠ .deleted)
    (o : α) :
    Agrees { s with fifo := s.fifo.observe deltaType o }
      ⟨a.wanted.insert (key o) o, a.arrivals ++ [⟨deltaType, o⟩]⟩ where
  sorted := h.sorted.insert _ _
  keyed := h.keyed.insert o
  known := by
    rw [DeltaFifo.observe, enqueue_known, map_fst_insert, h.known]
  lastKnown k := by
    rw [DeltaFifo.observe, enqueue_lastKnown, BTreeMap.get_insert]
    split
    next hk => rw [hk, AList.lookup_insert]
    next hk => rw [AList.lookup_insert_ne hk, h.lastKnown]
  holds := by
    have hstart : Holds { s.fifo with
        known := BTreeSet.insert (key o) s.fifo.known
        lastKnown := s.fifo.lastKnown.insert (key o) o } a.arrivals := ⟨h.holds.order, h.holds.queues⟩
    exact hstart.enqueue ⟨deltaType, o⟩
  store k := by
    rw [outcome_arrival, h.store, BTreeMap.get_insert, Delta.outcome, if_neg htype]
    rfl

theorem Agrees.delete (h : Agrees s a) (o : α) :
    Agrees { s with fifo := s.fifo.delete o }
      ⟨a.wanted.remove (key o), a.arrivals ++ [⟨.deleted, o⟩]⟩ where
  sorted := h.sorted.remove _
  keyed k o' hget := by
    rw [BTreeMap.get_remove] at hget
    split at hget
    · cases hget
    · exact h.keyed k o' hget
  known := by
    rw [DeltaFifo.delete, enqueue_known, map_fst_remove, h.known]
  lastKnown k := by
    rw [DeltaFifo.delete, enqueue_lastKnown, BTreeMap.get_remove]
    split
    next hk => rw [hk, AList.lookup_erase]
    next hk => rw [AList.lookup_erase_ne hk, h.lastKnown]
  holds := by
    have hstart : Holds { s.fifo with
        known := BTreeSet.remove (key o) s.fifo.known
        lastKnown := s.fifo.lastKnown.erase (key o) } a.arrivals := ⟨h.holds.order, h.holds.queues⟩
    exact hstart.enqueue ⟨.deleted, o⟩
  store k := by
    rw [outcome_arrival, h.store, BTreeMap.get_remove]
    rfl

theorem Agrees.replace (h : Agrees s a) (objects : List α) :
    Agrees { s with fifo := s.fifo.replace objects } (a.receive (.replace objects)) := by
  have hkeyed : ∀ e ∈ vanished a.wanted objects, key e.2 = e.1 := fun e he =>
    h.keyed e.1 e.2 (h.sorted.mem_iff.mp (List.mem_filter.mp he).1)
  have hsorted : (vanished a.wanted objects).Sorted := List.Pairwise.filter _ h.sorted
  have hgone : ∀ k, k ∈ (vanished a.wanted objects).map (·.1) ↔
      (a.wanted.get k).isSome ∧ k ∉ objects.map key := by
    intro k
    rw [List.mem_map, Option.isSome_iff_exists]
    constructor
    · rintro ⟨⟨k, o⟩, he, rfl⟩
      obtain ⟨hmem, hnot⟩ := List.mem_filter.mp he
      exact ⟨⟨o, h.sorted.mem_iff.mp hmem⟩, by simpa using hnot⟩
    · rintro ⟨⟨o, ho⟩, hnot⟩
      exact ⟨(k, o), List.mem_filter.mpr ⟨h.sorted.mem_iff.mpr ho, by simpa using hnot⟩, rfl⟩
  have hkeys : s.fifo.known.filter (fun k => !(DeltaFifo.keySet objects).contains k) =
      (vanished a.wanted objects).map (·.1) := by
    rw [h.known, List.filter_map, vanished]
    refine congrArg _ (List.filter_congr fun e _ => ?_)
    simp only [Function.comp_apply, List.contains_eq_mem, mem_keySet]
  have hdeleted := h.holds.foldl_vanish _ hsorted hkeyed fun e he => by
    rw [h.lastKnown]
    exact h.sorted.mem_iff.mp (List.mem_filter.mp he).1
  have hsync := hdeleted.1.foldl_sync objects
  refine ⟨sorted_insertAll objects BTreeMap.sorted_nil, keyed_insertAll objects (by simp [Keyed]),
    keySet_eq objects, fun k => ?_, ?_, fun k => ?_⟩
  · simp only [DeltaFifo.replace, hkeys]
    refine (hsync.2 k).trans ?_
    split
    · rfl
    next hk =>
      refine (hdeleted.2 k).trans (Eq.trans ?_ (get_insertAll_of_not_mem hk).symm)
      split
      · rfl
      next hnot =>
        rw [h.lastKnown]
        by_contra hne
        exact hnot ((hgone k).mpr ⟨Option.isSome_iff_ne_none.mpr hne, hk⟩)
  · rw [DeltaFifo.replace]
    dsimp only
    rw [hkeys]
    exact ⟨hsync.1.order, hsync.1.queues⟩
  · rw [Account.receive, arrivalsOf_append, arrivalsOf_append, outcome_append, outcome_append,
      h.store, outcome_deleted _ _ _ hkeyed, outcome_sync]
    split
    · rfl
    next hk =>
      rw [get_insertAll_of_not_mem hk]
      split
      · rfl
      next hnot =>
        by_contra hne
        exact hnot ((hgone k).mpr ⟨Option.isSome_iff_ne_none.mpr hne, hk⟩)

theorem get_foldl_applyDelta (k : String) (deltas : List (Delta α))
    (hkey : ∀ d ∈ deltas, d.key = k) (store : Store α) (j : String) :
    (deltas.foldl applyDelta store).get j =
      if j = k then outcome (store.get j) deltas else store.get j := by
  induction deltas generalizing store with
  | nil => simp [outcome]
  | cons d deltas ih =>
    have hd : key d.object = k := hkey d List.mem_cons_self
    rw [List.foldl_cons, ih fun d' hd' => hkey d' (List.mem_cons_of_mem _ hd')]
    have happly : (applyDelta store d).get j = if j = k then d.outcome else store.get j := by
      rw [applyDelta, Delta.outcome]
      cases d.deltaType <;> simp [hd]
    rw [happly]
    split
    · rfl
    · rfl

theorem key_of_mem_merged {k : String} {arrived : List (Delta α)} (h : ∀ d ∈ arrived, d.key = k) :
    ∀ d ∈ merged arrived, d.key = k := by
  induction arrived using List.reverseRecOn with
  | nil => simp [merged]
  | append_singleton arrived e ih =>
    have hfront := ih fun d hd => h d (List.mem_append_left _ hd)
    have he : e.key = k := h e (by simp)
    rw [merged_concat, pushDelta]
    have happend : ∀ d ∈ merged arrived ++ [e], d.key = k := by
      intro d hd
      rcases List.mem_append.mp hd with hd | hd
      · exact hfront d hd
      · exact List.mem_singleton.mp hd ▸ he
    split
    · exact happend
    · split
      · intro d hd
        rcases List.mem_append.mp hd with hd | hd
        · exact hfront d (List.dropLast_subset _ hd)
        · exact List.mem_singleton.mp hd ▸ he
      · exact happend

theorem Agrees.pop (h : Agrees s a) : Agrees (s.receive .pop) (a.receive .pop) := by
  cases harrivals : a.arrivals with
  | nil =>
    have hpop := Holds.pop_nil (harrivals ▸ h.holds)
    rw [Informer.receive, Account.receive, harrivals]
    dsimp only
    rw [hpop]
    exact h
  | cons first ds =>
    obtain ⟨f', hpop, hknown, hlast, hholds⟩ := Holds.pop (harrivals ▸ h.holds)
    rw [Informer.receive, Account.receive, harrivals]
    dsimp only
    rw [hpop]
    refine ⟨h.sorted, h.keyed, hknown.trans h.known, fun k => hlast ▸ h.lastKnown k, hholds,
      fun k => ?_⟩
    have hkeys : ∀ d ∈ merged (arrivalsOf first.key (first :: ds)), d.key = first.key :=
      key_of_mem_merged fun d hd => (mem_arrivalsOf.mp hd).2
    have hstore := h.store k
    rw [harrivals] at hstore
    dsimp only [Option.map_some, Option.getD_some]
    rw [get_foldl_applyDelta first.key _ hkeys, outcome_merged]
    by_cases hk : k = first.key
    · subst hk
      rw [arrivalsOf_filter_self, if_pos rfl]
      exact hstore
    · rw [arrivalsOf_filter_ne hk, if_neg hk]
      exact hstore

theorem Agrees.receive (h : Agrees s a) (call : InformerCall α) :
    Agrees (s.receive call) (a.receive call) := by
  cases call with
  | add o => exact h.observe .added (by decide) o
  | update o => exact h.observe .updated (by decide) o
  | delete o => exact h.delete o
  | replace objects => exact h.replace objects
  | pop => exact h.pop

theorem agrees_run (calls : List (InformerCall α)) : Agrees (informer calls) (account calls) := by
  induction calls using List.reverseRecOn with
  | nil => exact agrees_empty
  | append_singleton calls call ih =>
    rw [informer, account, List.foldl_concat, List.foldl_concat]
    exact ih.receive call

/-- For every run: once the queue is drained the store holds exactly the objects that the calls
define; and a pop returns, merged and in the order of their arrival, the changes of the key whose
first change has waited longest. -/
theorem informer_converges (calls : List (InformerCall α)) :
    ((informer calls).fifo.isEmpty →
      ∀ k, (informer calls).store.get k = (account calls).wanted.get k) ∧
    match (informer calls).fifo.pop.2 with
    | none => (account calls).arrivals = []
    | some (k, deltas) => deltas ≠ [] ∧ (∀ d ∈ deltas, key d.object = k) ∧
      (account calls).arrivals.head?.map (fun d => key d.object) = some k ∧
      Merges ((account calls).arrivals.filter fun d => key d.object = k) deltas := by
  have h := agrees_run calls
  constructor
  · intro hempty k
    have hnil : firstKeys (account calls).arrivals = [] := by
      rw [← h.holds.order]
      exact List.isEmpty_iff.mp hempty
    have hnone : arrivalsOf k (account calls).arrivals = [] := by
      by_contra hne
      have := mem_firstKeys.mpr hne
      rw [hnil] at this
      exact List.not_mem_nil this
    have hstore := h.store k
    rwa [hnone] at hstore
  · cases harrivals : (account calls).arrivals with
    | nil => rw [Holds.pop_nil (harrivals ▸ h.holds)]
    | cons first ds =>
      obtain ⟨f', hpop, -⟩ := Holds.pop (harrivals ▸ h.holds)
      rw [hpop]
      refine ⟨merged_ne_nil (by simp [arrivalsOf]), ?_, rfl, merges_merged _⟩
      exact key_of_mem_merged fun d hd => (mem_arrivalsOf.mp hd).2

end CaveHome.ControllerManager
