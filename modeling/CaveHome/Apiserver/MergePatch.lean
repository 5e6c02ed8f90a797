import CaveHome.Apiserver.Meta
import CaveHome.Apiserver.Types

/-!
# Patches

A merge patch is a value that is merged into the document; a JSON patch is a list of operations on
places in it.
-/

namespace CaveHome.Apiserver

variable {ν : Type}

mutual

/-- Objects are merged, and whatever else is in the patch replaces the target. -/
def applyMergePatch (target : Value ν) : Value ν → Value ν
  | .object patch => .object (mergeMembers target.members patch)
  | .null => .null
  | .bool b => .bool b
  | .number n => .number n
  | .string s => .string s
  | .array items => .array items

/-- A null takes the member out. -/
def mergeMembers (out : BTreeMap String (Value ν)) :
    List (String × Value ν) → BTreeMap String (Value ν)
  | [] => out
  | (k, v) :: patch =>
    mergeMembers
      (if v.isNull then BTreeMap.remove k out
        else BTreeMap.insert k (applyMergePatch ((BTreeMap.get k out).getD .null) v) out)
      patch

end

/-! ## JSON patches -/

inductive PatchOp (ν : Type)
  | add (path : String) (value : Value ν)
  | remove (path : String)
  | replace (path : String) (value : Value ν)
  | test (path : String) (value : Value ν)

def opFromJson (item : Value ν) : Except Status (PatchOp ν) := do
  let some op := (item.get "op").bind Value.asStr
    | .error (.badRequest "JSON Patch operation missing \"op\"")
  let some path := (item.get "path").bind Value.asStr
    | .error (.badRequest "JSON Patch operation missing \"path\"")
  let valueOf : Except Status (Value ν) :=
    match item.get "value" with
    | some value => .ok value
    | none => .error (.badRequest ("JSON Patch " ++ Text.debug op ++ " op requires \"value\""))
  if op = "add" then return .add path (← valueOf)
  else if op = "replace" then return .replace path (← valueOf)
  else if op = "test" then return .test path (← valueOf)
  else if op = "remove" then return .remove path
  else .error (.badRequest ("unknown JSON Patch op " ++ Text.debug op))

def opsFromJson (value : Value ν) : Except Status (List (PatchOp ν)) :=
  match value.asArray with
  | none => .error (.badRequest "JSON Patch body must be a JSON array")
  | some items => items.mapM opFromJson

/-- The tokens of a pointer, with their escapes resolved. -/
def parsePointer (path : String) : Except Status (List String) :=
  match path.toList with
  | [] => .ok []
  | '/' :: rest =>
    .ok ((rest.splitOn '/').map fun t =>
      String.ofList (Text.replacePair '~' '0' '~' (Text.replacePair '~' '1' '/' t)))
  | _ => .error (.invalid ("JSON pointer must start with '/': " ++ Text.debug path))

/-- The child of a container. -/
def descend (cur : Value ν) (token : String) : Option (Value ν) :=
  match cur with
  | .object m => BTreeMap.get token m
  | .array a => (Text.parseU64 token).bind fun i => a[i]?
  | _ => none

/-- Put another value for the child of a container. -/
def putChild (cur : Value ν) (token : String) (child : Value ν) : Value ν :=
  match cur with
  | .object m => .object (BTreeMap.insert token child m)
  | .array a => .array (((Text.parseU64 token).map fun i => a.set i child).getD a)
  | cur => cur

def resolve (doc : Value ν) (path : String) : Option (Value ν) := do
  let tokens ← (parsePointer path).toOption
  tokens.foldlM descend doc

/-- Change the value that the tokens lead to. -/
def modifyAt (path : String) (change : Value ν → Except Status (Value ν)) :
    List String → Value ν → Except Status (Value ν)
  | [], cur => change cur
  | t :: parents, cur => do
    match descend cur t with
    | some child => return putChild cur t (← modifyAt path change parents child)
    | none =>
      .error (.invalid ("path segment " ++ Text.debug t ++ " not found in " ++ Text.debug path))

def badIndex (token : String) : Status := .invalid ("bad array index " ++ Text.debug token)

def setLeaf (path last : String) (value : Value ν) (allowCreate : Bool) :
    Value ν → Except Status (Value ν)
  | .object m =>
    if !allowCreate && (BTreeMap.get last m).isNone then
      .error (.invalid ("replace target " ++ Text.debug path ++ " does not exist"))
    else .ok (.object (BTreeMap.insert last value m))
  | .array a =>
    if last = "-" then
      if allowCreate then .ok (.array (a ++ [value]))
      else .error (.invalid ("cannot replace at append index " ++ Text.debug path))
    else
      match Text.parseU64 last with
      | none => .error (badIndex last)
      | some i =>
        if allowCreate then
          if a.length < i then .error (.invalid ("array index " ++ toString i ++ " out of bounds"))
          else .ok (.array (a.insertIdx i value))
        else if i < a.length then .ok (.array (a.set i value))
        else .error (.invalid ("replace index " ++ toString i ++ " out of bounds"))
  | _ => .error (.invalid ("cannot set on non-container at " ++ Text.debug path))

def setAt (doc : Value ν) (path : String) (value : Value ν) (allowCreate : Bool) :
    Except Status (Value ν) := do
  let tokens ← parsePointer path
  match tokens.getLast? with
  | none => return value
  | some last => modifyAt path (setLeaf path last value allowCreate) tokens.dropLast doc

def removeLeaf (path last : String) : Value ν → Except Status (Value ν)
  | .object m =>
    if (BTreeMap.get last m).isNone then
      .error (.invalid ("remove target " ++ Text.debug path ++ " does not exist"))
    else .ok (.object (BTreeMap.remove last m))
  | .array a =>
    match Text.parseU64 last with
    | none => .error (badIndex last)
    | some i =>
      if a.length ≤ i then .error (.invalid ("remove index " ++ toString i ++ " out of bounds"))
      else .ok (.array (a.eraseIdx i))
  | _ => .error (.invalid ("cannot remove from non-container at " ++ Text.debug path))

def removeAt (doc : Value ν) (path : String) : Except Status (Value ν) := do
  let tokens ← parsePointer path
  match tokens.getLast? with
  | none => .error (.invalid "cannot remove whole document")
  | some last => modifyAt path (removeLeaf path last) tokens.dropLast doc

def applyOp [Float64 ν] (doc : Value ν) : PatchOp ν → Except Status (Value ν)
  | .add path value => setAt doc path value true
  | .replace path value => setAt doc path value false
  | .remove path => removeAt doc path
  | .test path value =>
    match resolve doc path with
    | none => .error (.invalid ("test path " ++ Text.debug path ++ " not found"))
    | some actual =>
      if actual != value then .error (.invalid ("test failed at " ++ Text.debug path)) else .ok doc

/-- The operations run one after another, up to the first that cannot be applied. -/
def applyJsonPatch [Float64 ν] (target : Value ν) (ops : List (PatchOp ν)) : Except Status (Value ν) :=
  ops.foldlM applyOp target

end CaveHome.Apiserver

/-!
## Laws of merge patches

A merge patch does the same when it is applied again, leaves alone what it does not mention, and can
make any value without null members of any other.
-/

namespace CaveHome.Apiserver

variable {ν : Type}

/-! ## Objects are maps -/

namespace Value

mutual

/-- The members of every object in the value are in the order of their names. -/
def Ordered : Value ν → Prop
  | .array items => OrderedItems items
  | .object members => BTreeMap.Sorted members ∧ OrderedMembers members
  | _ => True

def OrderedItems : List (Value ν) → Prop
  | [] => True
  | v :: vs => Ordered v ∧ OrderedItems vs

def OrderedMembers : List (String × Value ν) → Prop
  | [] => True
  | (_, v) :: ms => Ordered v ∧ OrderedMembers ms

end

theorem orderedMembers_iff {ms : List (String × Value ν)} :
    OrderedMembers ms ↔ ∀ m ∈ ms, m.2.Ordered := by
  induction ms with
  | nil => simp [OrderedMembers]
  | cons m ms ih => rw [OrderedMembers, List.forall_mem_cons, ih]

theorem ordered_null : (null : Value ν).Ordered := trivial

theorem Ordered.sorted_members {v : Value ν} (h : v.Ordered) : BTreeMap.Sorted v.members := by
  cases v with
  | object ms => exact h.1
  | _ => exact BTreeMap.sorted_nil

theorem Ordered.of_get {v w : Value ν} {k : String} (h : v.Ordered)
    (hget : BTreeMap.get k v.members = some w) : w.Ordered := by
  cases v with
  | object ms => exact orderedMembers_iff.mp h.2 (k, w) (h.1.mem_iff.mpr hget)
  | _ => cases hget

theorem Ordered.getD {v : Value ν} (h : v.Ordered) (k : String) :
    ((BTreeMap.get k v.members).getD .null).Ordered := by
  cases hget : BTreeMap.get k v.members with
  | none => exact ordered_null
  | some w => exact h.of_get hget

mutual

@[elab_as_elim]
theorem objectInduction {motive : Value ν → Prop}
    (object : ∀ ms, (∀ m ∈ ms, motive m.2) → motive (.object ms))
    (other : ∀ v : Value ν, v.asObject = none → motive v) : ∀ v, motive v
  | .object ms => object ms (membersInduction object other ms)
  | .null | .bool _ | .number _ | .string _ | .array _ => other _ rfl

theorem membersInduction {motive : Value ν → Prop}
    (object : ∀ ms, (∀ m ∈ ms, motive m.2) → motive (.object ms))
    (other : ∀ v : Value ν, v.asObject = none → motive v) :
    ∀ ms : List (String × Value ν), ∀ m ∈ ms, motive m.2
  | [], _, hmem => absurd hmem List.not_mem_nil
  | (_, v) :: ms, m, hmem => by
    obtain heq | hmem := List.mem_cons.mp hmem
    · rw [heq]
      exact objectInduction object other v
    · exact membersInduction object other ms m hmem

end

end Value

/-! ## What a patch does to one member -/

section Merge

variable {out patch ts us : BTreeMap String (Value ν)} {t p u : Value ν} {k : String}

theorem sorted_mergeMembers (h : out.Sorted) (patch : List (String × Value ν)) :
    BTreeMap.Sorted (mergeMembers out patch) := by
  induction patch generalizing out with
  | nil => rwa [mergeMembers]
  | cons m patch ih =>
    rw [mergeMembers]
    split
    · exact ih (h.remove _)
    · exact ih (h.insert _ _)

/-- What is left of a member and what the patch says about it. -/
def mergedMember (old : Option (Value ν)) : Option (Value ν) → Option (Value ν)
  | none => old
  | some v => if v.isNull then none else some (applyMergePatch (old.getD .null) v)

theorem get_mergeMembers (h : patch.Sorted) (out : BTreeMap String (Value ν)) (k : String) :
    BTreeMap.get k (mergeMembers out patch) =
      mergedMember (BTreeMap.get k out) (BTreeMap.get k patch) := by
  induction patch generalizing out with
  | nil => rw [mergeMembers, BTreeMap.get_nil, mergedMember]
  | cons m patch ih =>
    obtain ⟨key, v⟩ := m
    obtain ⟨hhead, htail⟩ := List.pairwise_cons.mp h
    rw [mergeMembers, ih htail, BTreeMap.get]
    by_cases hk : k = key
    · subst hk
      have hnone : BTreeMap.get k patch = none :=
        BTreeMap.get_eq_none_iff.mpr fun e he => (hhead e he).ne'
      rw [hnone, if_pos rfl, mergedMember, mergedMember]
      split
      · rw [BTreeMap.get_remove, if_pos rfl]
      · rw [BTreeMap.get_insert_self]
    · have hsame : ∀ w : Value ν, BTreeMap.get k (if v.isNull then BTreeMap.remove key out
          else BTreeMap.insert key w out) = BTreeMap.get k out := by
        intro w
        split
        · exact BTreeMap.get_remove_ne hk out
        · exact BTreeMap.get_insert_ne hk w out
      rw [if_neg hk, hsame]

theorem members_merge (t : Value ν) (patch : List (String × Value ν)) :
    (applyMergePatch t (.object patch)).members = mergeMembers t.members patch := by
  rw [applyMergePatch, Value.members]

theorem merge_of_not_object (t : Value ν) (h : p.asObject = none) : applyMergePatch t p = p := by
  cases p with
  | object => cases h
  | _ => rw [applyMergePatch]

theorem applyMergePatch_twice (hp : p.Ordered) (ht : t.Ordered) :
    applyMergePatch (applyMergePatch t p) p = applyMergePatch t p := by
  induction p using Value.objectInduction generalizing t with
  | other p hnone => rw [merge_of_not_object _ hnone, merge_of_not_object _ hnone]
  | object patch ih =>
    rw [applyMergePatch, members_merge, applyMergePatch]
    have hsorted := sorted_mergeMembers ht.sorted_members patch
    refine congrArg Value.object ((sorted_mergeMembers hsorted patch).ext hsorted fun k => ?_)
    rw [get_mergeMembers hp.1, get_mergeMembers hp.1]
    cases hget : BTreeMap.get k patch with
    | none => rfl
    | some v =>
      have hmem := hp.1.mem_iff.mpr hget
      have htwice := ih (k, v) hmem (Value.orderedMembers_iff.mp hp.2 _ hmem) (ht.getD k)
      rw [mergedMember, mergedMember]
      split
      · rfl
      · rw [Option.getD_some, htwice]

/-- The member of a member of ... a value. -/
def Value.memberAt (v : Value ν) : List String → Option (Value ν)
  | [] => some v
  | k :: ks => (v.get k).bind fun w => w.memberAt ks

/-- A patch does not mention a place if one of the objects on the way has no member there. -/
def Spares (p : Value ν) : List String → Prop
  | [] => False
  | k :: ks => p.asObject.isSome = true ∧ ∀ v ∈ p.get k, Spares v ks

theorem memberAt_merge {ks : List String} (hp : p.Ordered) (h : Spares p ks) :
    (applyMergePatch t p).memberAt ks = t.memberAt ks := by
  induction ks generalizing t p with
  | nil => exact h.elim
  | cons k ks ih =>
    obtain ⟨hobject, hmembers⟩ := h
    cases p with
    | object patch =>
      rw [Value.memberAt, Value.memberAt, ← get_members, members_merge, get_mergeMembers hp.1,
        ← get_members]
      cases hget : BTreeMap.get k patch with
      | none => rfl
      | some v =>
        have hspares := hmembers v hget
        have hold := ih (t := (BTreeMap.get k t.members).getD .null) (hp.of_get hget) hspares
        cases ks with
        | nil => exact hspares.elim
        | cons k' ks =>
          have hnull : v.isNull = false := by
            have hobject := hspares.1
            cases v with
            | null => cases hobject
            | _ => rfl
          rw [mergedMember, hnull, if_neg Bool.false_ne_true, Option.bind_some, hold]
          cases BTreeMap.get k t.members with
          | none => rfl
          | some w => rfl
    | _ => cases hobject

/-! ## The difference of two values -/

/-- The removal of the members that the other object does not have. -/
def removals (ts us : BTreeMap String (Value ν)) : BTreeMap String (Value ν) :=
  (ts.filter fun m => (BTreeMap.get m.1 us).isNone).map fun m => (m.1, .null)

open Classical in
mutual

/-- The patch that makes one value of another: what is not there any more is removed, what is not
the same is made the same. -/
noncomputable def mergeDiff (t : Value ν) : Value ν → Value ν
  | .object us => .object (diffMembers t.members (removals t.members us) us)
  | .null => .null
  | .bool b => .bool b
  | .number n => .number n
  | .string s => .string s
  | .array items => .array items

noncomputable def diffMembers (ts p : BTreeMap String (Value ν)) :
    List (String × Value ν) → BTreeMap String (Value ν)
  | [] => p
  | (k, u) :: us =>
    diffMembers ts
      (if BTreeMap.get k ts = some u then p
        else BTreeMap.insert k (mergeDiff ((BTreeMap.get k ts).getD .null) u) p) us

end

theorem sorted_removals (h : ts.Sorted) (us : BTreeMap String (Value ν)) :
    BTreeMap.Sorted (removals ts us) :=
  List.pairwise_map.mpr (List.Pairwise.filter _ h)

theorem get_removals (ts us : BTreeMap String (Value ν)) (k : String) :
    BTreeMap.get k (removals ts us) =
      if (BTreeMap.get k ts).isSome ∧ BTreeMap.get k us = none then some .null else none := by
  induction ts with
  | nil => rfl
  | cons m ts ih =>
    obtain ⟨key, v⟩ := m
    rw [removals] at ih ⊢
    rw [BTreeMap.get, List.filter_cons]
    by_cases hk : k = key
    · subst hk
      cases hget : BTreeMap.get k us with
      | none => simp [BTreeMap.get]
      | some u => simp [hget, ih]
    · cases hget : BTreeMap.get key us with
      | none => simp [BTreeMap.get, hk, ih]
      | some u => simp [hk, ih]

theorem sorted_diffMembers (h : out.Sorted) (ts : BTreeMap String (Value ν))
    (us : List (String × Value ν)) : BTreeMap.Sorted (diffMembers ts out us) := by
  induction us generalizing out with
  | nil => rwa [diffMembers]
  | cons m us ih =>
    rw [diffMembers]
    split
    · exact ih h
    · exact ih (h.insert _ _)

open Classical in
theorem get_diffMembers (h : us.Sorted) (ts out : BTreeMap String (Value ν)) (k : String) :
    BTreeMap.get k (diffMembers ts out us) =
      (BTreeMap.get k us).elim (BTreeMap.get k out) fun u =>
        if BTreeMap.get k ts = some u then BTreeMap.get k out
        else some (mergeDiff ((BTreeMap.get k ts).getD .null) u) := by
  induction us generalizing out with
  | nil => rw [diffMembers, BTreeMap.get_nil, Option.elim_none]
  | cons m us ih =>
    obtain ⟨key, u⟩ := m
    obtain ⟨hhead, htail⟩ := List.pairwise_cons.mp h
    rw [diffMembers, ih htail, BTreeMap.get]
    by_cases hk : k = key
    · subst hk
      have hnone : BTreeMap.get k us = none :=
        BTreeMap.get_eq_none_iff.mpr fun e he => (hhead e he).ne'
      rw [hnone, if_pos rfl, Option.elim_none, Option.elim_some]
      split
      · rfl
      · rw [BTreeMap.get_insert_self]
    · have hsame : ∀ w : Value ν, BTreeMap.get k (if BTreeMap.get key ts = some u then out
          else BTreeMap.insert key w out) = BTreeMap.get k out := by
        intro w
        split
        · rfl
        · exact BTreeMap.get_insert_ne hk w out
      rw [if_neg hk, hsame]

/-- No member of an object is null, nor of an object in it. -/
inductive NoNullMember : Value ν → Prop
  | other {v : Value ν} (h : v.asObject = none) : NoNullMember v
  | object {ms : List (String × Value ν)} (hmember : ∀ m ∈ ms, m.2.isNull = false)
      (h : ∀ m ∈ ms, NoNullMember m.2) : NoNullMember (.object ms)

theorem mergeDiff_of_not_object (t : Value ν) (h : u.asObject = none) : mergeDiff t u = u := by
  cases u with
  | object => cases h
  | _ => rw [mergeDiff]

theorem isNull_mergeDiff (t : Value ν) (h : u.isNull = false) : (mergeDiff t u).isNull = false := by
  cases u with
  | object => rw [mergeDiff]; rfl
  | null => cases h
  | _ => rw [mergeDiff]; rfl

theorem applyMergePatch_mergeDiff (hu : u.Ordered) (hnull : NoNullMember u) (ht : t.Ordered) :
    (mergeDiff t u).Ordered ∧ applyMergePatch t (mergeDiff t u) = u := by
  induction u using Value.objectInduction generalizing t with
  | other u hnone =>
    rw [mergeDiff_of_not_object t hnone]
    exact ⟨hu, merge_of_not_object t hnone⟩
  | object us ih =>
    obtain hnone | ⟨hmember, hnull⟩ := hnull
    · cases hnone
    let rem := removals t.members us
    have hrem : BTreeMap.Sorted rem := sorted_removals ht.sorted_members us
    have hsorted := sorted_diffMembers hrem t.members us
    have hdiff : ∀ k u, BTreeMap.get k us = some u →
        (mergeDiff ((BTreeMap.get k t.members).getD .null) u).Ordered ∧
          applyMergePatch ((BTreeMap.get k t.members).getD .null)
            (mergeDiff ((BTreeMap.get k t.members).getD .null) u) = u := by
      intro k u hget
      have hmem := hu.1.mem_iff.mpr hget
      exact ih (k, u) hmem (Value.orderedMembers_iff.mp hu.2 _ hmem) (hnull _ hmem) (ht.getD k)
    have hordered : (mergeDiff t (.object us)).Ordered := by
      rw [mergeDiff]
      refine ⟨hsorted, Value.orderedMembers_iff.mpr fun ⟨k, v⟩ hm => ?_⟩
      have hremoval : BTreeMap.get k rem = some v → v.Ordered := by
        intro hget
        rw [get_removals] at hget
        split at hget
        · rw [← Option.some.inj hget]
          exact Value.ordered_null
        · cases hget
      have hget := hsorted.mem_iff.mp hm
      rw [get_diffMembers hu.1] at hget
      cases hgetu : BTreeMap.get k us with
      | none =>
        rw [hgetu] at hget
        exact hremoval hget
      | some u =>
        rw [hgetu, Option.elim_some] at hget
        split at hget
        · exact hremoval hget
        · rw [← Option.some.inj hget]
          exact (hdiff k u hgetu).1
    refine ⟨hordered, ?_⟩
    rw [mergeDiff, applyMergePatch]
    have hmerged := sorted_mergeMembers ht.sorted_members (diffMembers t.members rem us)
    refine congrArg Value.object (hmerged.ext hu.1 fun k => ?_)
    rw [get_mergeMembers hsorted, get_diffMembers hu.1, get_removals]
    cases hgetu : BTreeMap.get k us with
    | none =>
      rw [Option.elim_none]
      cases hgett : BTreeMap.get k t.members with
      | none => rfl
      | some v => rfl
    | some u =>
      rw [Option.elim_some]
      split
      next hsame =>
        rw [if_neg (by rintro ⟨-, h⟩; cases h)]
        exact hsame
      next =>
        have hu' := hmember _ (hu.1.mem_iff.mpr hgetu)
        rw [mergedMember, isNull_mergeDiff _ hu', if_neg Bool.false_ne_true, (hdiff k u hgetu).2]

/-- Applying a patch again changes nothing, every value without null members is made of any other by
their difference, and places that a patch does not mention stay. -/
theorem merge_patch_laws (ht : t.Ordered) :
    (∀ p : Value ν, p.Ordered →
      applyMergePatch (applyMergePatch t p) p = applyMergePatch t p) ∧
    (∀ u : Value ν, u.Ordered → NoNullMember u →
      (mergeDiff t u).Ordered ∧ applyMergePatch t (mergeDiff t u) = u) ∧
    ∀ p : Value ν, p.Ordered → ∀ ks, Spares p ks →
      (applyMergePatch t p).memberAt ks = t.memberAt ks :=
  ⟨fun _ hp => applyMergePatch_twice hp ht, fun _ hu hnull => applyMergePatch_mergeDiff hu hnull ht,
    fun _ hp _ h => memberAt_merge hp h⟩

/-- Two objects with a member in common that is an object in both. -/
theorem merge_patch_laws_labels :
    let old : Value Int := .object [("labels", .object [("app", .string "web")])]
    let new : Value Int := .object [("labels", .object [("tier", .null)])]
    let wanted : Value Int := .object [("labels", .object [("tier", .bool true)])]
    applyMergePatch (applyMergePatch old new) new = applyMergePatch old new ∧
      applyMergePatch old (mergeDiff old wanted) = wanted ∧
      (applyMergePatch old new).memberAt ["labels", "app"] = some (.string "web") := by
  intro old new wanted
  have hold : old.Ordered := by simp [old, Value.Ordered, Value.OrderedMembers, BTreeMap.Sorted]
  have hnew : new.Ordered := by simp [new, Value.Ordered, Value.OrderedMembers, BTreeMap.Sorted]
  have hwanted : wanted.Ordered := by
    simp [wanted, Value.Ordered, Value.OrderedMembers, BTreeMap.Sorted]
  have hnull : NoNullMember wanted := by
    refine .object (by simp [Value.isNull]) fun m hm => ?_
    rw [List.mem_singleton.mp hm]
    refine .object (by simp [Value.isNull]) fun m hm => ?_
    rw [List.mem_singleton.mp hm]
    exact .other rfl
  have hspares : Spares new ["labels", "app"] := by
    refine ⟨rfl, fun v hv => ?_⟩
    obtain rfl := Option.some.inj hv
    exact ⟨rfl, nofun⟩
  obtain ⟨htwice, hdiff, hstays⟩ := merge_patch_laws hold
  exact ⟨htwice new hnew, (hdiff wanted hwanted hnull).2, hstays new hnew _ hspares⟩

end Merge

end CaveHome.Apiserver
