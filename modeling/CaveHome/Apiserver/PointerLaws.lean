import CaveHome.Apiserver.MergePatch
import CaveHome.Apiserver.PathRoundTrip

/-!
# Laws of JSON pointers

What a patch sets at a pointer is found there, what lies elsewhere is found as before, and an
addition is undone by a removal.  Pointers lead to places: two tokens are the same step if they name
the same member of an object or are read as the same index of an array.
-/

namespace CaveHome.Apiserver

/-! ## Writing pointers -/

/-- A token with the escapes for tildes and slashes. -/
def escape (t : List Char) : List Char :=
  t.flatMap fun c => if c = '~' then ['~', '0'] else if c = '/' then ['~', '1'] else [c]

/-- The pointer of the tokens. -/
def pointer (ts : List String) : String :=
  String.ofList (slashed (ts.map fun t => String.ofList (escape t.toList)))

theorem replacePair_cons {a b c x : Char} (h : x ≠ a) (s : List Char) :
    Text.replacePair a b c (x :: s) = x :: Text.replacePair a b c s := by
  cases s with
  | nil => rfl
  | cons y s =>
    rw [Text.replacePair, if_neg fun hxy => h hxy.1]

theorem replacePair_pair (a b c : Char) (s : List Char) :
    Text.replacePair a b c (a :: b :: s) = c :: Text.replacePair a b c s := by
  rw [Text.replacePair, if_pos ⟨rfl, rfl⟩]

theorem unescape_escape (t : List Char) :
    Text.replacePair '~' '0' '~' (Text.replacePair '~' '1' '/' (escape t)) = t := by
  induction t with
  | nil => rfl
  | cons c t ih =>
    rw [escape, List.flatMap_cons]
    change Text.replacePair _ _ _ (Text.replacePair _ _ _ (_ ++ escape t)) = _
    by_cases htilde : c = '~'
    · subst htilde
      have hfirst : Text.replacePair '~' '1' '/' ('~' :: '0' :: escape t) =
          '~' :: '0' :: Text.replacePair '~' '1' '/' (escape t) := by
        rw [Text.replacePair, if_neg (by decide), replacePair_cons (by decide)]
      rw [if_pos rfl, List.cons_append, List.cons_append, List.nil_append, hfirst,
        replacePair_pair, ih]
    · rw [if_neg htilde]
      by_cases hslash : c = '/'
      · subst hslash
        rw [if_pos rfl, List.cons_append, List.cons_append, List.nil_append, replacePair_pair,
          replacePair_cons (by decide), ih]
      · rw [if_neg hslash, List.cons_append, List.nil_append, replacePair_cons htilde,
          replacePair_cons htilde, ih]

theorem slash_not_mem_escape (t : List Char) : '/' ∉ escape t := by
  intro hmem
  obtain ⟨c, -, hc⟩ := List.mem_flatMap.mp hmem
  split at hc
  · revert hc
    decide
  · split at hc
    · revert hc
      decide
    next hslash => exact hslash (List.mem_singleton.mp hc).symm

theorem parsePointer_pointer (ts : List String) : parsePointer (pointer ts) = .ok ts := by
  let escaped : List String := ts.map fun t => String.ofList (escape t.toList)
  have hsplit := splitOn_slashed escaped (by
    intro s hs
    obtain ⟨t, -, rfl⟩ := List.mem_map.mp hs
    rw [String.toList_ofList]
    exact slash_not_mem_escape _)
  rw [parsePointer, pointer, String.toList_ofList]
  cases ts with
  | nil => rfl
  | cons t ts =>
    -- the first piece is the empty one before the first slash
    obtain ⟨rest, hslashed⟩ : ∃ rest, slashed escaped = '/' :: rest := ⟨_, rfl⟩
    rw [hslashed, List.splitOn_cons_eq_if_modifyHead, if_pos (beq_self_eq_true _)] at hsplit
    have hrest : rest.splitOn '/' = escaped.map String.toList := (List.cons.inj hsplit).2
    have hback : escaped.map (fun s => String.ofList
        (Text.replacePair '~' '0' '~' (Text.replacePair '~' '1' '/' s.toList))) = t :: ts := by
      dsimp only [escaped]
      rw [List.map_map]
      refine (List.map_congr_left fun s _ => ?_).trans (List.map_id _)
      rw [Function.comp_apply, String.toList_ofList, unescape_escape, String.ofList_toList]
      rfl
    dsimp only [escaped] at hslashed
    rw [hslashed]
    change Except.ok ((rest.splitOn '/').map _) = _
    rw [hrest, List.map_map]
    exact congrArg Except.ok hback

/-! ## Steps -/

variable {ν : Type}

/-- The step of a token from a container: the name of a member or the index of an item. -/
def stepOf (cur : Value ν) (t : String) : String ⊕ Nat :=
  match cur with
  | .array _ =>
    match Text.parseU64 t with
    | some i => .inr i
    | none => .inl t
  | _ => .inl t

/-- The steps that the tokens make in the document. -/
def place : Value ν → List String → List (String ⊕ Nat)
  | _, [] => []
  | cur, t :: ts =>
    stepOf cur t ::
      match descend cur t with
      | some child => place child ts
      | none => ts.map .inl

variable {cur child child' d d' : Value ν} {t u : String} {ts us ps : List String}

theorem descend_congr (h : stepOf cur t = stepOf cur u) : descend cur t = descend cur u := by
  cases cur with
  | array a =>
    simp only [stepOf] at h
    simp only [descend]
    cases ht : Text.parseU64 t <;> cases hu : Text.parseU64 u <;> simp_all
  | object m => rw [Sum.inl.inj h]
  | _ => rfl

theorem descend_putChild (h : descend cur t = some child) (child' : Value ν) :
    descend (putChild cur t child') t = some child' := by
  cases cur with
  | object m => exact BTreeMap.get_insert_self ..
  | array a =>
    obtain ⟨i, hi, hchild⟩ := Option.bind_eq_some_iff.mp h
    obtain ⟨hlt, -⟩ := List.getElem?_eq_some_iff.mp hchild
    simp only [putChild, descend, hi, Option.map_some, Option.getD_some, Option.bind_some]
    exact List.getElem?_set_self hlt
  | _ => cases h

theorem stepOf_putChild (cur : Value ν) (t : String) (child' : Value ν) (u : String) :
    stepOf (putChild cur t child') u = stepOf cur u := by
  cases cur <;> rfl

theorem descend_putChild_of_ne (h : stepOf cur t ≠ stepOf cur u) (child' : Value ν) :
    descend (putChild cur t child') u = descend cur u := by
  cases cur with
  | object m => exact BTreeMap.get_insert_ne (fun hu => h (congrArg Sum.inl hu.symm)) _ _
  | array a =>
    simp only [stepOf] at h
    simp only [putChild, descend]
    cases ht : Text.parseU64 t with
    | none => rfl
    | some i =>
      cases hu : Text.parseU64 u with
      | none => rfl
      | some j =>
        have hne : i ≠ j := by
          rintro rfl
          simp [ht, hu] at h
        simp only [Option.map_some, Option.getD_some, Option.bind_some]
        exact List.getElem?_set_ne hne
  | _ => rfl

theorem orderedItems_iff {items : List (Value ν)} :
    Value.OrderedItems items ↔ ∀ v ∈ items, v.Ordered := by
  induction items with
  | nil => simp [Value.OrderedItems]
  | cons v items ih => rw [Value.OrderedItems, List.forall_mem_cons, ih]

theorem Value.Ordered.descend (h : cur.Ordered) (hchild : descend cur t = some child) :
    child.Ordered := by
  cases cur with
  | object m => exact h.of_get hchild
  | array a =>
    obtain ⟨i, -, hget⟩ := Option.bind_eq_some_iff.mp hchild
    exact orderedItems_iff.mp h child (List.mem_of_getElem? hget)
  | _ => cases hchild

theorem putChild_putChild (h : cur.Ordered) (hchild : Apiserver.descend cur t = some child) :
    putChild (putChild cur t child') t child = cur := by
  cases cur with
  | object m =>
    refine congrArg Value.object ?_
    refine BTreeMap.Sorted.ext ((h.1.insert _ _).insert _ _) h.1 fun k => ?_
    rw [BTreeMap.get_insert, BTreeMap.get_insert]
    split
    next hk => rw [hk]; exact hchild.symm
    next => rfl
  | array a =>
    obtain ⟨i, hi, hget⟩ := Option.bind_eq_some_iff.mp hchild
    obtain ⟨hlt, rfl⟩ := List.getElem?_eq_some_iff.mp hget
    simp only [putChild, hi, Option.map_some, Option.getD_some, List.set_set, List.set_getElem_self]
  | _ => cases hchild

/-! ## Changing what a pointer leads to -/

section Modify

variable {path : String} {change back : Value ν → Except Status (Value ν)}

theorem modifyAt_cons (h : modifyAt path change (t :: ps) d = .ok d') :
    ∃ child child', descend d t = some child ∧ modifyAt path change ps child = .ok child' ∧
      d' = putChild d t child' := by
  rw [modifyAt] at h
  cases hchild : descend d t with
  | none =>
    rw [hchild] at h
    cases h
  | some child =>
    rw [hchild] at h
    cases hrest : modifyAt path change ps child with
    | error e =>
      simp only [hrest] at h
      cases h
    | ok child' =>
      simp only [hrest] at h
      exact ⟨child, child', rfl, hrest, (Except.ok.inj h).symm⟩

theorem modifyAt_eq_ok (h : modifyAt path change ps d = .ok d') :
    ∃ cur cur', ps.foldlM descend d = some cur ∧ change cur = .ok cur' ∧
      ps.foldlM descend d' = some cur' := by
  induction ps generalizing d d' with
  | nil => exact ⟨d, d', rfl, h, rfl⟩
  | cons t ps ih =>
    obtain ⟨child, child', hchild, hrest, rfl⟩ := modifyAt_cons h
    obtain ⟨cur, cur', hcur, hchange, hcur'⟩ := ih hrest
    refine ⟨cur, cur', ?_, hchange, ?_⟩
    · rw [List.foldlM_cons, hchild]
      exact hcur
    · rw [List.foldlM_cons, descend_putChild hchild]
      exact hcur'

theorem place_cons (hchild : descend d t = some child) (ts : List String) :
    place d (t :: ts) = stepOf d t :: place child ts := by
  rw [place, hchild]

theorem modifyAt_frame (h : modifyAt path change ps d = .ok d')
    (habove : ¬ place d us <+: place d ps)
    (hleaf : ∀ cur cur' us', ps.foldlM descend d = some cur → change cur = .ok cur' →
      place d us = place d ps ++ place cur us' →
        us'.foldlM descend cur' = us'.foldlM descend cur) :
    us.foldlM descend d' = us.foldlM descend d := by
  induction ps generalizing d d' us with
  | nil => exact hleaf d d' us rfl h rfl
  | cons t ps ih =>
    obtain ⟨child, child', hchild, hrest, rfl⟩ := modifyAt_cons h
    cases us with
    | nil => exact absurd List.nil_prefix habove
    | cons u us =>
      by_cases hstep : stepOf d t = stepOf d u
      · have hother : descend d u = some child := (descend_congr hstep).symm.trans hchild
        have hput : descend (putChild d t child') u = some child' := by
          rw [← descend_putChild hchild child']
          refine (descend_congr ?_).symm
          rw [stepOf_putChild, stepOf_putChild, hstep]
        rw [place_cons hother, place_cons hchild, hstep, List.prefix_cons_inj] at habove
        rw [List.foldlM_cons, List.foldlM_cons, hput, hother]
        refine ih hrest habove fun cur cur' us' hcur hchange hplace =>
          hleaf cur cur' us' ?_ hchange ?_
        · rw [List.foldlM_cons, hchild]
          exact hcur
        · rw [place_cons hother, place_cons hchild, hstep, hplace]
          rfl
      · rw [List.foldlM_cons, List.foldlM_cons, descend_putChild_of_ne hstep]

theorem modifyAt_back (hd : d.Ordered) (h : modifyAt path change ps d = .ok d')
    (hback : ∀ cur cur', ps.foldlM descend d = some cur → change cur = .ok cur' →
      back cur' = .ok cur) : modifyAt path back ps d' = .ok d := by
  induction ps generalizing d d' with
  | nil => exact hback d d' rfl h
  | cons t ps ih =>
    obtain ⟨child, child', hchild, hrest, rfl⟩ := modifyAt_cons h
    have hundo := ih (hd.descend hchild) hrest fun cur cur' hcur hchange => hback cur cur' (by
      rw [List.foldlM_cons, hchild]
      exact hcur) hchange
    rw [modifyAt, descend_putChild hchild]
    simp only [hundo]
    exact congrArg Except.ok (putChild_putChild hd hchild)

end Modify

/-! ## What is set -/

/-- The index at which an addition is put into an array. -/
def addedAt (a : List (Value ν)) (last : String) : Option Nat :=
  if last = "-" then some a.length else Text.parseU64 last

section Leaf

variable {path last : String} {v cur' : Value ν} {create : Bool}

theorem setLeaf_object {m : BTreeMap String (Value ν)}
    (h : setLeaf path last v create (.object m) = .ok cur') :
    cur' = .object (BTreeMap.insert last v m) := by
  rw [setLeaf] at h
  split at h
  · cases h
  · exact (Except.ok.inj h).symm

theorem setLeaf_array {a : List (Value ν)} (h : setLeaf path last v create (.array a) = .ok cur') :
    (create = true ∧ ∃ i, addedAt a last = some i ∧ i ≤ a.length ∧
        cur' = .array (a.insertIdx i v)) ∨
      create = false ∧ ∃ i, Text.parseU64 last = some i ∧ i < a.length ∧
        cur' = .array (a.set i v) := by
  rw [setLeaf] at h
  rw [addedAt]
  split at h
  next hlast =>
    split at h
    next hcreate =>
      refine .inl ⟨hcreate, a.length, if_pos hlast, le_rfl, ?_⟩
      rw [List.insertIdx_length_self]
      exact (Except.ok.inj h).symm
    next => cases h
  next hlast =>
    rw [if_neg hlast]
    cases hi : Text.parseU64 last with
    | none =>
      rw [hi] at h
      cases h
    | some i =>
      rw [hi] at h
      dsimp only at h
      split at h
      next hcreate =>
        split at h
        · cases h
        next hle => exact .inl ⟨hcreate, i, rfl, not_lt.mp hle, (Except.ok.inj h).symm⟩
      next hcreate =>
        split at h
        next hlt => exact .inr ⟨by simpa using hcreate, i, rfl, hlt, (Except.ok.inj h).symm⟩
        next => cases h

theorem setLeaf_container (h : setLeaf path last v create cur = .ok cur') :
    (∃ m, cur = .object m) ∨ ∃ a, cur = .array a := by
  cases cur with
  | object m => exact .inl ⟨m, rfl⟩
  | array a => exact .inr ⟨a, rfl⟩
  | _ => cases h

theorem descend_setLeaf (h : setLeaf path last v create cur = .ok cur')
    (hend : last = "-" → ∀ a, cur ≠ .array a) : descend cur' last = some v := by
  rcases setLeaf_container h with ⟨m, rfl⟩ | ⟨a, rfl⟩
  · rw [setLeaf_object h]
    exact BTreeMap.get_insert_self ..
  · have hlast : last ≠ "-" := fun hlast => hend hlast a rfl
    rcases setLeaf_array h with ⟨-, i, hi, hle, rfl⟩ | ⟨-, i, hi, hlt, rfl⟩
    · rw [addedAt, if_neg hlast] at hi
      simp only [descend, hi, Option.bind_some]
      rw [List.getElem?_insertIdx_self, if_pos hle]
    · simp only [descend, hi, Option.bind_some]
      exact List.getElem?_set_self hlt

theorem descend_setLeaf_of_ne (h : setLeaf path last v create cur = .ok cur')
    (hstep : stepOf cur last ≠ stepOf cur u)
    (hbefore : create = true → ∀ a i j, cur = .array a → addedAt a last = some i →
      Text.parseU64 u = some j → j < i) : descend cur' u = descend cur u := by
  rcases setLeaf_container h with ⟨m, rfl⟩ | ⟨a, rfl⟩
  · rw [setLeaf_object h]
    exact BTreeMap.get_insert_ne (fun hu => hstep (congrArg Sum.inl hu.symm)) _ _
  · rcases setLeaf_array h with ⟨hcreate, i, hi, hle, rfl⟩ | ⟨-, i, hi, hlt, rfl⟩
    · cases hu : Text.parseU64 u with
      | none => simp [descend, hu]
      | some j =>
        simp only [descend, hu, Option.bind_some]
        exact List.getElem?_insertIdx_of_lt (hbefore hcreate a i j rfl hi hu)
    · cases hu : Text.parseU64 u with
      | none => simp [descend, hu]
      | some j =>
        have hne : i ≠ j := by
          rintro rfl
          simp [stepOf, hi, hu] at hstep
        simp only [descend, hu, Option.bind_some]
        exact List.getElem?_set_ne hne

theorem removeLeaf_setLeaf (h : setLeaf path last v true cur = .ok cur')
    (hend : last = "-" → ∀ a, cur ≠ .array a)
    (hnew : descend cur last = none ∨ ∃ a, cur = .array a) :
    removeLeaf path last cur' = .ok cur := by
  rcases setLeaf_container h with ⟨m, rfl⟩ | ⟨a, rfl⟩
  · rw [setLeaf_object h]
    have hget : BTreeMap.get last m = none := by
      rcases hnew with hnone | ⟨a, ha⟩
      · exact hnone
      · cases ha
    rw [removeLeaf, BTreeMap.get_insert_self]
    change Except.ok (Value.object (BTreeMap.remove last (BTreeMap.insert last v m))) = _
    rw [BTreeMap.remove_insert, BTreeMap.remove_eq_self hget]
  · have hlast : last ≠ "-" := fun hlast => hend hlast a rfl
    rcases setLeaf_array h with ⟨-, i, hi, hle, rfl⟩ | ⟨hcreate, -⟩
    · rw [addedAt, if_neg hlast] at hi
      simp only [removeLeaf, hi]
      rw [if_neg (by rw [List.length_insertIdx, if_pos hle]; omega), List.eraseIdx_insertIdx_self]
    · cases hcreate

end Leaf

/-! ## Patches -/

theorem resolve_pointer (d : Value ν) (ts : List String) :
    resolve d (pointer ts) = ts.foldlM descend d := by
  rw [resolve, parsePointer_pointer]
  rfl

theorem setAt_pointer (d v : Value ν) (ps : List String) (last : String) (create : Bool) :
    setAt d (pointer (ps ++ [last])) v create =
      modifyAt (pointer (ps ++ [last])) (setLeaf (pointer (ps ++ [last])) last v create) ps d := by
  rw [setAt, parsePointer_pointer]
  simp only [bind, Except.bind, List.getLast?_concat, List.dropLast_concat]

theorem removeAt_pointer (d : Value ν) (ps : List String) (last : String) :
    removeAt d (pointer (ps ++ [last])) =
      modifyAt (pointer (ps ++ [last])) (removeLeaf (pointer (ps ++ [last])) last) ps d := by
  rw [removeAt, parsePointer_pointer]
  simp only [bind, Except.bind, List.getLast?_concat, List.dropLast_concat]

theorem applyJsonPatch_singleton [Float64 ν] (d : Value ν) (op : PatchOp ν) :
    applyJsonPatch d [op] = applyOp d op := by
  rw [applyJsonPatch, List.foldlM_cons]
  cases applyOp d op <;> rfl

theorem place_append (h : ps.foldlM descend d = some cur) (us : List String) :
    place d (ps ++ us) = place d ps ++ place cur us := by
  induction ps generalizing d with
  | nil =>
    obtain rfl := Option.some.inj h
    rfl
  | cons t ps ih =>
    rw [List.foldlM_cons] at h
    obtain ⟨child, hchild, hrest⟩ := Option.bind_eq_some_iff.mp h
    rw [List.cons_append, place_cons hchild, place_cons hchild, ih hrest]
    rfl

theorem place_singleton (cur : Value ν) (t : String) : place cur [t] = [stepOf cur t] := by
  rw [place]
  cases descend cur t <;> rfl

/-- The pointer leads to the place behind the items of an array. -/
def AtEnd (d : Value ν) (ts : List String) : Prop :=
  ts.getLast? = some "-" ∧ ∃ a, ts.dropLast.foldlM descend d = some (.array a)

/-- The pointer leads to an item of an array. -/
def InArray (d : Value ν) (ts : List String) : Prop :=
  ts ≠ [] ∧ ∃ a, ts.dropLast.foldlM descend d = some (.array a)

/-- The second pointer leads to where the first one adds an item, or to a later one, or below. -/
def FromAdded (d : Value ν) (ts us : List String) : Prop :=
  ∃ a last i j, ts.dropLast.foldlM descend d = some (.array a) ∧ ts.getLast? = some last ∧
    addedAt a last = some i ∧ i ≤ j ∧ place d ts.dropLast ++ [.inr j] <+: place d us

section Laws

variable {v : Value ν} {create : Bool}

theorem setAt_resolve (h : setAt d (pointer ts) v create = .ok d') (hend : ¬ AtEnd d ts) :
    resolve d' (pointer ts) = some v := by
  rw [resolve_pointer]
  rcases List.eq_nil_or_concat' ts with rfl | ⟨ps, last, rfl⟩
  · exact congrArg some (Except.ok.inj h).symm
  · rw [setAt_pointer] at h
    obtain ⟨cur, cur', hcur, hset, hcur'⟩ := modifyAt_eq_ok h
    rw [List.foldlM_append, hcur']
    change descend cur' last >>= pure = _
    rw [descend_setLeaf hset, Option.bind_eq_bind, Option.bind_some]
    · rfl
    · rintro hlast a rfl
      refine hend ⟨by rw [List.getLast?_concat, hlast], a, ?_⟩
      rwa [List.dropLast_concat]

theorem not_atEnd_of_replace (h : setAt d (pointer ts) v false = .ok d') : ¬ AtEnd d ts := by
  rintro ⟨hlast, a, ha⟩
  rcases List.eq_nil_or_concat' ts with rfl | ⟨ps, last, rfl⟩
  · cases hlast
  rw [List.getLast?_concat] at hlast
  rw [List.dropLast_concat] at ha
  rw [setAt_pointer, Option.some.inj hlast] at h
  obtain ⟨cur, cur', hcur, hset, -⟩ := modifyAt_eq_ok h
  obtain rfl := Option.some.inj (ha.symm.trans hcur)
  cases hset

theorem setAt_frame (h : setAt d (pointer ts) v create = .ok d')
    (habove : ¬ place d us <+: place d ts) (hbelow : ¬ place d ts <+: place d us)
    (hafter : create = true → ¬ FromAdded d ts us) :
    resolve d' (pointer us) = resolve d (pointer us) := by
  rw [resolve_pointer, resolve_pointer]
  rcases List.eq_nil_or_concat' ts with rfl | ⟨ps, last, rfl⟩
  · exact absurd List.nil_prefix hbelow
  rw [setAt_pointer] at h
  obtain ⟨cur₀, -, hcur₀, -⟩ := modifyAt_eq_ok h
  have hplace : place d (ps ++ [last]) = place d ps ++ [stepOf cur₀ last] := by
    rw [place_append hcur₀, place_singleton]
  refine modifyAt_frame h (fun hprefix => habove ?_) fun cur cur' us' hcur hset hus => ?_
  · rw [hplace]
    exact hprefix.trans (List.prefix_append _ _)
  obtain rfl := Option.some.inj (hcur₀.symm.trans hcur)
  cases us' with
  | nil =>
    -- the pointer would lead to the container
    rw [place, List.append_nil] at hus
    refine absurd ?_ habove
    rw [hus, hplace]
    exact List.prefix_append _ _
  | cons u us' =>
    rw [place] at hus
    have hstep : stepOf cur₀ last ≠ stepOf cur₀ u := by
      intro hstep
      refine hbelow ?_
      rw [hplace, hus, hstep]
      exact List.prefix_append_right_inj _ |>.mpr (List.prefix_iff_eq_append.mpr rfl)
    have hsame : descend cur' u = descend cur₀ u := by
      refine descend_setLeaf_of_ne hset hstep fun hcreate a i j ha hi hj => ?_
      by_contra hle
      refine hafter hcreate ⟨a, last, i, j, ?_, List.getLast?_concat, hi, not_lt.mp hle, ?_⟩
      · rw [List.dropLast_concat, hcur₀, ha]
      · have hindex : stepOf cur₀ u = .inr j := by
          rw [ha]
          simp [stepOf, hj]
        rw [List.dropLast_concat, hus, hindex]
        exact List.prefix_append_right_inj _ |>.mpr (List.prefix_iff_eq_append.mpr rfl)
    rw [List.foldlM_cons, List.foldlM_cons, hsame]

theorem removeAt_setAt (hd : d.Ordered) (h : setAt d (pointer ts) v true = .ok d')
    (hend : ¬ AtEnd d ts) (hnew : resolve d (pointer ts) = none ∨ InArray d ts) :
    removeAt d' (pointer ts) = .ok d := by
  rw [resolve_pointer] at hnew
  rcases List.eq_nil_or_concat' ts with rfl | ⟨ps, last, rfl⟩
  · rcases hnew with hnone | harray
    · cases hnone
    · exact absurd rfl harray.1
  rw [setAt_pointer] at h
  rw [removeAt_pointer]
  refine modifyAt_back hd h fun cur cur' hcur hset => removeLeaf_setLeaf hset ?_ ?_
  · rintro hlast a rfl
    refine hend ⟨by rw [List.getLast?_concat, hlast], a, ?_⟩
    rwa [List.dropLast_concat]
  · rcases hnew with hnone | ⟨-, a, ha⟩
    · rw [List.foldlM_append, hcur] at hnone
      change descend cur last >>= pure = none at hnone
      rw [bind_pure] at hnone
      exact .inl hnone
    · rw [List.dropLast_concat, hcur] at ha
      exact .inr ⟨a, Option.some.inj ha⟩

end Laws

/-- What is replaced or added at a pointer is found there, unless it was added at the end of an
array; at the pointers that lead neither above nor below, nor to an item behind an added one, the
document is as before; and the addition of what was not there is undone by a removal. -/
theorem pointer_laws [Float64 ν] (d : Value ν) (hd : d.Ordered) (ts : List String) (v : Value ν) :
    (∀ d', applyJsonPatch d [.replace (pointer ts) v] = .ok d' →
      resolve d' (pointer ts) = some v ∧
      ∀ us, ¬ place d us <+: place d ts → ¬ place d ts <+: place d us →
        resolve d' (pointer us) = resolve d (pointer us)) ∧
    ∀ d', applyJsonPatch d [.add (pointer ts) v] = .ok d' →
      (¬ AtEnd d ts → resolve d' (pointer ts) = some v) ∧
      (∀ us, ¬ place d us <+: place d ts → ¬ place d ts <+: place d us → ¬ FromAdded d ts us →
        resolve d' (pointer us) = resolve d (pointer us)) ∧
      (¬ AtEnd d ts → resolve d (pointer ts) = none ∨ InArray d ts →
        applyJsonPatch d' [.remove (pointer ts)] = .ok d) := by
  constructor
  · intro d' h
    rw [applyJsonPatch_singleton] at h
    refine ⟨setAt_resolve h (not_atEnd_of_replace h), fun us habove hbelow => ?_⟩
    refine setAt_frame h habove hbelow fun hcreate => ?_
    cases hcreate
  · intro d' h
    rw [applyJsonPatch_singleton] at h
    refine ⟨setAt_resolve h, fun us habove hbelow hafter =>
      setAt_frame h habove hbelow fun _ => hafter, fun hend hnew => ?_⟩
    rw [applyJsonPatch_singleton]
    exact removeAt_setAt hd h hend hnew

/-- An item is added in front of another one, beside a member with slashes in its name. -/
theorem pointer_laws_item :
    let before : Value Int := .object [("a/b", .null), ("items", .array [.number 1])]
    let after : Value Int := .object [("a/b", .null), ("items", .array [.number 2, .number 1])]
    applyJsonPatch before [.add (pointer ["items", "0"]) (.number 2)] = .ok after ∧
      resolve after (pointer ["items", "0"]) = some (.number 2) ∧
      resolve after (pointer ["a/b"]) = resolve before (pointer ["a/b"]) ∧
      applyJsonPatch after [.remove (pointer ["items", "0"])] = .ok before ∧
      applyJsonPatch after [.replace (pointer ["a/b"]) (.bool true)] =
        .ok (.object [("a/b", .bool true), ("items", .array [.number 2, .number 1])]) ∧
      resolve (.object [("a/b", .bool true), ("items", .array [.number 2, .number 1])] : Value Int)
        (pointer ["a/b"]) = some (.bool true) := by
  intro before after
  have hlt : "a/b" < "items" := by
    rw [String.lt_iff_toList_lt]
    decide
  have hbefore : before.Ordered := ⟨by simpa [BTreeMap.Sorted] using hlt, trivial,
    ⟨trivial, trivial⟩, trivial⟩
  have hafter : after.Ordered := ⟨by simpa [BTreeMap.Sorted] using hlt, trivial,
    ⟨trivial, trivial, trivial⟩, trivial⟩
  have hadd : applyJsonPatch before [.add (pointer ["items", "0"]) (.number 2)] = .ok after := rfl
  have hreplace : applyJsonPatch after [.replace (pointer ["a/b"]) (.bool true)] =
    .ok (.object [("a/b", .bool true), ("items", .array [.number 2, .number 1])]) := rfl
  obtain ⟨hset, hframe, hback⟩ := (pointer_laws before hbefore ["items", "0"] (.number 2)).2 _ hadd
  obtain ⟨hset', -⟩ := (pointer_laws after hafter ["a/b"] (.bool true)).1 _ hreplace
  have hend : ¬ AtEnd before ["items", "0"] := by
    rintro ⟨hlast, -⟩
    revert hlast
    decide
  have hplace : place before ["a/b"] = [.inl "a/b"] := rfl
  have hplace' : place before ["items", "0"] = [.inl "items", .inr 0] := rfl
  refine ⟨hadd, hset hend, hframe ["a/b"] ?_ ?_ ?_, hback hend (.inr ⟨?_, [.number 1], rfl⟩),
    hreplace, hset'⟩
  · rw [hplace, hplace']
    decide
  · rw [hplace, hplace']
    decide
  · rintro ⟨a, last, i, j, -, -, -, -, hle⟩
    revert hle
    rw [hplace]
    intro hle
    have hlen := hle.length_le
    simp [place] at hlen
  · decide

/-- An item that is added at the end is not found at the end, and is not removed there. -/
theorem add_at_end :
    applyJsonPatch (.array [] : Value Int) [.add (pointer ["-"]) .null] = .ok (.array [.null]) ∧
      resolve (.array [.null] : Value Int) (pointer ["-"]) = none ∧
      applyJsonPatch (.array [.null] : Value Int) [.remove (pointer ["-"])] =
        .error (badIndex "-") :=
  ⟨rfl, rfl, rfl⟩

end CaveHome.Apiserver
