import CaveHome.ControllerManager.Store
import Mathlib.Data.List.Induction

/-!
# Index queries against scans

What a query through an index of the store gives, against a scan of all objects.  A label is indexed
under the one text `key=value`, and two labels can have the same text.
-/

namespace CaveHome.ControllerManager

/-! ## Labels with one text -/

theorem append_cons_eq_iff {β : Type} {c : β} {as bs as' bs' : List β} :
    as' ++ c :: bs' = as ++ c :: bs ↔
      (as' = as ∧ bs' = bs) ∨ (∃ xs, as' = as ++ c :: xs ∧ bs = xs ++ c :: bs') ∨
        ∃ xs, as = as' ++ c :: xs ∧ bs' = xs ++ c :: bs := by
  rw [List.append_eq_append_iff]
  constructor
  · rintro (⟨rest, has, hbs⟩ | ⟨rest, has, hbs⟩)
    · cases rest with
      | nil =>
        refine .inl ⟨?_, ?_⟩
        · rw [has, List.append_nil]
        · exact (List.cons.inj hbs).2
      | cons x xs =>
        obtain ⟨hx, htail⟩ := List.cons.inj hbs
        subst hx
        exact .inr (.inr ⟨xs, has, htail⟩)
    · cases rest with
      | nil =>
        refine .inl ⟨?_, ?_⟩
        · rw [has, List.append_nil]
        · exact (List.cons.inj hbs).2.symm
      | cons x xs =>
        obtain ⟨hx, htail⟩ := List.cons.inj hbs
        subst hx
        exact .inr (.inl ⟨xs, has, htail⟩)
  · rintro (⟨rfl, rfl⟩ | ⟨xs, has, hbs⟩ | ⟨xs, has, hbs⟩)
    · exact .inl ⟨[], (List.append_nil _).symm, rfl⟩
    · exact .inr ⟨c :: xs, has, by rw [hbs]; rfl⟩
    · exact .inl ⟨c :: xs, has, by rw [hbs]; rfl⟩

/-- A label that is another one than `k` with value `v`, and has the text `k=v`. -/
def AliasOf (k v : String) (label : String × String) : Prop :=
  ∃ x, (label.1 = k ++ "=" ++ x ∧ v = x ++ "=" ++ label.2) ∨
    (k = label.1 ++ "=" ++ x ∧ label.2 = x ++ "=" ++ v)

theorem text_eq_iff (k v : String) (label : String × String) :
    label.1 ++ "=" ++ label.2 = k ++ "=" ++ v ↔ label = (k, v) ∨ AliasOf k v label := by
  obtain ⟨k', v'⟩ := label
  have htext : ∀ s t u : String, s ++ "=" ++ t = u ↔ s.toList ++ '=' :: t.toList = u.toList := by
    intro s t u
    rw [← String.toList_inj, String.toList_append, String.toList_append, List.append_assoc]
    rfl
  have htext' : ∀ s t u : String, u = s ++ "=" ++ t ↔ u.toList = s.toList ++ '=' :: t.toList := by
    intro s t u
    rw [eq_comm, htext, eq_comm]
  have hlists : ∀ p : List Char → Prop, (∃ xs, p xs) ↔ ∃ x : String, p x.toList := by
    intro p
    refine ⟨fun ⟨xs, h⟩ => ⟨String.ofList xs, ?_⟩, fun ⟨x, h⟩ => ⟨x.toList, h⟩⟩
    rwa [String.toList_ofList]
  rw [htext, String.toList_append, String.toList_append, List.append_assoc]
  change _ = k.toList ++ '=' :: v.toList ↔ _
  rw [append_cons_eq_iff, Prod.mk.injEq, String.toList_inj, String.toList_inj, hlists, hlists,
    ← exists_or]
  simp only [AliasOf, htext']

variable {α : Type} [Object α]

theorem mem_labelIndexKeys {o : α} {k v : String} (h : (objectMeta o).labels.Sorted) :
    k ++ "=" ++ v ∈ labelIndexKeys o ↔ (objectMeta o).labels.get k = some v ∨
      ∃ label ∈ (objectMeta o).labels, AliasOf k v label := by
  rw [labelIndexKeys, List.mem_map, ← h.mem_iff]
  constructor
  · rintro ⟨label, hmem, htext⟩
    rcases (text_eq_iff k v label).mp htext with rfl | hother
    · exact .inl hmem
    · exact .inr ⟨label, hmem, hother⟩
  · rintro (hmem | ⟨label, hmem, hother⟩)
    · exact ⟨(k, v), hmem, rfl⟩
    · exact ⟨label, hmem, (text_eq_iff k v label).mpr (.inr hother)⟩

theorem Store.listByLabel_eq_filter_iff (s : Store α) (k v : String)
    (hlabels : ∀ j o, s.get j = some o → (objectMeta o).labels.Sorted) :
    s.listByLabel k v = s.list.filter (fun o => (objectMeta o).labels.get k = some v) ↔
      ∀ j o, s.get j = some o → (∃ label ∈ (objectMeta o).labels, AliasOf k v label) →
        (objectMeta o).labels.get k = some v := by
  rw [s.listByLabel_eq]
  constructor
  · intro heq j o hget halias
    have hkey : s.get (key o) = some o := Store.key_of_get hget ▸ hget
    have hmem : o ∈ s.list.filter fun o => k ++ "=" ++ v ∈ labelIndexKeys o := by
      refine List.mem_filter.mpr ⟨Store.mem_list.mpr hkey, decide_eq_true ?_⟩
      exact (mem_labelIndexKeys (hlabels j o hget)).mpr (.inr halias)
    rw [heq] at hmem
    exact of_decide_eq_true (List.mem_filter.mp hmem).2
  · intro hall
    refine List.filter_congr fun o ho => decide_eq_decide.mpr ?_
    have hget : s.get (key o) = some o := Store.mem_list.mp ho
    rw [mem_labelIndexKeys (hlabels _ o hget)]
    exact or_iff_left_of_imp (hall _ o hget)

/-! ## Runs -/

inductive StoreCall (α : Type)
  | upsert (o : α)
  | remove (k : String)

def Store.receive (s : Store α) : StoreCall α → Store α
  | .upsert o => s.upsert o
  | .remove k => s.remove k

/-- The store after the calls. -/
def stored (calls : List (StoreCall α)) : Store α := calls.foldl Store.receive .empty

/-- The labels of the object that the call brings are a map. -/
def StoreCall.Labelled : StoreCall α → Prop
  | .upsert o => (objectMeta o).labels.Sorted
  | .remove _ => True

theorem Store.labelled_receive {s : Store α} {call : StoreCall α} (hcall : call.Labelled)
    (h : ∀ j o, s.get j = some o → (objectMeta o).labels.Sorted) :
    ∀ j o, (s.receive call).get j = some o → (objectMeta o).labels.Sorted := by
  intro j o hget
  cases call with
  | upsert new =>
    rw [receive, get_upsert] at hget
    split at hget
    · exact Option.some.inj hget ▸ hcall
    · exact h j o hget
  | remove k =>
    rw [receive, get_remove] at hget
    split at hget
    · cases hget
    · exact h j o hget

theorem labelled_stored {calls : List (StoreCall α)} (hcalls : ∀ call ∈ calls, call.Labelled) :
    ∀ j o, (stored calls).get j = some o → (objectMeta o).labels.Sorted := by
  induction calls using List.reverseRecOn with
  | nil =>
    intro j o hget
    cases hget
  | append_singleton calls call ih =>
    obtain ⟨hcalls, hcall⟩ := List.forall_mem_append.mp hcalls
    rw [stored, List.foldl_concat]
    exact Store.labelled_receive (hcall call List.mem_cons_self) (ih hcalls)

/-- After any calls, the list and the query by namespace are the scan in the order of the keys, and
the query by a label is the scan exactly when no stored object has an alias of the label alone. -/
theorem index_queries (calls : List (StoreCall α)) (hcalls : ∀ call ∈ calls, call.Labelled) :
    ((stored calls).list.map key).Pairwise (· < ·) ∧
      (∀ n, (stored calls).listByNamespace n =
        (stored calls).list.filter fun o => (objectMeta o).namespaceName = n) ∧
      ∀ k v, (stored calls).listByLabel k v =
          (stored calls).list.filter (fun o => (objectMeta o).labels.get k = some v) ↔
        ∀ j o, (stored calls).get j = some o →
          (∃ label ∈ (objectMeta o).labels, AliasOf k v label) →
            (objectMeta o).labels.get k = some v :=
  ⟨(stored calls).pairwise_keys, (stored calls).listByNamespace_eq,
    fun k v => (stored calls).listByLabel_eq_filter_iff k v (labelled_stored hcalls)⟩

/-- An object with the label `a` of value `b=c`. -/
def relabelled : ObjectMeta where
  name := "web"
  namespaceName := "default"
  uid := "u1"
  labels := [("a", "b=c")]

theorem index_queries_relabelled :
    (stored [.upsert relabelled]).listByNamespace "default" =
      (stored [.upsert relabelled]).list.filter
        fun o => (objectMeta o).namespaceName = "default" := by
  refine (index_queries [.upsert relabelled] ?_).2.1 "default"
  intro call hmem
  rw [List.mem_singleton.mp hmem]
  exact List.pairwise_singleton _ _

/-- The query for the label `a=b` of value `c` finds the object, which has no such label. -/
theorem listByLabel_relabelled :
    (stored [.upsert relabelled]).listByLabel "a=b" "c" = [relabelled] ∧
      (stored [.upsert relabelled]).list.filter
        (fun o => (objectMeta o).labels.get "a=b" = some "c") = [] := by
  decide

end CaveHome.ControllerManager
