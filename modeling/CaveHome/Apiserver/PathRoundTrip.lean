import CaveHome.Apiserver.Http

/-!
# Paths name what they were made from

A path is written as the segments of a resource, each behind a slash, and read back.  The segments
`namespaces`, a name and a third one are a namespace and a resource in it, and so the subresources
of namespaces are not.
-/

namespace CaveHome.Apiserver

/-- The segments, each behind a slash. -/
def slashed (segs : List String) : List Char := segs.flatMap fun s => '/' :: s.toList

theorem splitOn_slashed (segs : List String) (hsegs : ∀ s ∈ segs, '/' ∉ s.toList) :
    (slashed segs).splitOn '/' = [] :: segs.map String.toList := by
  have hjoin : slashed segs = ['/'].intercalate ([] :: segs.map String.toList) := by
    unfold slashed
    induction segs with
    | nil => rfl
    | cons s segs ih =>
      rw [List.flatMap_cons, ih fun t ht => hsegs t (List.mem_cons_of_mem _ ht)]
      cases segs <;> simp [List.intercalate]
  rw [hjoin]
  refine List.splitOn_intercalate '/' ?_ (List.cons_ne_nil _ _)
  intro l hl
  obtain rfl | hl := List.mem_cons.mp hl
  · exact List.not_mem_nil
  · obtain ⟨s, hs, rfl⟩ := List.mem_map.mp hl
    exact hsegs s hs

theorem split_slashed {segs : List String} (hsegs : ∀ s ∈ segs, s ≠ "" ∧ '/' ∉ s.toList) :
    (Text.split '/' (String.ofList (slashed segs))).filter (· ≠ "") = segs := by
  rw [Text.split, String.toList_ofList, splitOn_slashed segs fun s hs => (hsegs s hs).2,
    List.map_cons, List.map_map]
  have hsame : segs.map (String.ofList ∘ String.toList) = segs := by
    conv_rhs => rw [← List.map_id segs]
    exact List.map_congr_left fun s _ => String.ofList_toList
  rw [hsame, List.filter_cons_of_neg (by decide)]
  exact List.filter_eq_self.mpr fun s hs => decide_eq_true (hsegs s hs).1

namespace ResourcePath

/-! ## Writing -/

/-- The path of a resource, in its canonical form. -/
def toPath (rp : ResourcePath) : String :=
  (if rp.group = "" then "/api/" ++ rp.version else "/apis/" ++ rp.group ++ "/" ++ rp.version) ++
    (if rp.namespaceName = "" then "" else "/namespaces/" ++ rp.namespaceName) ++
    "/" ++ rp.resource ++
    (if rp.name = "" then ""
      else "/" ++ rp.name ++ if rp.subresource = "" then "" else "/" ++ rp.subresource)

/-- The segments from the resource on. -/
def tail (rp : ResourcePath) : List String :=
  rp.resource :: if rp.name = "" then []
    else rp.name :: if rp.subresource = "" then [] else [rp.subresource]

def rest (rp : ResourcePath) : List String :=
  if rp.namespaceName = "" then rp.tail else "namespaces" :: rp.namespaceName :: rp.tail

def segments (rp : ResourcePath) : List String :=
  if rp.group = "" then "api" :: rp.version :: rp.rest
  else "apis" :: rp.group :: rp.version :: rp.rest

theorem toList_toPath (rp : ResourcePath) : rp.toPath.toList = slashed rp.segments := by
  unfold toPath segments rest tail slashed
  split <;> split <;> split <;> try split
  all_goals simp [String.toList_append]

/-- The path of a registered resource: its segments are not empty and hold no slash, only an object
has a subresource, and only a resource of namespaces a namespace. -/
structure WellFormed (rp : ResourcePath) : Prop where
  registered : (isNamespaced rp.gvr).isSome = true
  namespaceName : '/' ∉ rp.namespaceName.toList
  name : '/' ∉ rp.name.toList
  subresource : '/' ∉ rp.subresource.toList
  named : rp.subresource ≠ "" → rp.name ≠ ""
  namespaced : rp.namespaceName ≠ "" → isNamespaced rp.gvr = some true

variable {rp : ResourcePath}

theorem WellFormed.kindEntry (h : rp.WellFormed) :
    ∃ e ∈ kinds, e.group = rp.group ∧ e.version = rp.version ∧ e.resource = rp.resource := by
  have hsome := h.registered
  rw [isNamespaced, Option.isSome_map] at hsome
  obtain ⟨e, he⟩ := Option.isSome_iff_exists.mp hsome
  rw [CaveHome.Apiserver.kindEntry] at he
  have hfound := List.find?_some he
  simp only [gvr, Bool.and_eq_true, beq_iff_eq] at hfound
  exact ⟨e, List.mem_of_find?_eq_some he, hfound.1.1, hfound.1.2, hfound.2⟩

theorem kinds_segments : ∀ e ∈ kinds, '/' ∉ e.group.toList ∧
    (e.version ≠ "" ∧ '/' ∉ e.version.toList) ∧ e.resource ≠ "" ∧ '/' ∉ e.resource.toList := by
  decide

theorem WellFormed.segments (h : rp.WellFormed) :
    ∀ s ∈ rp.segments, s ≠ "" ∧ '/' ∉ s.toList := by
  obtain ⟨e, he, hgroup, hversion, hresource⟩ := h.kindEntry
  obtain ⟨hg, hv, hr⟩ := kinds_segments e he
  rw [hgroup] at hg
  rw [hversion] at hv
  rw [hresource] at hr
  have htail : ∀ s ∈ rp.tail, s ≠ "" ∧ '/' ∉ s.toList := by
    unfold tail
    rw [List.forall_mem_cons]
    refine ⟨hr, ?_⟩
    split
    · exact fun _ hs => absurd hs List.not_mem_nil
    next hname =>
      rw [List.forall_mem_cons]
      refine ⟨⟨hname, h.name⟩, ?_⟩
      split
      · exact fun _ hs => absurd hs List.not_mem_nil
      next hsub => exact List.forall_mem_singleton.mpr ⟨hsub, h.subresource⟩
  have hrest : ∀ s ∈ rp.rest, s ≠ "" ∧ '/' ∉ s.toList := by
    unfold rest
    split
    · exact htail
    next hns =>
      rw [List.forall_mem_cons, List.forall_mem_cons]
      exact ⟨by decide, ⟨hns, h.namespaceName⟩, htail⟩
  unfold ResourcePath.segments
  split
  · rw [List.forall_mem_cons, List.forall_mem_cons]
    exact ⟨by decide, hv, hrest⟩
  next hne =>
    rw [List.forall_mem_cons, List.forall_mem_cons, List.forall_mem_cons]
    exact ⟨by decide, ⟨hne, hg⟩, hv, hrest⟩

/-! ## Reading -/

theorem parseGroupVersion_segments (rp : ResourcePath) :
    parseGroupVersion rp.segments = .ok (rp.group, rp.version, rp.rest) := by
  unfold segments
  split
  next h => rw [h]; rfl
  next => rfl

/-- What is made of the namespace and the segments behind it. -/
def ofTail (group version : String) : String × List String → Except Status ResourcePath
  | (_, []) => .error (.badRequest "missing resource segment")
  | (ns, resource :: tail) =>
    if 2 < tail.length then .error (.badRequest "path has trailing segments")
    else
      finish
        { group, version, namespaceName := ns, resource, name := tail[0]?.getD ""
          subresource := tail[1]?.getD "" }

theorem WellFormed.parse_toPath (h : rp.WellFormed) :
    parse rp.toPath = ofTail rp.group rp.version (parseNamespace rp.rest) := by
  have hsegs : (Text.split '/' rp.toPath).filter (· ≠ "") = rp.segments := by
    rw [← String.ofList_toList (s := rp.toPath), toList_toPath, split_slashed h.segments]
  unfold parse
  rw [hsegs]
  dsimp only
  rw [parseGroupVersion_segments]
  rfl

theorem WellFormed.finish_eq (h : rp.WellFormed) : rp.finish = .ok rp := by
  obtain ⟨nsScoped, hscoped⟩ := Option.isSome_iff_exists.mp h.registered
  rw [finish, hscoped]
  refine if_neg ?_
  rintro ⟨hfalse, hns⟩
  have htrue := h.namespaced hns
  rw [hscoped, hfalse] at htrue
  cases htrue

theorem eq_of_finish_eq {rp rp' : ResourcePath} (h : rp.finish = .ok rp') : rp' = rp := by
  unfold finish at h
  split at h
  · cases h
  · split at h
    · cases h
    · exact (Except.ok.inj h).symm

theorem WellFormed.ofTail_tail (h : rp.WellFormed) :
    ofTail rp.group rp.version (rp.namespaceName, rp.tail) = .ok rp := by
  have hread : ofTail rp.group rp.version (rp.namespaceName, rp.tail) = rp.finish := by
    unfold tail
    by_cases hname : rp.name = ""
    · have hsub : rp.subresource = "" := by
        by_contra hne
        exact h.named hne hname
      rw [if_pos hname]
      refine congrArg finish ?_
      cases rp
      simp_all
    · rw [if_neg hname]
      by_cases hsub : rp.subresource = ""
      · rw [if_pos hsub]
        refine congrArg finish ?_
        cases rp
        simp_all
      · rw [if_neg hsub]
        rfl
  exact hread.trans h.finish_eq

theorem parseNamespace_of_ne {resource : String} (h : resource ≠ "namespaces")
    (tail : List String) : parseNamespace (resource :: tail) = ("", resource :: tail) := by
  unfold parseNamespace
  split
  next heq => exact absurd (List.cons.inj heq).1 h
  next => rfl

theorem parseNamespace_of_length {rest : List String} (h : rest.length ≤ 2) :
    parseNamespace rest = ("", rest) := by
  unfold parseNamespace
  split
  next => simp only [List.length_cons] at h; omega
  next => rfl

theorem WellFormed.resource_ne (h : rp.WellFormed) (hns : rp.namespaceName ≠ "") :
    rp.resource ≠ "namespaces" := by
  intro hresource
  have hnone : ∀ e ∈ kinds, e.resource = "namespaces" → e.namespaced = false := by decide
  have hscoped := h.namespaced hns
  rw [isNamespaced, Option.map_eq_some_iff] at hscoped
  obtain ⟨e, he, htrue⟩ := hscoped
  rw [CaveHome.Apiserver.kindEntry] at he
  have hfound := List.find?_some he
  simp only [gvr, Bool.and_eq_true, beq_iff_eq] at hfound
  have hfalse := hnone e (List.mem_of_find?_eq_some he) (hfound.2.trans hresource)
  rw [htrue] at hfalse
  cases hfalse

/-- The path of a resource is read back exactly if it is not the one of a subresource of a
namespace. -/
theorem parse_toPath_iff (h : rp.WellFormed) :
    parse rp.toPath = .ok rp ↔ ¬ (rp.resource = "namespaces" ∧ rp.subresource ≠ "") := by
  rw [h.parse_toPath]
  by_cases hns : rp.namespaceName = ""
  · have hrest : rp.rest = rp.tail := if_pos hns
    rw [hrest]
    by_cases hsub : rp.subresource = ""
    · -- two segments at most, and so there is no namespace in them
      have hparse : parseNamespace rp.tail = (rp.namespaceName, rp.tail) := by
        rw [hns]
        refine parseNamespace_of_length ?_
        unfold tail
        rw [if_pos hsub]
        split <;> simp
      rw [hparse]
      exact iff_of_true h.ofTail_tail fun hne => hne.2 hsub
    · have hname := h.named hsub
      have htail : rp.tail = [rp.resource, rp.name, rp.subresource] := by
        unfold tail
        rw [if_neg hname, if_neg hsub]
      by_cases hresource : rp.resource = "namespaces"
      · refine iff_of_false (fun hparse => ?_) (not_not_intro ⟨hresource, hsub⟩)
        rw [htail, hresource] at hparse
        have hsame := congrArg ResourcePath.namespaceName (eq_of_finish_eq hparse)
        exact hname (hsame.symm.trans hns)
      · have hparse : parseNamespace rp.tail = (rp.namespaceName, rp.tail) := by
          rw [hns]
          exact parseNamespace_of_ne hresource _
        rw [hparse]
        exact iff_of_true h.ofTail_tail fun hne => hresource hne.1
  · have hparse : parseNamespace rp.rest = (rp.namespaceName, rp.tail) := by
      unfold rest tail
      rw [if_neg hns]
      rfl
    rw [hparse]
    exact iff_of_true h.ofTail_tail fun hne => h.resource_ne hns hne.1

theorem parse_toPath_iff_deployment :
    let rp : ResourcePath := ⟨"apps", "v1", "web", "deployments", "site", "status"⟩
    parse rp.toPath = .ok rp ↔ ¬ (rp.resource = "namespaces" ∧ rp.subresource ≠ "") :=
  parse_toPath_iff ⟨rfl, by decide, by decide, by decide, fun _ => by decide, fun _ => rfl⟩

/-- The status of a namespace is taken for a resource `status` in it. -/
theorem parse_toPath_status :
    let rp : ResourcePath := ⟨"", "v1", "", "namespaces", "kube-system", "status"⟩
    rp.WellFormed ∧ parse rp.toPath ≠ .ok rp := by
  intro rp
  have hwell : rp.WellFormed :=
    ⟨rfl, by decide, by decide, by decide, fun _ => by decide, fun hns => absurd rfl hns⟩
  refine ⟨hwell, fun hparse => ?_⟩
  rw [hwell.parse_toPath] at hparse
  have hfinish : finish ⟨"", "v1", "kube-system", "status", "", ""⟩ = .ok rp := hparse
  exact absurd (congrArg ResourcePath.resource (eq_of_finish_eq hfinish)) (by decide)

end ResourcePath

end CaveHome.Apiserver
