import CaveHome.Lib.Text
import Mathlib.Data.List.Basic
import Mathlib.Data.List.Induction

/-!
# Directories of local volumes

The directory of a volume is a path below a base directory, which may be rendered from a pattern.
A guard looks at the rendered text before it is joined to the base and cleaned.  It asks for the
directory of the claim in front and for a text that stays below its start, but `..` after the prefix
can leave the one and keep to the other.
-/

namespace CaveHome.Orchestration

inductive PathError
  | unsafePathPattern (path : String)
deriving DecidableEq

/-! ## Cleaning -/

/-- Take one segment of an absolute path; `..` at the root stays there. -/
def absStep (segments : List String) (part : String) : List String :=
  if part = "" ∨ part = "." then segments
  else if part = ".." then segments.dropLast
  else segments ++ [part]

def absSegments (path : String) : List String := (Text.split '/' path).foldl absStep []

/-- An absolute path from its segments. -/
def absText (segments : List String) : String :=
  if segments = [] then "/"
  else String.ofList (segments.flatMap fun s => '/' :: s.toList)

def cleanAbs (path : String) : String := absText (absSegments path)

/-- Take one segment of a relative path; `..` in front of it is kept. -/
def relStep (segments : List String) (part : String) : List String :=
  if part = "" ∨ part = "." then segments
  else if part = ".." then
    match segments.getLast? with
    | none => segments ++ [".."]
    | some last => if last ≠ ".." then segments.dropLast else segments ++ [".."]
  else segments ++ [part]

def relSegments (path : String) : List String := (Text.split '/' path).foldl relStep []

def cleanRel (path : String) : String :=
  if relSegments path = [] then "." else "/".intercalate (relSegments path)

/-! ## The guard -/

def isLocal (path : String) : Bool :=
  if path = "" ∨ path.toList.head? = some '/' then false
  else
    let cleaned := cleanRel path
    cleaned ≠ ".." ∧ ¬ "../".toList <+: cleaned.toList

def trimEndMatches (c : Char) (s : String) : String :=
  String.ofList (s.toList.reverse.dropWhile (· = c)).reverse

def volumePath (basePath folderName : String) : String :=
  cleanAbs (trimEndMatches '/' basePath ++ "/" ++ folderName)

def validatePatternPath (rendered namespaceName pvcName : String) (allowUnsafe : Bool) :
    Except PathError String :=
  if allowUnsafe then .ok rendered
  else
    let required := namespaceName ++ "/" ++ pvcName ++ "/"
    if ¬ required.toList <+: rendered.toList then .error (.unsafePathPattern rendered)
    else if ¬ isLocal rendered then .error (.unsafePathPattern rendered)
    else .ok rendered

theorem eq_of_validatePatternPath {rendered ns pvc path : String}
    (h : validatePatternPath rendered ns pvc false = .ok path) :
    ∃ rest, rendered = ns ++ "/" ++ pvc ++ "/" ++ rest ∧ isLocal rendered = true := by
  unfold validatePatternPath at h
  rw [if_neg (by decide)] at h
  dsimp only at h
  split at h
  next => cases h
  next hprefix =>
    split at h
    next => cases h
    next hlocal =>
      obtain ⟨rest, hrest⟩ := not_not.mp hprefix
      refine ⟨String.ofList rest, ?_, not_not.mp hlocal⟩
      calc rendered = String.ofList ((ns ++ "/" ++ pvc ++ "/").toList ++ rest) := by
            rw [hrest, String.ofList_toList]
        _ = ns ++ "/" ++ pvc ++ "/" ++ String.ofList rest := by
            rw [String.ofList_append, String.ofList_toList]

/-! ## Segments -/

/-- The text is one segment of a path, and names something below it. -/
structure IsSegment (s : String) : Prop where
  slash : '/' ∉ s.toList
  empty : s ≠ ""
  dot : s ≠ "."
  dots : s ≠ ".."

theorem split_append_slash (a b : String) :
    Text.split '/' (a ++ "/" ++ b) = Text.split '/' a ++ Text.split '/' b := by
  have hchars : (a ++ "/" ++ b).toList = a.toList ++ '/' :: b.toList := by
    rw [String.toList_append, String.toList_append]
    exact List.append_assoc _ _ _
  unfold Text.split
  rw [hchars, List.splitOn_append_cons_self, List.map_append]

theorem split_of_not_mem {s : String} (h : '/' ∉ s.toList) : Text.split '/' s = [s] := by
  rw [Text.split, List.splitOn_eq_singleton h, List.map_singleton, String.ofList_toList]

theorem slash_not_mem_of_mem_split {s : String} :
    ∀ part ∈ Text.split '/' s, '/' ∉ part.toList := by
  have hchars (l : List Char) : ∀ part ∈ l.splitOn '/', '/' ∉ part := by
    induction l with
    | nil => simp [List.splitOn_nil]
    | cons c l ih =>
      obtain ⟨part, parts, hparts⟩ := List.exists_cons_of_ne_nil (List.splitOn_ne_nil '/' l)
      rw [List.splitOn_cons_eq_if_modifyHead]
      rw [hparts] at ih ⊢
      split
      next => simpa using ih
      next hc =>
        have hc' : '/' ≠ c := fun e => hc (by rw [e]; exact beq_self_eq_true c)
        simpa [hc'] using ih
  intro part hpart
  obtain ⟨l, hl, rfl⟩ := List.mem_map.mp hpart
  rw [String.toList_ofList]
  exact hchars _ l hl

theorem absStep_segment {s : String} (h : IsSegment s) (segs : List String) :
    absStep segs s = segs ++ [s] := by
  rw [absStep, if_neg (not_or_intro h.empty h.dot), if_neg h.dots]

theorem absSegments_append (a b : String) :
    absSegments (a ++ "/" ++ b) = (Text.split '/' b).foldl absStep (absSegments a) := by
  rw [absSegments, split_append_slash, List.foldl_append, absSegments]

theorem absSegments_append_segment (a : String) {s : String} (h : IsSegment s) :
    absSegments (a ++ "/" ++ s) = absSegments a ++ [s] := by
  rw [absSegments_append, split_of_not_mem h.slash, List.foldl_cons, List.foldl_nil,
    absStep_segment h]

theorem isSegment_absStep {segs : List String} {part : String} (hpart : '/' ∉ part.toList)
    (h : ∀ s ∈ segs, IsSegment s) : ∀ s ∈ absStep segs part, IsSegment s := by
  intro s hs
  unfold absStep at hs
  split at hs
  next => exact h s hs
  next hskip =>
    split at hs
    next => exact h s (List.dropLast_subset _ hs)
    next hdots =>
      obtain hs | hs := List.mem_append.mp hs
      · exact h s hs
      · rw [List.mem_singleton.mp hs]
        exact ⟨hpart, fun e => hskip (Or.inl e), fun e => hskip (Or.inr e), hdots⟩

theorem isSegment_absSegments (path : String) : ∀ s ∈ absSegments path, IsSegment s := by
  have hfold (parts : List String) (hparts : ∀ part ∈ parts, '/' ∉ part.toList)
      (segs : List String) (h : ∀ s ∈ segs, IsSegment s) :
      ∀ s ∈ parts.foldl absStep segs, IsSegment s := by
    induction parts generalizing segs with
    | nil => exact h
    | cons part parts ih =>
      refine ih (fun p hp => hparts p (List.mem_cons_of_mem _ hp)) _ ?_
      exact isSegment_absStep (hparts part List.mem_cons_self) h
  exact hfold _ slash_not_mem_of_mem_split [] (fun _ hs => absurd hs List.not_mem_nil)

theorem absSegments_absText {segs : List String} (h : ∀ s ∈ segs, IsSegment s) :
    absSegments (absText segs) = segs := by
  have hbody : absSegments (String.ofList (segs.flatMap fun s => '/' :: s.toList)) = segs := by
    induction segs using List.reverseRecOn with
    | nil => decide
    | append_singleton segs s ih =>
      have htext : String.ofList ((segs ++ [s]).flatMap fun s => '/' :: s.toList) =
          String.ofList (segs.flatMap fun s => '/' :: s.toList) ++ "/" ++ s := by
        rw [← String.toList_inj]
        simp [String.toList_append]
      rw [htext, absSegments_append_segment _ (h s (List.mem_append_right _ (by simp))),
        ih fun t ht => h t (List.mem_append_left _ ht)]
  unfold absText
  split
  next hnil => rw [hnil]; decide
  next => exact hbody

theorem absSegments_cleanAbs (path : String) : absSegments (cleanAbs path) = absSegments path :=
  absSegments_absText (isSegment_absSegments path)

theorem clean_shape (parts : List String) : ∃ (up : ℕ) (names : List String),
    ".." ∉ names ∧ parts.foldl relStep [] = List.replicate up ".." ++ names ∧
      ∀ segs : List String, parts.foldl absStep segs = segs.take (segs.length - up) ++ names := by
  induction parts using List.reverseRecOn with
  | nil => exact ⟨0, [], by simp, rfl, fun segs => by simp⟩
  | append_singleton parts part ih =>
    obtain ⟨up, names, hnames, hrel, habs⟩ := ih
    simp only [List.foldl_append, List.foldl_cons, List.foldl_nil, hrel, habs]
    by_cases hskip : part = "" ∨ part = "."
    · refine ⟨up, names, hnames, ?_, fun segs => ?_⟩
      · rw [relStep, if_pos hskip]
      · rw [absStep, if_pos hskip]
    by_cases hdots : part = ".."
    · obtain rfl | ⟨front, last, rfl⟩ := List.eq_nil_or_concat' names
      · -- nothing but `..` so far, and one more
        refine ⟨up + 1, [], hnames, ?_, fun segs => ?_⟩
        · rw [relStep, if_neg hskip, if_pos hdots, List.append_nil, List.append_nil,
            List.replicate_succ']
          cases up with
          | zero => rfl
          | succ up => rw [List.replicate_succ', List.getLast?_concat]; rfl
        · rw [absStep, if_neg hskip, if_pos hdots, List.append_nil, List.append_nil,
            List.dropLast_eq_take, List.length_take, List.take_take]
          congr 1
          omega
      · have hlast : last ≠ ".." := fun e => hnames (by rw [e]; simp)
        refine ⟨up, front, fun hmem => hnames (List.mem_append_left _ hmem), ?_, fun segs => ?_⟩
        · rw [relStep, if_neg hskip, if_pos hdots, ← List.append_assoc, List.getLast?_concat]
          dsimp only
          rw [if_pos hlast, List.dropLast_concat]
        · rw [absStep, if_neg hskip, if_pos hdots, ← List.append_assoc, List.dropLast_concat]
    · refine ⟨up, names ++ [part], ?_, ?_, fun segs => ?_⟩
      · simpa [hnames] using fun e => hdots e.symm
      · rw [relStep, if_neg hskip, if_neg hdots, List.append_assoc]
      · rw [absStep, if_neg hskip, if_neg hdots, List.append_assoc]

theorem head?_relSegments_of_isLocal {path : String} (h : isLocal path = true) :
    (relSegments path).head? ≠ some ".." := by
  intro hhead
  obtain ⟨tail, htail⟩ := List.head?_eq_some_iff.mp hhead
  unfold isLocal at h
  split at h
  next => cases h
  next =>
    have hclean := of_decide_eq_true h
    unfold cleanRel at hclean
    rw [htail, if_neg (List.cons_ne_nil _ _)] at hclean
    cases tail with
    | nil => exact hclean.1 rfl
    | cons s tail =>
      refine hclean.2 ?_
      rw [String.intercalate_cons_cons, String.toList_append, String.toList_append]
      exact ⟨("/".intercalate (s :: tail)).toList, rfl⟩

/-! ## Where the volume is -/

/-- The path is the directory or below it. -/
def Inside (dir path : String) : Prop := absSegments dir <+: absSegments path

/-- The volume is in the directory of its claim, and so neither the base directory or above it nor
in what belongs to another namespace or claim. -/
structure Confined (base ns pvc volume : String) : Prop where
  own : Inside (cleanAbs base ++ "/" ++ ns ++ "/" ++ pvc) volume
  below : ¬ Inside volume (cleanAbs base)
  others (ns' : String) : IsSegment ns' → ns' ≠ ns → ¬ Inside (cleanAbs base ++ "/" ++ ns') volume
  claims (pvc' : String) : IsSegment pvc' → pvc' ≠ pvc →
    ¬ Inside (cleanAbs base ++ "/" ++ ns ++ "/" ++ pvc') volume

/-- What comes after the prefix does not leave the directory of the claim, or comes back to it. -/
def Returns (ns pvc rest : String) : Prop :=
  (relSegments rest).head? ≠ some ".." ∨ ["..", pvc] <+: relSegments rest ∨
    ["..", "..", ns, pvc] <+: relSegments rest

theorem absSegments_trimEndMatches (base : String) :
    absSegments (trimEndMatches '/' base) = absSegments base := by
  have hchars (l : List Char) :
      absSegments (trimEndMatches '/' (String.ofList l)) = absSegments (String.ofList l) := by
    unfold trimEndMatches
    rw [String.toList_ofList]
    induction l using List.reverseRecOn with
    | nil => rfl
    | append_singleton l c ih =>
      rw [List.reverse_concat, List.dropWhile_cons]
      split
      next hc =>
        have htext : String.ofList (l ++ [c]) = String.ofList l ++ "/" ++ "" := by
          rw [of_decide_eq_true hc, String.ofList_append, String.append_empty]
        rw [ih, htext, absSegments_append]
        rfl
      next => rw [← List.reverse_concat, List.reverse_reverse]
  rw [← String.ofList_toList (s := base)]
  exact hchars base.toList

theorem absSegments_volumePath (base rendered : String) :
    absSegments (volumePath base rendered) =
      (Text.split '/' rendered).foldl absStep (absSegments base) := by
  rw [volumePath, absSegments_cleanAbs, absSegments_append, absSegments_trimEndMatches]

example : volumePath "/opt/local/" "default/data/./x//y" = "/opt/local/default/data/x/y" := by
  decide

theorem absSegments_claim {base ns pvc : String} (hns : IsSegment ns) (hpvc : IsSegment pvc) :
    absSegments (cleanAbs base ++ "/" ++ ns ++ "/" ++ pvc) = absSegments base ++ [ns, pvc] := by
  rw [absSegments_append_segment _ hpvc, absSegments_append_segment _ hns, absSegments_cleanAbs,
    List.append_assoc]
  rfl

theorem confined_of_own {base ns pvc volume : String} (hns : IsSegment ns) (hpvc : IsSegment pvc)
    (h : Inside (cleanAbs base ++ "/" ++ ns ++ "/" ++ pvc) volume) :
    Confined base ns pvc volume := by
  have hown := h
  unfold Inside at hown
  rw [absSegments_claim hns hpvc] at hown
  obtain ⟨rest, hrest⟩ := hown
  refine ⟨h, ?_, ?_, ?_⟩
  · intro hbelow
    have hlength := hbelow.length_le
    rw [absSegments_cleanAbs, ← hrest] at hlength
    rw [List.length_append, List.length_append] at hlength
    exact absurd hlength (by simp only [List.length_cons]; omega)
  · intro ns' hns' hne hother
    rw [Inside, absSegments_append_segment _ hns', absSegments_cleanAbs, ← hrest,
      List.append_assoc, List.prefix_append_right_inj] at hother
    simp [hne] at hother
  · intro pvc' hpvc' hne hother
    rw [Inside, absSegments_claim hns hpvc', ← hrest, List.append_assoc,
      List.prefix_append_right_inj] at hother
    simp [hne] at hother

theorem absSegments_volumePath_rest {ns pvc rest : String} (hns : IsSegment ns)
    (hpvc : IsSegment pvc) (hlocal : isLocal (ns ++ "/" ++ pvc ++ "/" ++ rest) = true) :
    ∃ (up : ℕ) (names : List String), up ≤ 2 ∧ ".." ∉ names ∧
      relSegments rest = List.replicate up ".." ++ names ∧ ∀ base : String,
        absSegments (volumePath base (ns ++ "/" ++ pvc ++ "/" ++ rest)) =
          absSegments base ++ ([ns, pvc].take (2 - up) ++ names) := by
  have hsplit : Text.split '/' (ns ++ "/" ++ pvc ++ "/" ++ rest) =
      [ns, pvc] ++ Text.split '/' rest := by
    rw [split_append_slash, split_append_slash, split_of_not_mem hns.slash,
      split_of_not_mem hpvc.slash]
    rfl
  obtain ⟨up, names, hnames, hrel, habs⟩ := clean_shape (Text.split '/' rest)
  obtain ⟨whole, names', -, hrel', habs'⟩ :=
    clean_shape (Text.split '/' (ns ++ "/" ++ pvc ++ "/" ++ rest))
  have hwhole : whole = 0 := by
    have hhead := head?_relSegments_of_isLocal hlocal
    rw [relSegments, hrel'] at hhead
    cases whole with
    | zero => rfl
    | succ n => exact absurd rfl hhead
  -- both ways of reading the rendered path give the same segments below every base
  have hsame (segs : List String) :
      segs ++ names' = (segs ++ [ns, pvc]).take (segs.length + 2 - up) ++ names := by
    have hsegs := habs' segs
    rw [hsplit, List.foldl_append, List.foldl_cons, List.foldl_cons, List.foldl_nil,
      absStep_segment hns, absStep_segment hpvc, habs, hwhole, Nat.sub_zero, List.take_length]
      at hsegs
    rw [← hsegs, List.append_assoc, List.length_append]
    rfl
  have hzero := hsame []
  have hup : up ≤ 2 := by
    have hone := congrArg List.length (hsame [ns])
    have hnil := congrArg List.length hzero
    simp only [List.length_append, List.length_take, List.length_cons, List.length_nil] at hone hnil
    omega
  refine ⟨up, names, hup, hnames, hrel, fun base => ?_⟩
  rw [absSegments_volumePath, habs', hwhole, Nat.sub_zero, List.take_length]
  exact congrArg (absSegments base ++ ·) hzero

theorem inside_iff_returns {base ns pvc rest : String} (hns : IsSegment ns)
    (hpvc : IsSegment pvc) (hlocal : isLocal (ns ++ "/" ++ pvc ++ "/" ++ rest) = true) :
    Inside (cleanAbs base ++ "/" ++ ns ++ "/" ++ pvc)
        (volumePath base (ns ++ "/" ++ pvc ++ "/" ++ rest)) ↔ Returns ns pvc rest := by
  obtain ⟨up, names, hup, hnames, hrel, habs⟩ := absSegments_volumePath_rest hns hpvc hlocal
  rw [Inside, absSegments_claim hns hpvc, habs, List.prefix_append_right_inj, Returns, hrel]
  have hhead : names.head? ≠ some ".." := fun e => hnames (List.mem_of_head? e)
  obtain rfl | rfl | rfl : up = 0 ∨ up = 1 ∨ up = 2 := by omega
  · refine iff_of_true ⟨names, rfl⟩ (Or.inl hhead)
  · have hlast : ¬ ["..", ns, pvc] <+: names := fun h => hnames (h.subset (by simp))
    simp [hlast]
  · simp [hpvc.dots]

theorem isSegment_default : IsSegment "default" := ⟨by decide, by decide, by decide, by decide⟩

theorem isSegment_data : IsSegment "data" := ⟨by decide, by decide, by decide, by decide⟩

end CaveHome.Orchestration
