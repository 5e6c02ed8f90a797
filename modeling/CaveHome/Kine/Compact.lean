import CaveHome.Kine.Store

/-!
# Compaction

Compacting to a revision drops every row at or below it, except the newest row of a key when that
row is live, and moves the floor there.  `compact_cases` says what a call does to the store.
-/

namespace CaveHome.Kine

/-- Outcome of a compaction. -/
structure CompactReport where
  compacted : Int
  removed : Nat
  remaining : Nat
  deriving DecidableEq

/-- Raise the recorded revision of the row's key, or record the key. -/
def noteLatest (row : Row) : List (Bytes × Int) → List (Bytes × Int)
  | [] => [(row.key, row.modRevision)]
  | (k, rev) :: out =>
    if k = row.key then (k, if rev < row.modRevision then row.modRevision else rev) :: out
    else (k, rev) :: noteLatest row out

/-- The revision of the newest row of every key. -/
def latestRowRevisionPerKey (rows : List Row) : List (Bytes × Int) :=
  rows.foldl (fun out row => noteLatest row out) []

/-- Whether a row is the newest one of its key. -/
def isLatest (survivors : List (Bytes × Int)) (r : Row) : Bool :=
  survivors.any fun p => decide (p.1 = r.key) && decide (p.2 = r.modRevision)

/-- Whether compaction to `target` keeps a row: it lies above the floor, or it is the newest row of
its key and live. -/
def retains (survivors : List (Bytes × Int)) (target : Int) (r : Row) : Bool :=
  if r.modRevision > target then true
  else if isLatest survivors r then r.isLive
  else false

/-- Compact the store up to and including `target`. -/
def compact (s : Store) (target : Int) : Result CompactReport × Store :=
  if target < 0 then (.error (.negativeRevision target), s)
  else if target > s.currentRevision then
    (.error (.compactFutureRevision target s.currentRevision), s)
  else if target ≤ s.compactedRevision then
    (.error (.compactionNotForward target s.compactedRevision), s)
  else
    let survivors := latestRowRevisionPerKey s.rows
    let kept := s.rows.filter (retains survivors target)
    (.ok { compacted := target, removed := s.rows.length - kept.length, remaining := kept.length },
      s.installCompacted kept target)

/-! ## The newest rows -/

theorem map_fst_noteLatest (row : Row) (out : List (Bytes × Int)) :
    (noteLatest row out).map Prod.fst =
      if row.key ∈ out.map Prod.fst then out.map Prod.fst else out.map Prod.fst ++ [row.key] := by
  induction out with
  | nil => simp [noteLatest]
  | cons p out ih =>
    obtain ⟨k, v⟩ := p
    by_cases h : k = row.key
    · simp [noteLatest, h]
    · simp only [noteLatest, if_neg h, List.map_cons, ih, List.mem_cons, Ne.symm h, false_or]
      split_ifs <;> rfl

theorem mem_noteLatest {row : Row} {out : List (Bytes × Int)} (hn : (out.map Prod.fst).Nodup)
    {p : Bytes × Int} (hp : p ∈ noteLatest row out) :
    (p.1 ≠ row.key ∧ p ∈ out) ∨
      (p.1 = row.key ∧ (p.2 = row.modRevision ∨ p ∈ out) ∧ row.modRevision ≤ p.2 ∧
        ∀ q ∈ out, q.1 = row.key → q.2 ≤ p.2) := by
  induction out with
  | nil =>
    obtain rfl := List.mem_singleton.1 hp
    exact Or.inr ⟨rfl, Or.inl rfl, le_rfl, by simp⟩
  | cons a out ih =>
    obtain ⟨k, v⟩ := a
    obtain ⟨hk, hn⟩ := List.nodup_cons.1 hn
    have hfresh : ∀ q ∈ out, q.1 ≠ k := by
      intro q hq hqk
      exact hk (List.mem_map.2 ⟨q, hq, hqk⟩)
    unfold noteLatest at hp
    by_cases h : k = row.key
    · rw [if_pos h] at hp
      subst h
      rcases List.mem_cons.1 hp with rfl | hp
      · refine Or.inr ⟨rfl, ?_, ?_, ?_⟩
        · split_ifs <;> simp
        · dsimp only
          split_ifs <;> omega
        · intro q hq hqk
          rcases List.mem_cons.1 hq with rfl | hq
          · dsimp only
            split_ifs <;> omega
          · exact absurd hqk (hfresh q hq)
      · exact Or.inl ⟨hfresh p hp, List.mem_cons_of_mem _ hp⟩
    · rw [if_neg h] at hp
      rcases List.mem_cons.1 hp with rfl | hp
      · exact Or.inl ⟨h, List.mem_cons_self⟩
      rcases ih hn hp with ⟨h1, h2⟩ | ⟨h1, h2, h3, h4⟩
      · exact Or.inl ⟨h1, List.mem_cons_of_mem _ h2⟩
      · refine Or.inr ⟨h1, h2.imp_right (List.mem_cons_of_mem _), h3, ?_⟩
        intro q hq hqk
        rcases List.mem_cons.1 hq with rfl | hq
        · exact absurd hqk h
        · exact h4 q hq hqk

/-- What `latestRowRevisionPerKey` has recorded after the rows `rows`. -/
structure Noted (rows : List Row) (out : List (Bytes × Int)) : Prop where
  nodup : (out.map Prod.fst).Nodup
  attained : ∀ p ∈ out, ∃ r ∈ rows, r.key = p.1 ∧ r.modRevision = p.2
  bound : ∀ p ∈ out, ∀ r ∈ rows, r.key = p.1 → r.modRevision ≤ p.2
  total : ∀ r ∈ rows, ∃ p ∈ out, p.1 = r.key

theorem Noted.noteLatest {rows : List Row} {out : List (Bytes × Int)} (h : Noted rows out)
    (a : Row) : Noted (rows ++ [a]) (noteLatest a out) := by
  have hkeys := map_fst_noteLatest a out
  have hmem : ∀ k, k ∈ out.map Prod.fst ∨ k = a.key →
      ∃ p ∈ Kine.noteLatest a out, p.1 = k := by
    intro k hk
    suffices k ∈ (Kine.noteLatest a out).map Prod.fst by simpa using this
    rw [hkeys]
    split_ifs with ha
    · rcases hk with hk | rfl
      · exact hk
      · exact ha
    · simpa using hk
  refine ⟨?_, ?_, ?_, ?_⟩
  · rw [hkeys]
    split_ifs with ha
    · exact h.nodup
    · exact List.nodup_append.2 ⟨h.nodup, List.nodup_singleton _, by
        rintro x hx y hy rfl
        exact ha (List.mem_singleton.1 hy ▸ hx)⟩
  · intro p hp
    have old : p ∈ out → ∃ r ∈ rows ++ [a], r.key = p.1 ∧ r.modRevision = p.2 := fun hp =>
      let ⟨r, hr, hrp⟩ := h.attained p hp
      ⟨r, List.mem_append_left _ hr, hrp⟩
    rcases mem_noteLatest h.nodup hp with ⟨-, hp⟩ | ⟨hk, hv | hp, -, -⟩
    · exact old hp
    · exact ⟨a, by simp, hk.symm, hv.symm⟩
    · exact old hp
  · intro p hp r hr hrk
    rcases mem_noteLatest h.nodup hp with ⟨hk, hp⟩ | ⟨hk, -, ha, hq⟩
    · rcases List.mem_append.1 hr with hr | hr
      · exact h.bound p hp r hr hrk
      · obtain rfl := List.mem_singleton.1 hr
        exact absurd hrk.symm hk
    · rcases List.mem_append.1 hr with hr | hr
      · obtain ⟨q, hq', hqk⟩ := h.total r hr
        have hqa : q.1 = a.key := by rw [hqk, hrk, hk]
        exact (h.bound q hq' r hr hqk.symm).trans (hq q hq' hqa)
      · obtain rfl := List.mem_singleton.1 hr
        exact ha
  · intro r hr
    refine hmem r.key ?_
    rcases List.mem_append.1 hr with hr | hr
    · obtain ⟨p, hp, hpk⟩ := h.total r hr
      exact Or.inl (hpk ▸ List.mem_map_of_mem hp)
    · obtain rfl := List.mem_singleton.1 hr
      exact Or.inr rfl

theorem noted_latestRowRevisionPerKey (rows : List Row) :
    Noted rows (latestRowRevisionPerKey rows) := by
  induction rows using List.reverseRecOn with
  | nil => exact ⟨by simp [latestRowRevisionPerKey], by simp [latestRowRevisionPerKey],
      by simp [latestRowRevisionPerKey], by simp⟩
  | append_singleton rows a ih =>
    simpa [latestRowRevisionPerKey] using ih.noteLatest a

theorem isLatest_iff {rows : List Row} {r : Row} (hr : r ∈ rows) :
    isLatest (latestRowRevisionPerKey rows) r = true ↔
      ∀ q ∈ rows, q.key = r.key → q.modRevision ≤ r.modRevision := by
  have hN := noted_latestRowRevisionPerKey rows
  simp only [isLatest, List.any_eq_true, Bool.and_eq_true, decide_eq_true_eq]
  constructor
  · rintro ⟨p, hp, hk, hv⟩ q hq hqk
    rw [← hv]
    exact hN.bound p hp q hq (hqk.trans hk.symm)
  · intro h
    obtain ⟨p, hp, hk⟩ := hN.total r hr
    obtain ⟨q, hq, hqk, hqv⟩ := hN.attained p hp
    have h1 := hN.bound p hp r hr hk.symm
    have h2 := h q hq (hqk.trans hk)
    exact ⟨p, hp, hk, by omega⟩

/-- `s'` is `s` compacted to `target`. -/
structure Compacts (s : Store) (target : Int) (s' : Store) : Prop where
  le_current : target ≤ s.currentRevision
  forward : s.compacted < target
  rows : s'.rows = s.rows.filter (retains (latestRowRevisionPerKey s.rows) target)
  clock : s'.clock = s.clock
  compacted : s'.compacted = target

theorem Compacts.current_eq {s s' : Store} {target : Int} (h : Compacts s target s') :
    s'.currentRevision = s.currentRevision := congrArg Clock.current h.clock

theorem compact_cases (s : Store) (target : Int) :
    ((∃ e, (compact s target).1 = .error e) ∧ (compact s target).2 = s) ∨
      ((∃ report, (compact s target).1 = .ok report) ∧
        Compacts s target (compact s target).2) := by
  unfold compact
  split_ifs with h1 h2 h3
  · exact Or.inl ⟨⟨_, rfl⟩, rfl⟩
  · exact Or.inl ⟨⟨_, rfl⟩, rfl⟩
  · exact Or.inl ⟨⟨_, rfl⟩, rfl⟩
  · exact Or.inr ⟨⟨_, rfl⟩, not_lt.1 h2, not_le.1 h3, rfl, rfl, rfl⟩

theorem retains_iff {s : Store} {target : Int} {r : Row} (hr : r ∈ s.rows) :
    retains (latestRowRevisionPerKey s.rows) target r = true ↔
      target < r.modRevision ∨
        r.isLive = true ∧ ∀ q ∈ s.rows, q.key = r.key → q.modRevision ≤ r.modRevision := by
  rw [← isLatest_iff hr]
  unfold retains
  split_ifs with h1 h2
  · simp [h1]
  · simp [h1, h2]
  · simp [h1, h2]

end CaveHome.Kine
