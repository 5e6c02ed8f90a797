import CaveHome.Kine.Range
import CaveHome.Lib.SqlLike

/-!
# Helpers of the SQL backends

Key validation, the `LIKE` pattern that preselects the rows of an interval, and the resolution of a
read revision.  `like_likePattern` says when the preselection keeps every key of the interval.
-/

namespace CaveHome.Kine

/-- The text a key is stored as; empty keys and keys that are not UTF-8 are rejected. -/
def keyStr (key : Bytes) : Result String :=
  if key.isEmpty then .error .emptyKey
  else match Bytes.toString? key with
    | some s => .ok s
    | none => .error (.backend "key is not valid UTF-8")

/-- The shared leading bytes of two keys. -/
def commonPrefix : Bytes → Bytes → Bytes
  | a :: as, b :: bs => if a = b then a :: commonPrefix as bs else []
  | _, _ => []

/-- The pattern of a request: exact for a point get, the broadest safe prefix for an explicit
interval. -/
def likePattern (req : RangeRequest) : String :=
  match req.rangeEnd with
  | .single => Bytes.toStringLossy req.key
  | .prefixScan => Bytes.toStringLossy req.key ++ "%"
  | .allKeys => "%"
  | .explicit e => Bytes.toStringLossy (commonPrefix req.key e) ++ "%"

/-- Whether a key lies in the interval of the request. -/
def backendContains (req : RangeRequest) (candidate : Bytes) : Bool :=
  match req.rangeEnd with
  | .single => decide (candidate = req.key)
  | .prefixScan => req.key.isPrefixOf candidate
  | .allKeys => true
  | .explicit e => decide (req.key ≤ candidate) && decide (candidate < e)

/-- The checks of a request. -/
def validateRange (req : RangeRequest) : Result Unit :=
  if req.limit < 0 then .error (.negativeLimit req.limit)
  else match req.rangeEnd with
    | .allKeys => .ok ()
    | .single | .prefixScan => if req.key.isEmpty then .error .emptyKey else .ok ()
    | .explicit e =>
      if req.key.isEmpty then .error .emptyKey
      else if e ≤ req.key then .error .invalidRange
      else .ok ()

/-- The revision a read is served at, below the header. -/
def resolveRead (requested header : Int) : Result Int :=
  if requested < 0 then .error (.negativeRevision requested)
  else if requested = 0 then .ok header
  else if requested > header then .error (.futureRevision requested header)
  else .ok requested

theorem backendContains_eq (req : RangeRequest) : backendContains req = req.contains := rfl

theorem validateRange_eq (req : RangeRequest) : validateRange req = validate req := rfl

theorem resolveRead_eq (requested : Int) (c : Clock) :
    resolveRead requested c.current = c.resolveRead requested := rfl

theorem keyStr_ok_iff {key : Bytes} {name : String} :
    keyStr key = .ok name ↔ key ≠ [] ∧ Bytes.ofString name = key := by
  unfold keyStr
  by_cases h : key = []
  · simp [h]
  · rw [if_neg (by simpa using h)]
    cases hs : Bytes.toString? key with
    | none =>
      simp only [reduceCtorEq, false_iff, not_and]
      intro _ hn
      rw [← Bytes.toString?_eq_some_iff, hs] at hn
      cases hn
    | some s =>
      rw [Bytes.toString?_eq_some_iff] at hs
      simp only [Except.ok.injEq, ne_eq, h, not_false_eq_true, true_and]
      exact ⟨fun he => he ▸ hs, fun hn => Bytes.ofString_injective (hs.trans hn.symm)⟩

/-- The part of the pattern before the wildcard is valid UTF-8, so that no byte of it is
replaced.  A point get has no wildcard. -/
def RangeRequest.patternExact (req : RangeRequest) : Bool :=
  match req.rangeEnd with
  | .single | .allKeys => true
  | .prefixScan => (Bytes.toString? req.key).isSome
  | .explicit e => (Bytes.toString? (commonPrefix req.key e)).isSome

theorem commonPrefix_isPrefix {lo hi c : Bytes} (h₁ : lo ≤ c) (h₂ : c < hi) :
    commonPrefix lo hi <+: c := by
  induction lo generalizing hi c with
  | nil => simp [commonPrefix]
  | cons a lo ih =>
    cases hi with
    | nil => simp [commonPrefix]
    | cons b hi =>
      unfold commonPrefix
      split_ifs with hab
      · subst hab
        cases c with
        | nil => exact absurd h₁ (not_le.2 List.Lex.nil)
        | cons d c =>
          have h₁' : ¬ (d < a ∨ d = a ∧ c < lo) := fun h =>
            absurd h₁ (not_le.2 (List.cons_lt_cons_iff.2 h))
          have h₂' : d < a ∨ d = a ∧ c < hi := List.cons_lt_cons_iff.1 h₂
          obtain ⟨rfl, hc⟩ : d = a ∧ c < hi := h₂'.resolve_left fun h => h₁' (Or.inl h)
          have hlo : lo ≤ c := not_lt.1 fun h => h₁' (Or.inr ⟨rfl, h⟩)
          exact List.cons_prefix_cons.2 ⟨rfl, ih hlo hc⟩
      · exact List.nil_prefix

theorem like_likePattern {req : RangeRequest} (hp : req.patternExact = true) {name : String}
    (hc : req.contains (Bytes.ofString name) = true) :
    SqlLike.like (likePattern req).toList name.toList = true := by
  have hpre : ∀ {b : Bytes}, (Bytes.toString? b).isSome = true → b <+: Bytes.ofString name →
      SqlLike.like (Bytes.toStringLossy b ++ "%").toList name.toList = true := by
    intro b hsome hpre
    obtain ⟨p, hb⟩ := Option.isSome_iff_exists.1 hsome
    rw [Bytes.toString?_eq_some_iff] at hb
    obtain ⟨rest, hrest⟩ := Bytes.isPrefix_of_ofString (hb ▸ hpre : Bytes.ofString p <+: _)
    rw [Bytes.toStringLossy_ofString (Bytes.toString?_eq_some_iff.2 hb), String.toList_append,
      ← hrest]
    exact SqlLike.like_append (SqlLike.like_percent rest) _
  unfold RangeRequest.patternExact at hp
  unfold RangeRequest.contains at hc
  unfold likePattern
  cases he : req.rangeEnd with
  | single =>
    simp only [he, decide_eq_true_eq] at hc ⊢
    rw [← hc, Bytes.toStringLossy_ofString (Bytes.toString?_ofString name)]
    exact SqlLike.like_self _
  | prefixScan =>
    simp only [he, List.isPrefixOf_iff_prefix] at hp hc ⊢
    exact hpre hp hc
  | allKeys =>
    have hpat : "%".toList = ['%'] := by decide
    simp only [hpat]
    exact SqlLike.like_percent _
  | explicit e =>
    simp only [he, Bool.and_eq_true, decide_eq_true_eq] at hp hc ⊢
    exact hpre hp (commonPrefix_isPrefix hc.1 hc.2)

end CaveHome.Kine
