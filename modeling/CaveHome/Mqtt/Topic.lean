import CaveHome.Lib.Dict
import CaveHome.Mqtt.Wire
import Mathlib.Data.List.Basic

/-!
# Topics

Topic names, topic filters and when a filter matches a name.  A topic is cut into levels at `/`.
-/

namespace CaveHome.Mqtt

abbrev Level := List Char

/-- `#`, for the levels from here on, and `+`, for exactly one level. -/
def Level.multi : Level := ['#']
def Level.single : Level := ['+']

def levels (s : String) : List Level := s.toList.splitOn '/'

/-- A topic name is not empty and holds no wildcard and no null character. -/
def validTopicName (name : String) : Bool :=
  !name.toList.isEmpty && !name.toList.contains '+' && !name.toList.contains '#' &&
    !name.toList.contains '\x00'

/-- A wildcard of a topic filter takes a whole level, `#` the last one. -/
def validTopicFilter (filter : String) : Bool :=
  if filter.toList.isEmpty || filter.toList.contains '\x00' then false
  else
    let last := (levels filter).length - 1
    (levels filter).zipIdx.all fun (level, i) =>
      !(level.contains '#' && (level != .multi || i != last)) &&
        !(level.contains '+' && level != .single)

/-- The loop over the levels of a filter and of a topic. -/
def matchLevels : List Level → List Level → Bool
  | [], ts => ts.isEmpty
  | f :: fs, ts =>
    if f = .multi then true
    else if f = .single then
      match ts with
      | [] => false
      | _ :: ts => matchLevels fs ts
    else
      match ts with
      | [] => false
      | t :: ts => t == f && matchLevels fs ts

/-- A wildcard in front does not match a topic that starts with `$`. -/
def shielded (fs ts : List Level) : Bool :=
  (fs.head? == some .multi || fs.head? == some .single) &&
    ts.head?.any fun first => first.head? == some '$'

/-- Does the filter match the topic? -/
def topicMatches (filter topic : String) : Bool :=
  !shielded (levels filter) (levels topic) && matchLevels (levels filter) (levels topic)

example : topicMatches "sport/#" "sport" = true ∧ topicMatches "#" "$SYS/broker" = false := by
  decide

/-!
## When a filter matches a topic

`Matches` is the meaning of a topic filter, level by level: a literal level matches itself, `+`
matches exactly one level and `#` at the end matches whatever is left, nothing included.  On the
filters a client may subscribe with, where `#` is nowhere but at the end, the loop of
`topicMatches` decides `Matches`, apart from the topics that start with `$`.
-/

namespace Level

/-- Does the level take more than itself? -/
def Wild (l : Level) : Prop := l = multi ∨ l = single

instance (l : Level) : Decidable l.Wild := inferInstanceAs (Decidable (_ ∨ _))

theorem not_wild {l : Level} : ¬ l.Wild ↔ l ≠ multi ∧ l ≠ single := by
  simp [Wild]

/-- Does the level start with `$`? -/
def Dollar (l : Level) : Prop := l.head? = some '$'

instance (l : Level) : Decidable l.Dollar := inferInstanceAs (Decidable (_ = _))

end Level

/-- The levels of a filter match the levels of a topic. -/
inductive Matches : List Level → List Level → Prop where
  | done : Matches [] []
  | literal {l : Level} {fs ts : List Level} (h : ¬ l.Wild) (rest : Matches fs ts) :
      Matches (l :: fs) (l :: ts)
  | single {t : Level} {fs ts : List Level} (rest : Matches fs ts) :
      Matches (.single :: fs) (t :: ts)
  | multi (ts : List Level) : Matches [.multi] ts

/-- `#` is nowhere but at the end. -/
def MultiLast (fs : List Level) : Prop := ∀ gs hs, fs = gs ++ .multi :: hs → hs = []

theorem MultiLast.tail {f : Level} {fs : List Level} (h : MultiLast (f :: fs)) : MultiLast fs :=
  fun gs hs e => h (f :: gs) hs (by rw [e, List.cons_append])

theorem MultiLast.of_multi {fs : List Level} (h : MultiLast (.multi :: fs)) : fs = [] :=
  h [] fs rfl

theorem multiLast_of_valid {filter : String} (h : validTopicFilter filter = true) :
    MultiLast (levels filter) := by
  intro gs hs e
  rw [validTopicFilter] at h
  split at h
  · cases h
  · have hmem : (Level.multi, gs.length) ∈ (levels filter).zipIdx := by
      rw [List.mem_zipIdx_iff_getElem?]
      simp [e]
    have hlevel := List.all_eq_true.mp h _ hmem
    have hlast : gs.length = (levels filter).length - 1 := by
      by_contra hne
      simp [Level.multi, hne] at hlevel
    rw [e, List.length_append, List.length_cons] at hlast
    exact List.length_eq_zero_iff.mp (by omega)

/-! ## The loop -/

theorem matchLevels_iff {fs : List Level} (h : MultiLast fs) (ts : List Level) :
    matchLevels fs ts = true ↔ Matches fs ts := by
  induction fs generalizing ts with
  | nil =>
    rw [matchLevels, List.isEmpty_iff]
    constructor
    · rintro rfl
      exact .done
    · intro e
      cases e with
      | done => rfl
  | cons f fs ih =>
    by_cases hm : f = .multi
    · subst hm
      obtain rfl := h.of_multi
      simp only [matchLevels, if_true, true_iff]
      exact .multi ts
    by_cases hs : f = .single
    · subst hs
      simp only [matchLevels, if_neg hm, if_true]
      cases ts with
      | nil =>
        refine ⟨fun e => absurd e Bool.false_ne_true, fun e => ?_⟩
        cases e
      | cons t ts =>
        rw [ih h.tail]
        refine ⟨.single, fun e => ?_⟩
        cases e with
        | literal hl _ => exact absurd (.inr rfl) hl
        | single rest => exact rest
    · simp only [matchLevels, if_neg hm, if_neg hs]
      cases ts with
      | nil =>
        refine ⟨fun e => absurd e Bool.false_ne_true, fun e => ?_⟩
        cases e with
        | multi => exact absurd rfl hm
      | cons t ts =>
        rw [Bool.and_eq_true, beq_iff_eq, ih h.tail]
        constructor
        · rintro ⟨rfl, rest⟩
          exact .literal (Level.not_wild.mpr ⟨hm, hs⟩) rest
        · intro e
          cases e with
          | literal _ rest => exact ⟨rfl, rest⟩
          | single _ => exact absurd rfl hs
          | multi => exact absurd rfl hm

theorem shielded_iff (fs ts : List Level) :
    shielded fs ts = true ↔ (∃ f ∈ fs.head?, f.Wild) ∧ ∃ t ∈ ts.head?, t.Dollar := by
  cases fs <;> cases ts <;> simp [shielded, Level.Wild, Level.Dollar]

/-- The code matches a valid filter as the relation says, and keeps a wildcard in front away from
the topics that start with `$`. -/
theorem topicMatches_iff_matches {filter : String} (hf : validTopicFilter filter = true)
    (topic : String) :
    topicMatches filter topic = true ↔ Matches (levels filter) (levels topic) ∧
      ¬ ((∃ f ∈ (levels filter).head?, f.Wild) ∧ ∃ t ∈ (levels topic).head?, t.Dollar) := by
  rw [topicMatches, Bool.and_eq_true, Bool.not_eq_true', ← Bool.not_eq_true, shielded_iff,
    matchLevels_iff (multiLast_of_valid hf), and_comm]

/-- A filter with both wildcards, on a topic without the levels that `#` may take. -/
theorem topicMatches_parent :
    validTopicFilter "+/tennis/#" = true ∧ (topicMatches "+/tennis/#" "sport/tennis" = true ↔
      Matches (levels "+/tennis/#") (levels "sport/tennis") ∧
        ¬ ((∃ f ∈ (levels "+/tennis/#").head?, f.Wild) ∧
          ∃ t ∈ (levels "sport/tennis").head?, t.Dollar)) :=
  ⟨by decide, topicMatches_iff_matches (by decide) _⟩

end CaveHome.Mqtt

/-!
## Authentication and topic rules

Who may connect, and an ordered list of rules on topics of which the first that matches decides.
-/

namespace CaveHome.Mqtt

/-- The operation a rule governs. -/
inductive AclAction
  | publish
  | subscribe
  deriving DecidableEq

/-- A rule; without a user it is for everyone, without an action for both. -/
structure AclRule where
  username : Option String
  action : Option AclAction
  topic : String
  allow : Bool
  deriving DecidableEq

structure Authenticator where
  credentials : Dict String Bytes := ∅
  allowAnonymous : Bool := false
  defaultAllow : Bool := false
  rules : List AclRule := []

namespace Authenticator

def setAnonymous (a : Authenticator) (allow : Bool) : Authenticator :=
  { a with allowAnonymous := allow }

def setDefaultAllow (a : Authenticator) (allow : Bool) : Authenticator :=
  { a with defaultAllow := allow }

def addUser (a : Authenticator) (username : String) (password : Bytes) : Authenticator :=
  { a with credentials := a.credentials.insert username password }

def pushRule (a : Authenticator) (username : Option String) (action : Option AclAction)
    (topic : String) (allow : Bool) : Authenticator :=
  { a with rules := a.rules ++ [⟨username, action, topic, allow⟩] }

def allow (a : Authenticator) (username : String) (action : AclAction) (topic : String) :
    Authenticator :=
  a.pushRule (some username) (some action) topic true

def deny (a : Authenticator) (username : String) (action : AclAction) (topic : String) :
    Authenticator :=
  a.pushRule (some username) (some action) topic false

def allowAny (a : Authenticator) (action : AclAction) (topic : String) : Authenticator :=
  a.pushRule none (some action) topic true

/-- Without a user name the client is anonymous. -/
def authenticate (a : Authenticator) (username : Option String) (password : Option Bytes) : Bool :=
  match username with
  | none => a.allowAnonymous
  | some user =>
    match a.credentials.lookup user with
    | some stored => password == some stored
    | none => false

end Authenticator

/-- Does the rule apply to this operation? -/
def AclRule.applies (rule : AclRule) (username : Option String) (action : AclAction)
    (topic : String) : Bool :=
  let userOk :=
    match rule.username with
    | none => true
    | some u => some u == username
  let actionOk := rule.action.all (· == action)
  userOk && actionOk && topicMatches rule.topic topic

namespace Authenticator

/-- The first rule that applies decides. -/
def authorize (a : Authenticator) (username : Option String) (action : AclAction)
    (topic : String) : Bool :=
  match a.rules.find? (·.applies username action topic) with
  | some rule => rule.allow
  | none => a.defaultAllow

/-- The user may subscribe to every topic that the filter matches. -/
def Covers (a : Authenticator) (username : Option String) (filter : String) : Prop :=
  ∀ topic, topicMatches filter topic = true → a.authorize username .subscribe topic = true

end Authenticator

end CaveHome.Mqtt
