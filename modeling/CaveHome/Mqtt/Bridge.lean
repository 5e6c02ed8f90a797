import CaveHome.Lib.Text
import CaveHome.Mqtt.Topic

/-!
# The bridge to another broker

A rule names a pattern, a direction and a prefix for each side.  The bridge subscribes to the
pattern under the prefix of the side that messages come from, and renames a topic by putting the
prefix of the other side in place of it.  The first rule that matches decides, and a topic it
matches need not begin with its prefix: `topicMatches_under` says when it does not.
-/

namespace CaveHome.Mqtt

/-! ## Rules -/

/-- Where messages flow: out to the other broker, in from it, or both. -/
inductive Direction
  | out
  | into
  | both
  deriving DecidableEq

namespace Direction

def flowsOut (d : Direction) : Bool := d = out || d = both

def flowsIn (d : Direction) : Bool := d = into || d = both

end Direction

structure TopicRule where
  pattern : String
  direction : Direction
  localPrefix : String := ""
  remotePrefix : String := ""

structure BridgeConfig where
  rules : List TopicRule

/-- One way across the bridge: the rules for it, the prefix on the side that messages come from and
the one on the side they go to. -/
structure Crossing where
  flows : Direction → Bool
  source : TopicRule → String
  target : TopicRule → String

namespace Crossing

variable (x : Crossing)

def filter (r : TopicRule) : String := x.source r ++ r.pattern

def subscriptions (rules : List TopicRule) : List String :=
  (rules.filter fun r => x.flows r.direction).map x.filter

/-- The name of a topic on the other side. -/
def map : List TopicRule → String → Option String
  | [], _ => none
  | r :: rules, topic =>
    if !x.flows r.direction then map rules topic
    else if topicMatches (x.filter r) topic then
      (Text.dropPrefix? (x.source r) topic).map fun stem => x.target r ++ stem
    else map rules topic

/-- The rule that decides for a topic. -/
def decides (rules : List TopicRule) (topic : String) : Option TopicRule :=
  rules.find? fun r => x.flows r.direction && topicMatches (x.filter r) topic

def outbound : Crossing := ⟨Direction.flowsOut, TopicRule.localPrefix, TopicRule.remotePrefix⟩

def inbound : Crossing := ⟨Direction.flowsIn, TopicRule.remotePrefix, TopicRule.localPrefix⟩

end Crossing

namespace BridgeConfig

variable (cfg : BridgeConfig)

def localSubscriptions : List String := Crossing.outbound.subscriptions cfg.rules

def remoteSubscriptions : List String := Crossing.inbound.subscriptions cfg.rules

def mapLocalToRemote (topic : String) : Option String := Crossing.outbound.map cfg.rules topic

def mapRemoteToLocal (topic : String) : Option String := Crossing.inbound.map cfg.rules topic

end BridgeConfig

/-! ## A filter under a prefix -/

theorem matchLevels_cons_literal {f : Level} {fs ts : List Level} (hf : ¬ f.Wild) :
    matchLevels (f :: fs) ts = true ↔ ∃ ts', ts = f :: ts' ∧ matchLevels fs ts' = true := by
  obtain ⟨hm, hs⟩ := Level.not_wild.mp hf
  cases ts with
  | nil => simp [matchLevels, hm, hs]
  | cons t ts => simp [matchLevels, hm, hs]

theorem matchLevels_nil_right {f : Level} {fs : List Level} (h : matchLevels (f :: fs) [] = true) :
    f = .multi := by
  by_contra hm
  by_cases hs : f = .single
  · subst hs
    simp [matchLevels, hm] at h
  · simp [matchLevels, hm, hs] at h

theorem eq_nil_of_wild {p h : List Char} (hp : '+' ∉ p ∧ '#' ∉ p) (hw : Level.Wild (p ++ h)) :
    p = [] := by
  cases p with
  | nil => rfl
  | cons c p => obtain e | e := hw <;> simp_all [Level.multi, Level.single]

theorem firstLevel_isPrefix {t l : List Char} {ts : List Level} (h : t.splitOn '/' = l :: ts) :
    l <+: t := by
  by_cases ht : '/' ∈ t
  · obtain ⟨a, t', rfl, ha⟩ := List.eq_append_cons_of_mem ht
    rw [List.splitOn_append_cons_self_of_not_mem ha] at h
    obtain ⟨rfl, -⟩ := List.cons.inj h
    exact ⟨_, rfl⟩
  · rw [List.splitOn_eq_singleton ht] at h
    obtain ⟨rfl, -⟩ := List.cons.inj h
    exact List.prefix_rfl

theorem splitOn_append_of_not_mem {p : List Char} (hp : '/' ∉ p) (q : List Char) :
    ∃ h fs, (p ++ q).splitOn '/' = (p ++ h) :: fs := by
  by_cases hq : '/' ∈ q
  · obtain ⟨b, q', rfl, hb⟩ := List.eq_append_cons_of_mem hq
    refine ⟨b, q'.splitOn '/', ?_⟩
    rw [← List.append_assoc, List.splitOn_append_cons_self_of_not_mem (by simp [hp, hb])]
  · exact ⟨q, [], List.splitOn_eq_singleton (by simp [hp, hq])⟩

theorem matchLevels_under {p q t : List Char} (hp : '+' ∉ p ∧ '#' ∉ p)
    (h : matchLevels ((p ++ q).splitOn '/') (t.splitOn '/') = true) :
    p <+: t ∨ p = t ++ ['/'] := by
  induction hn : p.length using Nat.strongRecOn generalizing p t with
  | _ n ih =>
    by_cases hslash : '/' ∈ p
    · -- the first level of the text stands alone
      obtain ⟨a, p', rfl, ha⟩ := List.eq_append_cons_of_mem hslash
      simp only [List.mem_append, List.mem_cons, not_or] at hp
      obtain ⟨⟨hpa, -, hps⟩, hma, -, hms⟩ := hp
      have hlit : ¬ Level.Wild a := fun hw => by
        obtain rfl | rfl := hw
        · exact hma List.mem_cons_self
        · exact hpa List.mem_cons_self
      rw [List.append_assoc, List.cons_append, List.splitOn_append_cons_self_of_not_mem ha,
        matchLevels_cons_literal hlit] at h
      obtain ⟨ts, hts, h⟩ := h
      by_cases ht : '/' ∈ t
      · obtain ⟨b, t', rfl, hb⟩ := List.eq_append_cons_of_mem ht
        rw [List.splitOn_append_cons_self_of_not_mem hb] at hts
        obtain ⟨rfl, rfl⟩ := List.cons.inj hts
        have hlen : p'.length < n := by
          rw [← hn, List.length_append, List.length_cons]
          omega
        obtain hpre | rfl := ih _ hlen ⟨hps, hms⟩ h rfl
        · exact .inl (List.prefix_append_right_inj b |>.mpr (List.cons_prefix_cons.mpr ⟨rfl, hpre⟩))
        · exact .inr (by simp)
      · rw [List.splitOn_eq_singleton ht] at hts
        obtain ⟨rfl, rfl⟩ := List.cons.inj hts
        -- what is left of the filter matches no level at all
        refine .inr ?_
        by_cases hslash' : '/' ∈ p'
        · obtain ⟨b, p'', rfl, hb⟩ := List.eq_append_cons_of_mem hslash'
          rw [List.append_assoc, List.cons_append, List.splitOn_append_cons_self_of_not_mem hb] at h
          exact absurd (matchLevels_nil_right h ▸ List.mem_cons_self) fun hb' =>
            hms (List.mem_append_left _ hb')
        · obtain ⟨l, fs, hl⟩ := splitOn_append_of_not_mem hslash' q
          rw [hl] at h
          rw [eq_nil_of_wild ⟨hps, hms⟩ (.inl (matchLevels_nil_right h))]
    · obtain ⟨l, fs, hl⟩ := splitOn_append_of_not_mem hslash q
      rw [hl] at h
      by_cases hw : Level.Wild (p ++ l)
      · rw [eq_nil_of_wild hp hw]
        exact .inl List.nil_prefix
      · obtain ⟨ts, hts, -⟩ := (matchLevels_cons_literal hw).mp h
        exact .inl ((List.prefix_append p l).trans (firstLevel_isPrefix hts))

/-! ## What the bridge maps -/

/-- The topic is not under the prefix, although a filter under the prefix may match it: the topic is
the parent of all that is under it, or the prefix has a wildcard in it. -/
def Strays (p topic : String) : Prop :=
  p = topic ++ "/" ∨ ('+' ∈ p.toList ∨ '#' ∈ p.toList) ∧ ¬ p.toList <+: topic.toList

theorem topicMatches_under {p pattern topic : String}
    (h : topicMatches (p ++ pattern) topic = true) :
    (Text.dropPrefix? p topic).isSome ↔ ¬ Strays p topic := by
  have hdrop : (Text.dropPrefix? p topic).isSome ↔ p.toList <+: topic.toList := by
    rw [Text.dropPrefix?, ← List.isPrefixOf_iff_prefix]
    split <;> simp_all
  rw [topicMatches, Bool.and_eq_true, levels, levels, String.toList_append] at h
  rw [hdrop]
  constructor
  · rintro hpre (rfl | ⟨-, hnot⟩)
    · have hlen := hpre.length_le
      rw [String.toList_append, List.length_append] at hlen
      exact absurd hlen (by simp)
    · exact hnot hpre
  · intro hstays
    rw [Strays, not_or, not_and] at hstays
    by_cases hwild : '+' ∈ p.toList ∨ '#' ∈ p.toList
    · exact not_not.mp (hstays.2 hwild)
    · refine (matchLevels_under (not_or.mp hwild) h.2).resolve_right fun e => hstays.1 ?_
      rw [← String.toList_inj, e, String.toList_append]
      rfl

namespace Crossing

variable {x : Crossing} {rules : List TopicRule} {topic : String}

theorem map_eq (x : Crossing) (rules : List TopicRule) (topic : String) :
    x.map rules topic = (x.decides rules topic).bind fun r =>
      (Text.dropPrefix? (x.source r) topic).map fun stem => x.target r ++ stem := by
  induction rules with
  | nil => rfl
  | cons r rules ih =>
    rw [map, decides, List.find?_cons]
    cases hflows : x.flows r.direction with
    | false => exact ih
    | true =>
      cases hmatch : topicMatches (x.filter r) topic with
      | false => exact ih
      | true => rfl

theorem decides_isSome : (x.decides rules topic).isSome ↔
    ∃ f ∈ x.subscriptions rules, topicMatches f topic = true := by
  simp only [decides, List.find?_isSome, subscriptions, List.mem_map, List.mem_filter,
    Bool.and_eq_true]
  constructor
  · rintro ⟨r, hr, hflows, hmatch⟩
    exact ⟨_, ⟨r, ⟨hr, hflows⟩, rfl⟩, hmatch⟩
  · rintro ⟨_, ⟨r, ⟨hr, hflows⟩, rfl⟩, hmatch⟩
    exact ⟨r, hr, hflows, hmatch⟩

theorem maps_iff : ((∃ f ∈ x.subscriptions rules, topicMatches f topic = true) →
    (x.map rules topic).isSome) ↔ ∀ r ∈ x.decides rules topic, ¬ Strays (x.source r) topic := by
  rw [← decides_isSome, map_eq]
  cases hr : x.decides rules topic with
  | none => simp
  | some r =>
    have hmatch : topicMatches (x.source r ++ r.pattern) topic = true :=
      (Bool.and_eq_true _ _ ▸ List.find?_some hr).2
    simpa using topicMatches_under hmatch

end Crossing

/-- The bridge maps a topic that it subscribes to, on either side, exactly when the topic does not
stray from the prefix of the first rule that matches it. -/
theorem maps_subscribed_iff (cfg : BridgeConfig) (topic : String) :
    ((∃ f ∈ cfg.localSubscriptions, topicMatches f topic = true) →
        (cfg.mapLocalToRemote topic).isSome) ∧
      ((∃ f ∈ cfg.remoteSubscriptions, topicMatches f topic = true) →
        (cfg.mapRemoteToLocal topic).isSome) ↔
    (∀ r ∈ Crossing.outbound.decides cfg.rules topic, ¬ Strays r.localPrefix topic) ∧
      ∀ r ∈ Crossing.inbound.decides cfg.rules topic, ¬ Strays r.remotePrefix topic :=
  and_congr Crossing.maps_iff Crossing.maps_iff

/-- The topic `home` is the parent of all that is under `home/`. -/
theorem maps_subscribed_home : ¬ ∀ (cfg : BridgeConfig) (topic : String),
    ((∃ f ∈ cfg.localSubscriptions, topicMatches f topic = true) →
        (cfg.mapLocalToRemote topic).isSome) ∧
      ((∃ f ∈ cfg.remoteSubscriptions, topicMatches f topic = true) →
        (cfg.mapRemoteToLocal topic).isSome) := by
  intro h
  have hhome := (h ⟨[⟨"#", .out, "home/", "cloud/"⟩]⟩ "home").1
    ⟨"home/#", List.mem_singleton.mpr rfl, by decide⟩
  exact absurd hhome (by decide)

end CaveHome.Mqtt
