import CaveHome.Mqtt.BrokerStep

/-!
# Where messages come from

A publish packet is routed after its topic name and the rules of its publisher are checked.  A will
is routed unchecked.  So when the wills that are published pass both checks, each message that is
retained or sent stems from a call of a client that was allowed to publish it.
-/

namespace CaveHome.Mqtt.Broker

variable {H : Type} [BrokerHook H] {b b' : Broker H}

/-- The call routed the message: its topic is well formed, and its publisher was allowed to publish
on it. -/
def Vetted (c : Call H) (m : Content) : Prop :=
  ∃ r ∈ c.before.routing c.event, r.content = m ∧ validTopicName m.topic = true ∧
    c.before.auth.authorize (c.before.username r.publisher) .publish m.topic = true

/-- The message stems from one of the calls, which vetted it. -/
def Originates (calls : List (Call H)) (m : Content) : Prop := ∃ c ∈ calls, Vetted c m

/-- If the call publishes a will, the will passes the checks that publish packets have to pass. -/
def WillPasses (b : Broker H) : Event → Prop
  | .networkDisconnect id =>
    ∀ w ∈ b.wills.lookup id, validTopicName w.topic = true ∧
      b.auth.authorize (b.username id) .publish w.topic = true
  | _ => True

instance {c : Call H} {m : Content} : Decidable (Vetted c m) :=
  inferInstanceAs (Decidable (∃ r ∈ c.before.routing c.event, _))

instance {calls : List (Call H)} {m : Content} : Decidable (Originates calls m) :=
  inferInstanceAs (Decidable (∃ c ∈ calls, _))

instance {e : Event} : Decidable (b.WillPasses e) :=
  match e with
  | .networkDisconnect _ => @Option.decidableForallMem _ _ (fun _ => instDecidableAnd) _
  | .connect _ => instDecidableTrue
  | .packet _ _ => instDecidableTrue

theorem Originates.append {calls more : List (Call H)} {m : Content} (h : Originates calls m) :
    Originates (calls ++ more) m := by
  obtain ⟨c, hc, hm⟩ := h
  exact ⟨c, List.mem_append_left more hc, hm⟩

theorem vetted_of_routes {e : Event} {m : Content} {actions : List Action}
    (hwill : b.WillPasses e) (h : b.Routes e m) : Vetted ⟨b, e, actions, b'⟩ m := by
  obtain ⟨r, hr, rfl⟩ := h
  refine ⟨r, hr, rfl, ?_⟩
  unfold routing at hr
  split at hr
  next id p =>
    rw [Option.ite_none_right_eq_some] at hr
    obtain ⟨⟨hvalid, -, hauth, -⟩, hr⟩ := hr
    obtain rfl := Option.some.inj hr
    exact ⟨hvalid, hauth⟩
  next id =>
    obtain ⟨w, hw, rfl⟩ := Option.map_eq_some_iff.mp hr
    exact hwill w hw
  next => cases hr

/-- All messages that the broker holds stem from the calls. -/
structure Traced (calls : List (Call H)) (b : Broker H) : Prop where
  retained : ∀ m, b.Retains m → Originates calls m
  queued : ∀ id s, b.sessions.lookup id = some s → ∀ p ∈ s.queued, Originates calls p.content

theorem Traced.step {calls : List (Call H)} {e : Event} {actions : List Action}
    (htraced : Traced calls b) (hwill : b.WillPasses e) (h : b.step e = some (b', actions)) :
    Traced (calls ++ [⟨b, e, actions, b'⟩]) b' ∧
      ∀ id p, .send id (.publish p) ∈ actions →
        Originates (calls ++ [⟨b, e, actions, b'⟩]) p.content := by
  have hroutes : ∀ m, b.Routes e m → Originates (calls ++ [⟨b, e, actions, b'⟩]) m :=
    fun m hm => ⟨⟨b, e, actions, b'⟩, by simp, vetted_of_routes hwill hm⟩
  have heffect := step_effect h
  refine ⟨⟨fun m hm => ?_, fun id s hs p hp => ?_⟩, fun id p hp => ?_⟩
  · obtain hm | hm := heffect.retained m hm
    · exact (htraced.retained m hm).append
    · exact hroutes m hm
  · have hold : ∀ s, b.sessions.lookup id = some s → ∀ p ∈ s.queued,
        Originates (calls ++ [⟨b, e, actions, b'⟩]) p.content :=
      fun s hs p hp => (htraced.queued id s hs p hp).append
    have hchange := step_change h id
    rw [hs] at hchange
    generalize ho : b.sessions.lookup id = o at hchange
    cases hchange with
    | @hand s₀ _ hgains =>
      exact (hgains.queuedFrom p hp).elim (hold s₀ ho p) (hroutes _)
    | connect he hid _ =>
      -- a resumed session has sent its queue, and a new one has none
      unfold opened at hp
      split at hp
      · cases hp
      · cases hp
    | @pubAck s₀ => exact hold s₀ ho p hp
    | @pubRec s₀ => exact hold s₀ ho p hp
    | @pubRel s₀ => exact hold s₀ ho p hp
    | @leave s₀ s₁ _ hgains _ =>
      exact (hgains.queuedFrom p hp).elim (hold s₀ ho p) (hroutes _)
  · obtain hp | hp | ⟨s, hs, hp⟩ := heffect.sends id p hp
    · exact hroutes _ hp
    · exact (htraced.retained _ hp).append
    · exact (htraced.queued id s hs p hp).append

theorem Trace.traced {config : BrokerConfig} {auth : Authenticator} {hook : Option H}
    {calls : List (Call H)} (htrace : Trace (new config auth hook) calls b)
    (hwills : ∀ c ∈ calls, c.before.WillPasses c.event) : Traced calls b := by
  induction htrace with
  | start =>
    refine ⟨fun m hm => ?_, fun id s hs => ?_⟩
    · obtain ⟨msg, hmsg, -⟩ := hm
      simp [new] at hmsg
    · simp [new] at hs
  | @call calls b b' e actions _ hstep ih =>
    have hbefore := ih fun c hc => hwills c (by simp [hc])
    exact (hbefore.step (hwills ⟨b, e, actions, b'⟩ (by simp)) hstep).1
  | reorder _ hsessions hretained ih =>
    have hbefore := ih hwills
    refine ⟨fun m hm => hbefore.retained m ?_, fun id s hs => hbefore.queued id s ?_⟩
    · obtain ⟨msg, hmsg, hsame⟩ := hm
      exact ⟨msg, (hretained.lookup_eq _).symm.trans hmsg, hsame⟩
    · exact (hsessions.lookup_eq id).symm.trans hs

/-- When the published wills pass the checks, every retained message and every message that is sent
stems from a call made no later, whose client was allowed to publish it on a well formed topic. -/
theorem publications_vetted {config : BrokerConfig} {auth : Authenticator} {hook : Option H}
    {calls : List (Call H)} (htrace : Trace (new config auth hook) calls b)
    (hwills : ∀ c ∈ calls, c.before.WillPasses c.event) :
    (∀ topic msg, b.retained.lookup topic = some msg →
      Originates calls ⟨topic, msg.payload, msg.properties⟩) ∧
    ∀ earlier c later id p, calls = earlier ++ c :: later →
      .send id (.publish p) ∈ c.actions → Originates (earlier ++ [c]) p.content := by
  refine ⟨fun topic msg hmsg => (htrace.traced hwills).retained _ ⟨msg, hmsg, rfl, rfl⟩, ?_⟩
  induction htrace with
  | start =>
    intro earlier c later id p heq
    simp at heq
  | @call calls b b' e actions htrace hstep ih =>
    intro earlier c later id p heq hp
    have hwills' := fun c hc => hwills c (List.mem_append_left _ hc)
    obtain rfl | ⟨later, last, rfl⟩ := List.eq_nil_or_concat' later
    · obtain ⟨rfl, hc⟩ := List.append_inj' heq rfl
      obtain rfl := (List.cons.inj hc).1
      have hwill := hwills ⟨b, e, actions, b'⟩ (by simp)
      exact ((htrace.traced hwills').step hwill hstep).2 id p hp
    · rw [← List.cons_append, ← List.append_assoc] at heq
      obtain ⟨rfl, -⟩ := List.append_inj' heq rfl
      exact ih hwills' earlier c later id p rfl hp
  | reorder _ _ _ ih => exact ih hwills

/-- Everyone may connect and may publish below `lamp`. -/
def lampRules : Authenticator := ({} : Authenticator).setAnonymous true |>.allowAny .publish "lamp/#"

/-- A connect packet with a will on the given topic, to be retained. -/
def lampConnects (topic : String) : Event :=
  .connect ⟨"lamp", true, 0, [], some ⟨topic, [0], .atMostOnce, true, []⟩, none, none⟩

/-- The lamp is lost and its will, which it may publish, is retained. -/
theorem publications_vetted_lamp :
    ∃ (b : Broker Unit) (calls : List (Call Unit)), Trace (new {} lampRules none) calls b ∧
      calls.map (·.event) = [lampConnects "lamp/state", .networkDisconnect "lamp"] ∧
      (∀ c ∈ calls, c.before.WillPasses c.event) ∧
      Originates calls ⟨"lamp/state", [0], []⟩ := by
  have htrace : Trace (new {} lampRules (none : Option Unit)) [] _ := .start
  have htrace := htrace.next (e := lampConnects "lamp/state") (by decide)
  have htrace := htrace.next (e := .networkDisconnect "lamp") (by decide)
  exact ⟨_, _, htrace, rfl, by decide,
    (publications_vetted htrace (by decide)).1 "lamp/state" ⟨[0], .atMostOnce, []⟩ (by decide)⟩

/-- The rules do not let the lamp publish on `door/open`, and still its will is retained there. -/
theorem will_unvetted :
    ¬ ∀ (auth : Authenticator) (b : Broker Unit) (calls : List (Call Unit)),
      Trace (new {} auth none) calls b →
      (∀ topic msg, b.retained.lookup topic = some msg →
        Originates calls ⟨topic, msg.payload, msg.properties⟩) ∧
      ∀ earlier c later id p, calls = earlier ++ c :: later →
        .send id (.publish p) ∈ c.actions → Originates (earlier ++ [c]) p.content := by
  intro h
  have htrace : Trace (new {} lampRules (none : Option Unit)) [] _ := .start
  have htrace := htrace.next (e := lampConnects "door/open") (by decide)
  have htrace := htrace.next (e := .networkDisconnect "lamp") (by decide)
  have horigin := (h lampRules _ _ htrace).1 "door/open" ⟨[0], .atMostOnce, []⟩ (by decide)
  revert horigin
  decide

end CaveHome.Mqtt.Broker
