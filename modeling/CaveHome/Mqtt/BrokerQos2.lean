import CaveHome.Mqtt.BrokerStep

/-!
# Messages that must arrive once

A message at the highest quality of service may be received again before its identifier is
released.  The session notes the identifier once the message is routed, and keeps the note while it
goes on.  A repeat is then answered and nothing else happens.
-/

namespace CaveHome.Mqtt.Broker

variable {H : Type} [BrokerHook H] {b b' : Broker H} {id : String} {pid : UInt16}

/-- The client publishes under the identifier, at the highest quality of service. -/
def PublishesQos2 (id : String) (pid : UInt16) : Event → Prop
  | .packet id' (.publish p) => id' = id ∧ p.qos = .exactlyOnce ∧ p.packetId = some pid
  | _ => False

/-- The client releases the identifier. -/
def Releases (id : String) (pid : UInt16) : Event → Prop
  | .packet id' (.pubRel r) => id' = id ∧ r.packetId = pid
  | _ => False

instance {e : Event} : Decidable (PublishesQos2 id pid e) := by
  unfold PublishesQos2
  split <;> infer_instance

instance {e : Event} : Decidable (Releases id pid e) := by
  unfold Releases
  split <;> infer_instance

/-- The call is such a publish packet and its message is routed. -/
def routesQos2 (id : String) (pid : UInt16) (c : Call H) : Bool :=
  decide (PublishesQos2 id pid c.event) && (c.before.routing c.event).isSome

/-- The session has the identifier noted. -/
def Noted (b : Broker H) (id : String) (pid : UInt16) : Prop :=
  ∃ s, b.sessions.lookup id = some s ∧ pid ∈ s.incomingQos2

/-! ## One call -/

theorem Noted.step {e : Event} {actions : List Action} (hnoted : b.Noted id pid)
    (h : b.step e = some (b', actions)) (hends : ¬ b.Ends id e) (hrel : ¬ Releases id pid e) :
    b'.Noted id pid := by
  obtain ⟨s, hs, hpid⟩ := hnoted
  obtain ⟨s', hs', hchange⟩ := step_continues h hends hs
  refine ⟨s', hs', ?_⟩
  cases hchange with
  | hand hgains => exact hgains.received hpid
  | connect he hid ho =>
    subst he
    rw [(opened_of_continues hid hends hs).2]
    exact hpid
  | pubAck => exact hpid
  | pubRec => exact hpid
  | @pubRel _ r he =>
    subst he
    exact Finset.mem_erase.mpr ⟨fun heq => hrel ⟨rfl, heq.symm⟩, hpid⟩
  | leave _ hgains _ => exact hgains.received hpid

theorem Noted.routing_eq_none {e : Event} (hnoted : b.Noted id pid)
    (he : PublishesQos2 id pid e) : b.routing e = none := by
  unfold PublishesQos2 at he
  split at he
  next id' p =>
    obtain ⟨rfl, hqos, hpid⟩ := he
    obtain ⟨s, hs, hmem⟩ := hnoted
    have hdup : b.isDuplicate id' p = some pid := by
      simp [isDuplicate, hqos, hpid, hs, hmem, Option.filter]
    simp [routing, hdup]
  next => exact he.elim

theorem noted_of_routing {e : Event} {actions : List Action} (h : b.step e = some (b', actions))
    (he : PublishesQos2 id pid e) (hsession : (b.sessions.lookup id).isSome)
    (hrouting : (b.routing e).isSome) : b'.Noted id pid := by
  unfold PublishesQos2 at he
  split at he
  next id' p =>
    obtain ⟨rfl, hqos, hpid⟩ := he
    obtain ⟨metrics, hook, -, ⟨hnone, -⟩ | ⟨hr, delivered, b₁, acts, reason, henter, heq⟩⟩ :=
      onPublish_cases h
    · rw [hnone] at hrouting
      cases hrouting
    · obtain ⟨rfl, -⟩ := Prod.mk.inj heq
      have hrel := (enter_hands (M := fun _ => True) trivial henter).1.sessions id'
      obtain ⟨s, hs⟩ := Option.isSome_iff_exists.mp hsession
      dsimp only at hrel
      rw [hs] at hrel
      generalize hs₁ : b₁.sessions.lookup id' = o at hrel
      cases hrel with
      | @some _ s₁ hgains =>
        refine ⟨{ s₁ with incomingQos2 := insert pid s₁.incomingQos2 }, ?_,
          Finset.mem_insert_self _ _⟩
        simp [ackPublish, hqos, hpid, updateSession, hs₁]
  next => exact he.elim

theorem answer_qos2 {e : Event} {actions : List Action} (h : b.step e = some (b', actions))
    (he : PublishesQos2 id pid e) :
    (∃ reason, pubrec id pid reason ∈ actions) ∧
      (b.routing e = none →
        b'.retained = b.retained ∧ b'.sessions = b.sessions ∧
          ∃ reason, actions = [pubrec id pid reason]) := by
  unfold PublishesQos2 at he
  split at he
  next id' p =>
    obtain ⟨rfl, hqos, hpid⟩ := he
    obtain ⟨metrics, hook, -, ⟨-, reason, hr⟩ | ⟨hr, delivered, b₁, acts, reason, -, heq⟩⟩ :=
      onPublish_cases h
    · obtain ⟨rfl, rfl⟩ := Prod.mk.inj hr
      have hack : ackPublishError id' p reason = [pubrec id' pid reason] := by
        rw [ackPublishError, hqos, hpid]
      rw [hack]
      exact ⟨⟨reason, by simp⟩, fun _ => ⟨rfl, rfl, reason, rfl⟩⟩
    · obtain ⟨rfl, rfl⟩ := Prod.mk.inj heq
      refine ⟨⟨reason, by simp [ackPublish, hqos, hpid]⟩, fun hnone => ?_⟩
      rw [hr] at hnone
      cases hnone
  next => exact he.elim

/-! ## Histories -/

/-- The session goes on and the identifier is not released in the calls. -/
def Unreleased (id : String) (pid : UInt16) (calls : List (Call H)) : Prop :=
  ∀ c ∈ calls, ¬ c.before.Ends id c.event ∧ ¬ Releases id pid c.event

instance {calls : List (Call H)} : Decidable (Unreleased id pid calls) :=
  inferInstanceAs (Decidable (∀ c ∈ calls, _))

theorem Trace.noted {start : Broker H} {calls : List (Call H)} (htrace : Trace start calls b)
    (hsession : (start.sessions.lookup id).isSome) (hcalls : Unreleased id pid calls) :
    (b.sessions.lookup id).isSome ∧
      (calls.countP (routesQos2 id pid) = 0 ∨
        calls.countP (routesQos2 id pid) = 1 ∧ b.Noted id pid) := by
  induction htrace with
  | start => exact ⟨hsession, .inl rfl⟩
  | @call calls b b' e actions htrace hstep ih =>
    obtain ⟨hsome, hcount⟩ := ih fun c hc => hcalls c (by simp [hc])
    obtain ⟨hends, hrel⟩ := hcalls ⟨b, e, actions, b'⟩ (by simp)
    obtain ⟨s, hs⟩ := Option.isSome_iff_exists.mp hsome
    obtain ⟨s', hs', -⟩ := step_continues hstep hends hs
    refine ⟨by rw [hs']; rfl, ?_⟩
    rw [List.countP_append, List.countP_singleton]
    obtain hzero | ⟨hone, hnoted⟩ := hcount
    · split
      next hroutes =>
        obtain ⟨he, hrouting⟩ := Bool.and_eq_true_iff.mp hroutes
        refine .inr ⟨by omega, noted_of_routing hstep (of_decide_eq_true he) hsome hrouting⟩
      next => exact .inl (by omega)
    · have hquiet : routesQos2 id pid ⟨b, e, actions, b'⟩ = false := by
        by_contra hroutes
        have hroutes : routesQos2 id pid ⟨b, e, actions, b'⟩ = true := by simpa using hroutes
        obtain ⟨he, hrouting⟩ := Bool.and_eq_true_iff.mp hroutes
        rw [hnoted.routing_eq_none (of_decide_eq_true he)] at hrouting
        cases hrouting
      rw [hquiet]
      exact .inr ⟨by simpa using hone, hnoted.step hstep hends hrel⟩
  | reorder _ hsessions _ ih =>
    obtain ⟨hsome, hcount⟩ := ih hcalls
    refine ⟨by rw [hsessions.lookup_eq]; exact hsome, hcount.imp_right (And.imp_right ?_)⟩
    rintro ⟨s, hs, hpid⟩
    exact ⟨s, (hsessions.lookup_eq id).trans hs, hpid⟩

theorem Trace.mem_step {start : Broker H} {calls : List (Call H)} (htrace : Trace start calls b)
    {c : Call H} (hc : c ∈ calls) : c.before.step c.event = some (c.after, c.actions) := by
  induction htrace with
  | start => cases hc
  | call _ hstep ih =>
    obtain hc | hc := List.mem_append.mp hc
    · exact ih hc
    · obtain rfl := List.mem_singleton.mp hc
      exact hstep
  | reorder _ _ _ ih => exact ih hc

/-- While a session goes on and an identifier is not released, at most one of the messages that
arrive under it is routed.  Every one is answered, and those that are not routed are only
answered. -/
theorem qos2_routed_once {start : Broker H} {calls : List (Call H)} (htrace : Trace start calls b)
    (hsession : (start.sessions.lookup id).isSome) (hcalls : Unreleased id pid calls) :
    calls.countP (routesQos2 id pid) ≤ 1 ∧
      ∀ c ∈ calls, PublishesQos2 id pid c.event →
        (∃ reason, pubrec id pid reason ∈ c.actions) ∧
          (routesQos2 id pid c = false →
            c.after.retained = c.before.retained ∧ c.after.sessions = c.before.sessions ∧
              ∃ reason, c.actions = [pubrec id pid reason]) := by
  refine ⟨?_, fun c hc he => ?_⟩
  · obtain ⟨-, hzero | ⟨hone, -⟩⟩ := htrace.noted hsession hcalls
    · omega
    · omega
  · obtain ⟨hanswer, hquiet⟩ := answer_qos2 (htrace.mem_step hc) he
    refine ⟨hanswer, fun hroutes => hquiet ?_⟩
    simpa [routesQos2, he] using hroutes

def meterConnects : Event :=
  .connect ⟨"meter", false, 0, [.sessionExpiryInterval 3600], none, none, none⟩

def meterPublishes : Event :=
  .packet "meter" (.publish ⟨"power", .exactlyOnce, true, false, some 1, [], [7]⟩)

def openHouse : Authenticator := ({} : Authenticator).setAnonymous true |>.allowAny .publish "#"

/-- The meter publishes, loses the connection, resumes its session and publishes again. -/
theorem qos2_routed_once_meter :
    ∃ (start b : Broker Unit) (calls : List (Call Unit)), Trace start calls b ∧
      calls.map (·.event) =
        [meterPublishes, .networkDisconnect "meter", meterConnects, meterPublishes] ∧
      Unreleased "meter" 1 calls ∧ calls.countP (routesQos2 "meter" 1) ≤ 1 := by
  let start : Broker Unit := ((new {} openHouse none).connect
    ⟨"meter", false, 0, [.sessionExpiryInterval 3600], none, none, none⟩).1
  have htrace : Trace start [] start := .start
  have htrace := htrace.next (e := meterPublishes) (by decide)
  have htrace := htrace.next (e := .networkDisconnect "meter") (by decide)
  have htrace := htrace.next (e := meterConnects) (by decide)
  have htrace := htrace.next (e := meterPublishes) (by decide)
  exact ⟨_, _, _, htrace, rfl, by decide, (qos2_routed_once htrace (by decide) (by decide)).1⟩

end CaveHome.Mqtt.Broker
