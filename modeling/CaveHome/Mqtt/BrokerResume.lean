import CaveHome.Mqtt.BrokerStep

/-!
# Messages for a session that is resumed

A message for a client waits in the queue of its session while the client is away, and among the
unacknowledged ones once it is sent.  A resume sends the queue and nothing else.  So a message is
sent again after a loss of the connection when nothing that was sent is still unacknowledged.
-/

namespace CaveHome.Mqtt.Broker

variable {H : Type} {b b' : Broker H} {id : String} {p : PublishV5}

/-! ## The packet for a client -/

/-- The packet that a routed message becomes for one of its targets. -/
def packetFor (b : Broker H) (r : Routing) (id : String) : Option PublishV5 := do
  let (_, qos, rap) ← (b.targets (some r.publisher) r.topic r.qos).find? (·.1 == id)
  let sess ← b.sessions.lookup id
  let (packetId, _) ← allocate sess qos
  return { topic := r.topic, qos, retain := r.retain && rap, dup := false, packetId,
           properties := r.properties, payload := r.payload }

/-- The message waits in the session: it is queued, or its identifier is unacknowledged. -/
def Held (b : Broker H) (id : String) (p : PublishV5) : Prop :=
  ∃ s pid, b.sessions.lookup id = some s ∧ p.packetId = some pid ∧
    (p ∈ s.queued ∨ pid ∈ s.outgoingUnacked)

theorem Held.of_rel {M : Content → Prop} (h : b.Held id p)
    (hrel : Option.Rel (Session.Gains M) (b.sessions.lookup id) (b'.sessions.lookup id)) :
    b'.Held id p := by
  obtain ⟨s, pid, hs, hpid, hheld⟩ := h
  rw [hs] at hrel
  generalize hs' : b'.sessions.lookup id = o at hrel
  cases hrel with
  | @some _ s' hgains =>
    exact ⟨s', pid, hs', hpid, hheld.imp (hgains.queued p) (hgains.unacked pid)⟩

theorem targets_nodup (b : Broker H) (publisher : Option String) (topic : String) (srcQos : QoS) :
    ((b.targets publisher topic srcQos).map (·.1)).Nodup := by
  have hsub : ((b.targets publisher topic srcQos).map (·.1)).Sublist b.sessions.keys := by
    unfold targets AList.keys List.keys
    induction b.sessions.entries with
    | nil => exact .slnil
    | cons e es ih =>
      rw [List.filterMap_cons]
      split
      next => exact ih.cons _
      next target htarget =>
        obtain ⟨q, -, rfl⟩ := Option.map_eq_some_iff.mp htarget
        exact ih.cons_cons _
  exact hsub.nodup b.sessions.keys_nodup

theorem Handed.lookup_ne {tid : String} {m : Content} {out : List Action}
    (h : Handed b tid m b' out) (hne : id ≠ tid) :
    b'.sessions.lookup id = b.sessions.lookup id := by
  cases h with
  | delivers h =>
    cases h with
    | absent => rfl
    | sent => exact AList.lookup_insert_ne hne
  | queued => exact AList.lookup_insert_ne hne
  | dropped => exact AList.lookup_insert_ne hne

theorem routeTo_held {r : Routing} {qos : QoS} {rap : Bool} {out : List Action} {s s₁ : Session}
    {packetId : Option UInt16} (hqos : qos ≠ .atMostOnce)
    (hs : b.sessions.lookup id = some s) (halloc : allocate s qos = some (packetId, s₁))
    (hroute : routeTo r.topic r.payload r.properties r.retain b (id, qos, rap) = some (b', out)) :
    b'.Held id { topic := r.topic, qos, retain := r.retain && rap, dup := false, packetId,
                 properties := r.properties, payload := r.payload } := by
  obtain ⟨pid, rfl⟩ : ∃ pid, packetId = some pid := by
    unfold allocate at halloc
    rw [if_neg hqos] at halloc
    obtain ⟨⟨pid, s₂⟩, -, heq⟩ := Option.map_eq_some_iff.mp halloc
    exact ⟨pid, (Prod.mk.inj heq).1.symm⟩
  unfold routeTo at hroute
  simp only [hs, halloc, Option.bind_eq_bind, Option.bind_some, ne_eq, hqos, not_false_eq_true,
    if_true] at hroute
  split at hroute
  · obtain ⟨rfl, -⟩ := Prod.mk.inj (Option.some.inj hroute)
    refine ⟨_, pid, AList.lookup_insert _, rfl, .inr ?_⟩
    exact (AList.mem_insert _).mpr (.inl rfl)
  · obtain ⟨rfl, -⟩ := Prod.mk.inj (Option.some.inj hroute)
    exact ⟨_, pid, AList.lookup_insert _, rfl, .inl (by simp)⟩

theorem emitAll_routeTo_held {r : Routing} {qos : QoS} {rap : Bool} {out : List Action}
    {s s₁ : Session} {packetId : Option UInt16} {targets : List (String × QoS × Bool)}
    (hqos : qos ≠ .atMostOnce) (hnodup : (targets.map (·.1)).Nodup)
    (hmem : (id, qos, rap) ∈ targets) (hs : b.sessions.lookup id = some s)
    (halloc : allocate s qos = some (packetId, s₁))
    (hloop : emitAll (routeTo r.topic r.payload r.properties r.retain) b targets =
      some (b', out)) :
    b'.Held id { topic := r.topic, qos, retain := r.retain && rap, dup := false, packetId,
                 properties := r.properties, payload := r.payload } := by
  induction targets generalizing b out with
  | nil => cases hmem
  | cons target targets ih =>
    obtain ⟨b₁, out₁, outs, hcall, hrest, -⟩ := emitAll_cons_eq_some.mp hloop
    rw [List.map_cons, List.nodup_cons] at hnodup
    obtain rfl | hmem := List.mem_cons.mp hmem
    · -- its turn; what comes later only adds to the session
      have hheld := routeTo_held hqos hs halloc hcall
      exact hheld.of_rel ((emitAll_hands (M := fun _ => True) (S := fun _ => True)
        (fun _ _ _ _ _ hcall => (routeTo_handed hcall).hands trivial) hrest).1.sessions id)
    · have hne : id ≠ target.1 := by
        rintro rfl
        exact hnodup.1 (List.mem_map.mpr ⟨_, hmem, rfl⟩)
      exact ih hnodup.2 hmem (((routeTo_handed hcall).lookup_ne hne).trans hs) hrest

theorem enter_held {r : Routing} {delivered : Nat} {actions : List Action}
    (hp : b.packetFor r id = some p) (hqos : p.qos ≠ .atMostOnce)
    (h : b.enter r = some (delivered, b', actions)) : b'.Held id p := by
  unfold packetFor at hp
  simp only [Option.bind_eq_bind, Option.bind_eq_some_iff, Prod.exists, Option.pure_def,
    Option.some.injEq] at hp
  obtain ⟨tid, qos, rap, hfind, s, hs, packetId, s₁, halloc, rfl⟩ := hp
  obtain rfl : tid = id := by simpa using List.find?_some hfind
  have hmem := List.mem_of_find?_eq_some hfind
  obtain ⟨b₁, n, hloop, rfl⟩ := routePublish_cases h
  obtain ⟨hsessions, -, -⟩ := retain_frame b r.retain r.topic ⟨r.payload, r.qos, r.properties⟩
  have htargets : (b.retain r.retain r.topic ⟨r.payload, r.qos, r.properties⟩).targets
      (some r.publisher) r.topic r.qos = b.targets (some r.publisher) r.topic r.qos := by
    rw [targets, targets, hsessions]
  rw [htargets] at hloop
  have hheld := emitAll_routeTo_held hqos (targets_nodup b _ _ _) hmem (by rw [hsessions, hs])
    halloc hloop
  exact hheld

variable [BrokerHook H]

theorem held_of_routing {e : Event} {r : Routing} {actions : List Action}
    (h : b.step e = some (b', actions)) (hr : b.routing e = some r)
    (hp : b.packetFor r id = some p) (hqos : p.qos ≠ .atMostOnce) (hends : ¬ b.Ends id e) :
    b'.Held id p := by
  cases e with
  | connect c => cases hr
  | packet cid packet =>
    cases packet with
    | publish q =>
      obtain ⟨metrics, hook, -, ⟨hnone, -⟩ | ⟨hr', delivered, b₁, acts, reason, henter, heq⟩⟩ :=
        onPublish_cases h
      · rw [hnone] at hr
        cases hr
      · obtain ⟨rfl, -⟩ := Prod.mk.inj heq
        obtain rfl := Option.some.inj (hr'.symm.trans hr)
        have hheld := enter_held (b := { b with metrics, hook }) hp hqos henter
        exact hheld.of_rel ((ackPublish_hands (M := fun _ => True) b₁ cid q reason).1.sessions id)
    | _ => cases hr
  | networkDisconnect cid =>
    obtain ⟨hnone, -, -⟩ | ⟨m, delivered, b₁, acts, hr', henter, heq⟩ := networkDisconnect_cases h
    · rw [hnone] at hr
      cases hr
    · obtain ⟨rfl, -⟩ := Prod.mk.inj heq
      obtain rfl := Option.some.inj (hr'.symm.trans hr)
      obtain ⟨s, pid, hs, hpid, hheld⟩ := enter_held (b := { b with wills := b.wills.erase cid }) hp hqos henter
      have hrel := (enter_hands (M := fun _ => True) trivial henter).1.sessions id
      refine ⟨if id = cid then { s with connected := false } else s, pid, ?_, hpid, ?_⟩
      · rw [detach_lookup]
        split
        next he =>
          subst he
          rw [hs] at hrel ⊢
          generalize hs₀ : b.sessions.lookup id = o at hrel
          cases hrel with
          | @some s₀ _ hgains =>
            have hexpiry : s.sessionExpirySecs ≠ 0 := by
              intro h0
              exact hends (.inr ⟨rfl, s₀, hs₀, hgains.expiry.symm.trans h0⟩)
            rw [Option.bind_some, if_neg hexpiry]
        next => exact hs
      · split
        · exact hheld
        · exact hheld

/-! ## Waiting for the acknowledgement -/

/-- The message was sent: it waits in the queue no longer. -/
def Sent (b : Broker H) (id : String) (p : PublishV5) : Prop :=
  ∃ s ∈ b.sessions.lookup id, p ∉ s.queued

/-- The client acknowledges a message that was sent to it. -/
def Acknowledges (b : Broker H) (id : String) (p : PublishV5) : Event → Prop
  | .packet id' (.pubAck a) => id' = id ∧ p.packetId = some a.packetId ∧ b.Sent id p
  | .packet id' (.pubRec r) =>
    id' = id ∧ p.packetId = some r.packetId ∧ p.qos = .exactlyOnce ∧ b.Sent id p
  | _ => False

/-- A resume finds nothing that was sent and is not acknowledged, and the client does not answer
the message as one of a higher quality of service. -/
def InOrder (b : Broker H) (id : String) (p : PublishV5) : Event → Prop
  | .connect c => b.Connects id c → ∀ s ∈ b.sessions.lookup id, s.outgoingUnacked.keys = []
  | .packet id' (.pubRec r) =>
    ¬ (id' = id ∧ p.packetId = some r.packetId ∧ p.qos ≠ .exactlyOnce ∧ b.Sent id p)
  | _ => True

theorem Held.step {e : Event} {actions : List Action} (hheld : b.Held id p)
    (h : b.step e = some (b', actions)) (hends : ¬ b.Ends id e)
    (hack : ¬ b.Acknowledges id p e) (horder : b.InOrder id p e) : b'.Held id p := by
  obtain ⟨s, pid, hs, hpid, hheld⟩ := hheld
  obtain ⟨s', hs', hchange⟩ := step_continues h hends hs
  refine ⟨s', pid, hs', hpid, ?_⟩
  have hsent : p ∉ s.queued → b.Sent id p := fun hp => ⟨s, hs, hp⟩
  cases hchange with
  | hand hgains => exact hheld.imp (hgains.queued p) (hgains.unacked pid)
  | leave _ hgains _ => exact hheld.imp (hgains.queued p) (hgains.unacked pid)
  | pubRel => exact hheld
  | connect he hid _ =>
    subst he
    rw [(opened_of_continues hid hends hs).2]
    refine .inr (Session.mem_unacked_flushed.mpr ?_)
    obtain hp | hmem := hheld
    · exact .inr ⟨p, hp, hpid⟩
    · exact .inl hmem
  | @pubAck _ a he =>
    subst he
    by_cases hp : p ∈ s.queued
    · exact .inl hp
    · refine .inr (AList.mem_erase.mpr ⟨?_, hheld.resolve_left hp⟩)
      rintro rfl
      exact hack ⟨rfl, hpid, hsent hp⟩
  | @pubRec _ r he =>
    subst he
    by_cases hp : p ∈ s.queued
    · exact .inl hp
    · refine .inr (AList.mem_erase.mpr ⟨?_, hheld.resolve_left hp⟩)
      rintro rfl
      by_cases hqos : p.qos = .exactlyOnce
      · exact hack ⟨rfl, hpid, hqos, hsent hp⟩
      · exact horder ⟨rfl, hpid, hqos, hsent hp⟩

/-- The calls of a run in which the session goes on, the message is not acknowledged and the client
keeps to the order of the protocol. -/
def Waiting (id : String) (p : PublishV5) (b : Broker H) (e : Event) : Prop :=
  ¬ b.Ends id e ∧ ¬ b.Acknowledges id p e ∧ b.InOrder id p e

theorem Run.held {start : Broker H} (hrun : Run (Waiting id p) start b) (hheld : start.Held id p) :
    b.Held id p := by
  induction hrun with
  | start => exact hheld
  | step _ hcond hstep ih => exact ih.step hstep hcond.1 hcond.2.1 hcond.2.2
  | reorder _ hsessions _ ih =>
    obtain ⟨s, pid, hs, hrest⟩ := ih
    exact ⟨s, pid, (hsessions.lookup_eq id).trans hs, hrest⟩

/-- A message routed to a session that goes on is sent again at every resume that finds nothing
unacknowledged, until the client acknowledges it. -/
theorem resume_sends_again {b₀ b₁ b₂ : Broker H} {e : Event} {r : Routing} {actions : List Action}
    {c : ConnectV5} (hstep : b₀.step e = some (b₁, actions)) (hr : b₀.routing e = some r)
    (hp : b₀.packetFor r id = some p) (hqos : p.qos ≠ .atMostOnce) (hends : ¬ b₀.Ends id e)
    (hrun : Run (Waiting id p) b₁ b₂) (hconnects : b₂.Connects id c)
    (hclean : c.cleanStart = false) (horder : b₂.InOrder id p (.connect c)) :
    .send id (.publish p) ∈ (b₂.connect c).2 := by
  obtain ⟨s, pid, hs, -, hheld⟩ := hrun.held (held_of_routing hstep hr hp hqos hends)
  have hempty := horder hconnects s hs
  have hqueued : p ∈ s.queued := by
    refine hheld.resolve_right fun hmem => ?_
    rw [AList.mem_keys, hempty] at hmem
    cases hmem
  refine ((connect_accepted hconnects.1).sends id p).mpr ⟨hconnects.2.symm, s, ?_, hqueued⟩
  rw [resumed, hclean, hconnects.2, hs]
  rfl

/-! ## A tablet that loses its connection -/

instance {e : Event} : Decidable (b.Acknowledges id p e) := by
  unfold Acknowledges Sent
  split <;> infer_instance

def tabletConnect : ConnectV5 :=
  ⟨"tablet", false, 0, [.sessionExpiryInterval 3600], none, none, none⟩

def tabletSubscribes : Event :=
  .packet "tablet" (.subscribe ⟨1, [], [⟨"door", .atLeastOnce, false, false, .doNotSend⟩]⟩)

def doorPublishes : Event :=
  .packet "door" (.publish ⟨"door", .atLeastOnce, false, false, some 1, [], [1]⟩)

/-- The message of the door, as it goes to the tablet. -/
def doorMessage : PublishV5 := ⟨"door", .atLeastOnce, false, false, some 1, [], [1]⟩

/-- Everyone may connect, subscribe and publish. -/
def familyRules : Authenticator :=
  ({} : Authenticator).setAnonymous true |>.allowAny .publish "#" |>.allowAny .subscribe "#"

/-- The broker after the tablet has connected and subscribed. -/
def tabletOnline : Broker Unit :=
  ((((new {} familyRules none).connect tabletConnect).1.step tabletSubscribes).get (by decide)).1

def tabletAway : Broker Unit := ((tabletOnline.networkDisconnect "tablet").get (by decide)).1

/-- The door rings while the tablet is away: the tablet gets the message when it is back. -/
theorem resume_sends_again_tablet :
    ∃ (b₁ : Broker Unit) (actions : List Action),
      tabletAway.step doorPublishes = some (b₁, actions) ∧
      .send "tablet" (.publish doorMessage) ∈ (b₁.connect tabletConnect).2 := by
  have hstep : tabletAway.step doorPublishes = some _ := (Option.some_get (by decide)).symm
  exact ⟨_, _, hstep, resume_sends_again hstep rfl (by decide) (by decide) (by decide) .start
    ⟨by decide, by decide⟩ rfl (fun _ => by decide)⟩

/-- The door rings while the tablet is connected, and the connection is lost before the tablet
acknowledges the message.  The tablet resumes its session and does not get it. -/
theorem unacknowledged_not_resent :
    ¬ ∀ (auth : Authenticator) (b₀ b₁ b₂ : Broker Unit) (e : Event) (r : Routing)
      (actions : List Action) (id : String) (p : PublishV5) (c : ConnectV5),
      Run (fun _ _ => True) (new {} auth none) b₀ → b₀.step e = some (b₁, actions) →
      b₀.routing e = some r → b₀.packetFor r id = some p → p.qos ≠ .atMostOnce →
      (∀ s ∈ b₀.sessions.lookup id, s.sessionExpirySecs ≠ 0) → ¬ b₀.Ends id e →
      Run (fun b e => ¬ b.Ends id e ∧ ¬ b.Acknowledges id p e) b₁ b₂ → b₂.Connects id c →
      c.cleanStart = false → .send id (.publish p) ∈ (b₂.connect c).2 := by
  intro h
  have hstart : Run (fun _ _ => True) (new {} familyRules (none : Option Unit)) _ := .start
  have hconnected := hstart.next (e := .connect tabletConnect) trivial (by decide)
  have hsubscribed := hconnected.next (e := tabletSubscribes) trivial (by decide)
  have hlater : Run (fun b e => ¬ b.Ends "tablet" e ∧ ¬ b.Acknowledges "tablet" doorMessage e)
    ((tabletOnline.step doorPublishes).get (by decide)).1 _ := .start
  have hlost := hlater.next (e := .networkDisconnect "tablet") (by decide) (by decide)
  have hsent := h familyRules tabletOnline _ _ doorPublishes _ _ "tablet" doorMessage tabletConnect
    hsubscribed (Option.some_get (by decide)).symm rfl (by decide) (by decide) (by decide)
    (by decide) hlost ⟨by decide, by decide⟩ rfl
  revert hsent
  decide

end CaveHome.Mqtt.Broker
