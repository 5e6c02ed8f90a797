import CaveHome.Lib.Dict
import CaveHome.Mqtt.BrokerStep

/-!
# The gauge of connected clients

A client that connects is counted, and one that leaves is taken off.  A client that connects while
its session is connected takes the session over: it is counted once more, and nobody is taken off
for the connection that is dropped.  The gauge is too high by the number of takeovers ever since.
-/

namespace CaveHome.Mqtt.Broker

variable {H : Type} {b b' : Broker H} {id : String}

/-- The number of sessions that are connected. -/
def connectedCount (b : Broker H) : Nat := Dict.countValues (·.connected) b.sessions

/-- Is the client connected? -/
def online (b : Broker H) (id : String) : Bool := (b.sessions.lookup id).any (·.connected)

/-- The packet is accepted, and connects a client whose session is connected. -/
def TakesOver (b : Broker H) : Event → Prop
  | .connect c => b.auth.authenticate c.username c.password = true ∧
      b.online (b.assignId c).1 = true
  | _ => False

instance : DecidablePred (TakesOver b)
  | .connect c => inferInstanceAs (Decidable (b.auth.authenticate c.username c.password = true ∧
      b.online (b.assignId c).1 = true))
  | .packet _ _ | .networkDisconnect _ => inferInstanceAs (Decidable False)

theorem connectedCount_of_online (h : ∀ id, b'.online id = b.online id) :
    b'.connectedCount = b.connectedCount :=
  Dict.countValues_congr h

theorem connectedCount_of_ne (b b' : Broker H) (id : String)
    (h : ∀ id', id' ≠ id → b'.online id' = b.online id') :
    (b'.connectedCount + if b.online id then 1 else 0) =
      b.connectedCount + if b'.online id then 1 else 0 :=
  Dict.countValues_of_ne id h

/-! ## What leaves the gauge alone -/

/-- The gauge shows the same. -/
def SameGauge (b b' : Broker H) : Prop := b'.metrics.clientsConnected = b.metrics.clientsConnected

theorem updateSession_metrics (f : Session → Session) :
    (b.updateSession id f).metrics = b.metrics := by
  unfold updateSession
  split <;> rfl

theorem Handed.metrics_eq {m : Content} {out : List Action} (h : Handed b id m b' out) :
    b'.metrics = b.metrics := by
  cases h with
  | delivers h => cases h <;> rfl
  | queued => rfl
  | dropped => rfl

theorem emitAll_metrics {α : Type} {f : Broker H → α → Option (Broker H × List Action)}
    {as : List α} {outs : List Action}
    (hcall : ∀ b a b' out, f b a = some (b', out) → b'.metrics = b.metrics)
    (h : emitAll f b as = some (b', outs)) : b'.metrics = b.metrics := by
  refine (emitAll_rule (I := fun b₁ => b₁.metrics = b.metrics) (Q := fun _ => True) ?_ rfl h).1
  intro b₁ a b₂ out _ h₁ hf
  exact ⟨(hcall b₁ a b₂ out hf).trans h₁, fun _ _ => trivial⟩

theorem onMessageSent_iterate (n len : Nat) (m : BrokerMetrics) :
    ((BrokerMetrics.onMessageSent · len)^[n] m).clientsConnected = m.clientsConnected := by
  induction n generalizing m with
  | zero => rfl
  | succ n ih => exact ih (m.onMessageSent len)

theorem routePublish_sameGauge {publisher : Option String} {topic : String} {srcQos : QoS}
    {payload : Bytes} {properties : List Property} {retainSrc : Bool} {delivered : Nat}
    {actions : List Action}
    (h : b.routePublish publisher topic srcQos payload properties retainSrc =
      some (delivered, b', actions)) : SameGauge b b' := by
  obtain ⟨b₁, n, hloop, rfl⟩ := routePublish_cases h
  have hmetrics : b₁.metrics = b.metrics :=
    emitAll_metrics (fun _ _ _ _ hcall => (routeTo_handed hcall).metrics_eq) hloop
  refine (onMessageSent_iterate _ _ _).trans ?_
  rw [hmetrics]

theorem enter_sameGauge {r : Routing} {delivered : Nat} {actions : List Action}
    (h : b.enter r = some (delivered, b', actions)) : SameGauge b b' := by
  refine (routePublish_sameGauge h).trans ?_
  unfold retain
  split <;> rfl

theorem unsubscribeAll_metrics (b : Broker H) (id : String) (filters : List String) :
    (unsubscribeAll id b filters).1.metrics = b.metrics := by
  induction filters generalizing b with
  | nil => rfl
  | cons f fs ih => exact (ih _).trans (updateSession_metrics _)

section

variable [BrokerHook H]

theorem subscribeOne_metrics (username : Option String) (sub : SubscriptionV5) :
    (b.subscribeOne id username sub).1.metrics = b.metrics := by
  unfold subscribeOne
  split
  · rfl
  split
  · rfl
  exact updateSession_metrics _

theorem subscribeAll_metrics (b : Broker H) (id : String) (username : Option String)
    (subs : List SubscriptionV5) : (subscribeAll id username b subs).1.metrics = b.metrics := by
  induction subs generalizing b with
  | nil => rfl
  | cons sub subs ih => exact (ih _).trans (subscribeOne_metrics username sub)

theorem onSubscribe_metrics {s : SubscribeV5} {r : Broker H × List Action}
    (h : b.onSubscribe id s = some r) : r.1.metrics = b.metrics := by
  obtain ⟨b₂, sends, hloop, rfl⟩ := onSubscribe_cases h
  exact (emitAll_metrics (fun _ _ _ _ hcall =>
    (Handed.delivers (sendRetained_delivers hcall)).metrics_eq) hloop).trans
      (subscribeAll_metrics b id _ _)

theorem onPublish_sameGauge {p : PublishV5} {r : Broker H × List Action}
    (h : b.onPublish id p = some r) : SameGauge b r.1 := by
  obtain ⟨metrics, hook, hsame, ⟨-, reason, rfl⟩ |
    ⟨-, delivered, b₁, actions, reason, henter, rfl⟩⟩ := onPublish_cases h
  · exact hsame
  · have hack : (b₁.ackPublish id p reason).1.metrics = b₁.metrics := by
      unfold ackPublish
      split
      · rfl
      · exact updateSession_metrics _
      · rfl
    exact (congrArg BrokerMetrics.clientsConnected hack).trans ((enter_sameGauge henter).trans hsame)

/-! ## Coming and going -/

theorem connect_metrics {c : ConnectV5}
    (hauth : b.auth.authenticate c.username c.password = true) :
    (b.connect c).1.metrics = b.metrics.onClientConnected := by
  have hdeliver (b : Broker H) (id : String) : (b.deliverQueued id).1.metrics = b.metrics := by
    unfold deliverQueued
    split <;> rfl
  have hattach : ((b.assignId c).2.2.attach (b.assignId c).1 c).1.metrics =
      b.metrics.onClientConnected := by
    unfold assignId
    split <;> rfl
  unfold connect
  rw [hauth]
  simp only [Bool.not_true, Bool.false_eq_true, if_false]
  split
  · exact (hdeliver _ _).trans hattach
  · exact hattach

theorem connect_online {c : ConnectV5}
    (hauth : b.auth.authenticate c.username c.password = true) (id : String) :
    (b.connect c).1.online id = if id = (b.assignId c).1 then true else b.online id := by
  unfold online
  rw [(connect_accepted hauth).sessions id]
  split
  · unfold opened
    split <;> rfl
  · rfl

theorem detach_online (b : Broker H) (cid id : String) :
    (b.detach cid).online id = if id = cid then false else b.online id := by
  unfold online
  rw [detach_lookup]
  split
  · cases b.sessions.lookup cid with
    | none => rfl
    | some s =>
      rw [Option.bind_some]
      split <;> rfl
  · rfl

theorem detach_clientsConnected (b : Broker H) (id : String) :
    (b.detach id).metrics.clientsConnected =
      b.metrics.clientsConnected - if b.online id then 1 else 0 := by
  unfold detach online
  cases b.sessions.lookup id with
  | none => rfl
  | some s =>
    dsimp only
    rw [Option.any_some]
    split <;> split <;> rfl

/-- The gauge shows `excess` more than there are. -/
def Ahead (excess : Nat) (b : Broker H) : Prop :=
  b.metrics.clientsConnected = b.connectedCount + excess

variable {excess : Nat}

omit [BrokerHook H] in
theorem Ahead.of_same (h : b.Ahead excess) (hgauge : SameGauge b b')
    (honline : ∀ id, b'.online id = b.online id) : b'.Ahead excess := by
  rw [Ahead, connectedCount_of_online honline]
  exact hgauge.trans h

theorem Ahead.connect (h : b.Ahead excess) (c : ConnectV5) :
    (b.connect c).1.Ahead (excess + if b.TakesOver (.connect c) then 1 else 0) := by
  cases hauth : b.auth.authenticate c.username c.password with
  | false =>
    have hno : ¬ b.TakesOver (.connect c) := fun ht => by
      rw [ht.1] at hauth
      cases hauth
    rw [(connect_refused hauth).1, if_neg hno]
    exact h
  | true =>
    have hover : b.TakesOver (.connect c) ↔ b.online (b.assignId c).1 = true :=
      and_iff_right hauth
    have hcount := connectedCount_of_ne b (b.connect c).1 (b.assignId c).1
      fun id hid => by rw [connect_online hauth, if_neg hid]
    rw [connect_online hauth, if_pos rfl, if_pos rfl] at hcount
    have hbefore : b.metrics.clientsConnected = b.connectedCount + excess := h
    have hgauge : (b.connect c).1.metrics.clientsConnected = b.metrics.clientsConnected + 1 :=
      congrArg BrokerMetrics.clientsConnected (connect_metrics hauth)
    rw [Ahead, hgauge]
    simp only [hover]
    omega

theorem Ahead.detach (h : b.Ahead excess) (id : String) : (b.detach id).Ahead excess := by
  have hcount := connectedCount_of_ne b (b.detach id) id
    fun id' hid => by rw [detach_online, if_neg hid]
  rw [detach_online, if_pos rfl, if_neg Bool.false_ne_true] at hcount
  have hbefore : b.metrics.clientsConnected = b.connectedCount + excess := h
  rw [Ahead, detach_clientsConnected]
  omega

theorem Change.connected {e : Event} {o o' : Option Session} (h : Change b e id o o')
    (hc : ∀ c, e ≠ .connect c) (hl : ¬ Leaves id e) :
    o'.any (·.connected) = o.any (·.connected) := by
  cases h with
  | absent => rfl
  | hand hgains => exact hgains.connected
  | connect he => exact absurd he (hc _)
  | pubAck | pubRec | pubRel => rfl
  | leave he => exact absurd he hl
  | expire he => exact absurd he hl

theorem Ahead.handle (h : b.Ahead excess) {packet : PacketV5} {r : Broker H × List Action}
    (hcall : b.handle id packet = some r) : r.1.Ahead excess := by
  have honline (hl : ∀ id', ¬ Leaves id' (.packet id packet)) (id' : String) :
      r.1.online id' = b.online id' :=
    (handle_change hcall id').connected (fun _ he => by cases he) (hl id')
  cases packet with
  | subscribe s =>
    exact h.of_same (congrArg BrokerMetrics.clientsConnected (onSubscribe_metrics hcall))
      (honline fun _ hl => hl)
  | publish p => exact h.of_same (onPublish_sameGauge hcall) (honline fun _ hl => hl)
  | unsubscribe u =>
    have honline := honline fun _ hl => hl
    obtain rfl := Option.some.inj hcall
    exact h.of_same (congrArg BrokerMetrics.clientsConnected (unsubscribeAll_metrics b id _))
      honline
  | pubAck _ | pubRec _ | pubRel _ | pubComp _ =>
    have honline := honline fun _ hl => hl
    obtain rfl := Option.some.inj hcall
    exact h.of_same (congrArg BrokerMetrics.clientsConnected (updateSession_metrics _)) honline
  | disconnect d =>
    obtain rfl := Option.some.inj hcall
    refine Ahead.detach ?_ id
    split <;> exact h
  | _ =>
    obtain rfl := Option.some.inj hcall
    exact h

theorem Ahead.networkDisconnect (h : b.Ahead excess) {r : Broker H × List Action}
    (hcall : b.networkDisconnect id = some r) : r.1.Ahead excess := by
  obtain ⟨-, -, rfl⟩ | ⟨m, delivered, b₁, actions, hr, henter, rfl⟩ :=
    networkDisconnect_cases hcall
  · exact h.detach id
  · have hgauge : SameGauge { b with wills := b.wills.erase id } b₁ := enter_sameGauge henter
    refine Ahead.detach (h.of_same (hgauge.trans rfl) fun id' => ?_) id
    have hsession : Option.Rel (Session.Gains fun _ => True) (b.sessions.lookup id')
        (b₁.sessions.lookup id') := (enter_hands trivial henter).1.sessions id'
    unfold online
    generalize b.sessions.lookup id' = o at hsession ⊢
    generalize b₁.sessions.lookup id' = o₁ at hsession ⊢
    cases hsession with
    | none => rfl
    | some hgains => exact hgains.connected

theorem Ahead.step (h : b.Ahead excess) {e : Event} {actions : List Action}
    (hstep : b.step e = some (b', actions)) :
    b'.Ahead (excess + if b.TakesOver e then 1 else 0) := by
  cases e with
  | connect c =>
    have hconnect := h.connect c
    rw [show b.connect c = (b', actions) from Option.some.inj hstep] at hconnect
    exact hconnect
  | packet cid packet => exact h.handle hstep
  | networkDisconnect cid => exact h.networkDisconnect hstep

/-- The takeovers among the calls that were made. -/
def takeovers (calls : List (Call H)) : Nat :=
  calls.countP fun call => decide (call.before.TakesOver call.event)

theorem Trace.ahead {config : BrokerConfig} {auth : Authenticator} {hook : Option H}
    {calls : List (Call H)} (h : Trace (new config auth hook) calls b) :
    b.Ahead (takeovers calls) := by
  induction h with
  | start => rfl
  | call _ hstep ih =>
    have hnext := ih.step hstep
    rw [takeovers, List.countP_append, List.countP_singleton]
    simpa [takeovers] using hnext
  | reorder _ hsessions _ ih =>
    rw [Ahead, connectedCount, hsessions.countValues_eq]
    exact ih

/-- The gauge shows the number of connected clients as long as no client took over a session that
was connected, and never again after that. -/
theorem Trace.clientsConnected_iff {config : BrokerConfig} {auth : Authenticator} {hook : Option H}
    {calls : List (Call H)} (h : Trace (new config auth hook) calls b) :
    b.metrics.clientsConnected = b.connectedCount ↔
      ∀ call ∈ calls, ¬ call.before.TakesOver call.event := by
  have hahead : b.metrics.clientsConnected = b.connectedCount + takeovers calls := h.ahead
  rw [hahead, Nat.add_eq_left, takeovers, List.countP_eq_zero]
  simp

end

def lampConnect : ConnectV5 := ⟨"lamp", false, 0, [.sessionExpiryInterval 60], none, none, none⟩

/-- Everyone may connect. -/
def openDoor : Authenticator := ({} : Authenticator).setAnonymous true

/-- The lamp connects, is lost and comes back. -/
theorem clientsConnected_lamp :
    ∃ (calls : List (Call Unit)) (b : Broker Unit), Trace (new {} openDoor none) calls b ∧
      calls.length = 3 ∧ (∀ call ∈ calls, ¬ call.before.TakesOver call.event) ∧
      b.metrics.clientsConnected = b.connectedCount := by
  have hstart : Trace (new {} openDoor (none : Option Unit)) [] _ := .start
  have hconnects := hstart.next (e := .connect lampConnect) (by decide)
  have hlost := hconnects.next (e := .networkDisconnect "lamp") (by decide)
  have hback := hlost.next (e := .connect lampConnect) (by decide)
  exact ⟨_, _, hback, by decide, by decide, hback.clientsConnected_iff.mpr (by decide)⟩

/-- It comes back before its old connection is lost, and is counted twice. -/
theorem clientsConnected_twice :
    ¬ ∀ (calls : List (Call Unit)) (b : Broker Unit), Trace (new {} openDoor none) calls b →
      b.metrics.clientsConnected = b.connectedCount := by
  intro h
  have hstart : Trace (new {} openDoor (none : Option Unit)) [] _ := .start
  have hconnects := hstart.next (e := .connect lampConnect) (by decide)
  have hback := hconnects.next (e := .connect lampConnect) (by decide)
  exact absurd (h _ _ hback) (by decide)

end CaveHome.Mqtt.Broker
