import CaveHome.Mqtt.BrokerStep

/-!
# Deliveries and the subscribe rules

The rules are consulted once, when a client subscribes, and on the text of its filter.  Deliveries
match the filter against topics later and do not look at the rules again.  So a delivery is
authorized when each granted filter matches authorized topics only, and the user who resumes a
session is authorized for what that session holds.
-/

namespace CaveHome.Mqtt

/-- The user of the session may subscribe to all that the session can lead to. -/
structure Session.Cleared (a : Authenticator) (s : Session) : Prop where
  subscriptions : ∀ sub ∈ s.subscriptions, a.Covers s.username sub.topicFilter
  queued : ∀ p ∈ s.queued, a.authorize s.username .subscribe p.topic = true

/-- The sessions agree on what a clearance looks at. -/
structure Session.SameGrants (s s' : Session) : Prop where
  username : s'.username = s.username
  subscriptions : s'.subscriptions = s.subscriptions
  queued : s'.queued = s.queued

namespace Session

variable {a : Authenticator} {s s' : Session}

theorem SameGrants.trans {s'' : Session} (h : s.SameGrants s') (h' : s'.SameGrants s'') :
    s.SameGrants s'' :=
  ⟨h'.username.trans h.username, h'.subscriptions.trans h.subscriptions,
    h'.queued.trans h.queued⟩

theorem SameGrants.cleared (h : s.SameGrants s') (hs : s.Cleared a) : s'.Cleared a := by
  refine ⟨fun sub hsub => ?_, fun p hp => ?_⟩
  · rw [h.username]
    exact hs.subscriptions sub (h.subscriptions ▸ hsub)
  · rw [h.username]
    exact hs.queued p (h.queued ▸ hp)

theorem cleared_of_nil (hsubs : s.subscriptions = []) (hqueued : s.queued = []) : s.Cleared a :=
  ⟨by simp [hsubs], by simp [hqueued]⟩

theorem Cleared.addSubscription (hs : s.Cleared a) {sub : SubscriptionV5}
    (hsub : a.Covers s.username sub.topicFilter) : (s.addSubscription sub).1.Cleared a := by
  obtain ⟨huser, hqueued⟩ := addSubscription_frame s sub
  refine ⟨fun x hx => ?_, fun p hp => ?_⟩
  · rw [huser]
    obtain hx | rfl := addSubscription_mem hx
    · exact hs.subscriptions x hx
    · exact hsub
  · rw [huser]
    exact hs.queued p (hqueued ▸ hp)

theorem Cleared.removeSubscription (hs : s.Cleared a) (filter : String) :
    (s.removeSubscription filter).1.Cleared a :=
  ⟨fun x hx => hs.subscriptions x (List.mem_filter.mp hx).1, hs.queued⟩

end Session

namespace Broker

variable {H : Type} {a : Authenticator} {b b' b₀ : Broker H} {id : String}

/-! ## The invariant -/

/-- The rules are `a`, and every session is cleared by them. -/
structure Guarded (a : Authenticator) (b : Broker H) : Prop where
  auth : b.auth = a
  sessions : Dict.All (fun _ s => s.Cleared a) b.sessions

/-- The user of a client's session. -/
def client (b : Broker H) (id : String) : Option (Option String) :=
  (b.sessions.lookup id).map (·.username)

/-- A message goes to a client only if its user may subscribe to the topic. -/
def Allowed (a : Authenticator) (client : String → Option (Option String)) : Action → Prop
  | .send id (.publish p) => ∃ u, client id = some u ∧ a.authorize u .subscribe p.topic = true
  | _ => True

theorem guarded_new (config : BrokerConfig) (hook : Option H) : (new config a hook).Guarded a :=
  ⟨rfl, Dict.all_empty⟩

theorem Guarded.insert (h : b.Guarded a) {s : Session} (hs : s.Cleared a) :
    ({ b with sessions := b.sessions.insert id s } : Broker H).Guarded a :=
  ⟨h.auth, h.sessions.insert hs⟩

theorem Guarded.updateSession (h : b.Guarded a) {f : Session → Session}
    (hf : ∀ s, b.sessions.lookup id = some s → s.Cleared a → (f s).Cleared a) :
    (b.updateSession id f).Guarded a := by
  unfold Broker.updateSession
  split
  next s hs => exact h.insert (hf s hs (h.sessions id s hs))
  next => exact h

theorem client_insert {s s' : Session} (hs : b.sessions.lookup id = some s)
    (hu : s'.username = s.username) (id' : String) :
    ({ b with sessions := b.sessions.insert id s' } : Broker H).client id' = b.client id' := by
  by_cases he : id' = id
  · subst he
    simp [client, hs, hu]
  · simp [client, AList.lookup_insert_ne he]

theorem client_updateSession {f : Session → Session}
    (hf : ∀ s, (f s).username = s.username) (id' : String) :
    (b.updateSession id f).client id' = b.client id' := by
  unfold updateSession
  split
  next s hs => exact client_insert hs (hf s) id'
  next => rfl

/-! ## Handing a message to a client -/

theorem allocate_same {s s' : Session} {qos : QoS} {pid : Option UInt16}
    (h : allocate s qos = some (pid, s')) : s.SameGrants s' := by
  obtain ⟨-, -, rfl⟩ | ⟨pid', -, -, hnext⟩ := allocate_cases h
  · exact ⟨rfl, rfl, rfl⟩
  · rw [Session.nextId_eq_some hnext]
    exact ⟨rfl, rfl, rfl⟩

theorem track_same (s : Session) (p : PublishV5) : s.SameGrants (track s p) := by
  unfold track
  split <;> exact ⟨rfl, rfl, rfl⟩

/-- What the loops over recipients keep: the sessions stay cleared, the users stay. -/
structure Served (a : Authenticator) (b₀ b : Broker H) : Prop where
  guarded : b.Guarded a
  client : ∀ id, b.client id = b₀.client id

theorem Served.insert (h : Served a b₀ b) {s s' : Session} (hs : b.sessions.lookup id = some s)
    (hu : s'.username = s.username) (hs' : s'.Cleared a) :
    Served a b₀ { b with sessions := b.sessions.insert id s' } :=
  ⟨h.guarded.insert hs', fun id' => (client_insert hs hu id').trans (h.client id')⟩

theorem Served.insert_same (h : Served a b₀ b) {s s' : Session}
    (hs : b.sessions.lookup id = some s) (hsame : s.SameGrants s') :
    Served a b₀ { b with sessions := b.sessions.insert id s' } :=
  h.insert hs hsame.username (hsame.cleared (h.guarded.sessions id s hs))

theorem Served.client_eq (h : Served a b₀ b) {s : Session}
    (hs : b.sessions.lookup id = some s) : b₀.client id = some s.username := by
  rw [← h.client id, Broker.client, hs]
  rfl

theorem Delivers.served {m : Content} {out : List Action}
    (htopic : ∀ u, b₀.client id = some u → a.authorize u .subscribe m.topic = true)
    (h : Served a b₀ b) (hdelivers : Delivers b id m b' out) :
    Served a b₀ b' ∧ ∀ o ∈ out, Allowed a b₀.client o := by
  cases hdelivers with
  | absent => exact ⟨h, by simp⟩
  | sent hs halloc hp =>
    subst hp
    refine ⟨h.insert_same hs ((allocate_same halloc).trans (track_same _ _)), ?_⟩
    simp only [List.mem_singleton, forall_eq]
    exact ⟨_, h.client_eq hs, htopic _ (h.client_eq hs)⟩

theorem Handed.served {m : Content} {out : List Action}
    (htopic : ∀ u, b₀.client id = some u → a.authorize u .subscribe m.topic = true)
    (h : Served a b₀ b) (hhanded : Handed b id m b' out) :
    Served a b₀ b' ∧ ∀ o ∈ out, Allowed a b₀.client o := by
  cases hhanded with
  | delivers hdelivers => exact hdelivers.served htopic h
  | queued hs halloc _ hp =>
    subst hp
    have hsame := allocate_same halloc
    have hcleared := hsame.cleared (h.guarded.sessions id _ hs)
    refine ⟨h.insert hs hsame.username ⟨hcleared.subscriptions, fun q hq => ?_⟩, by simp⟩
    rw [List.mem_append, List.mem_singleton] at hq
    obtain hq | rfl := hq
    · exact hcleared.queued q hq
    · rw [hsame.username]
      exact htopic _ (h.client_eq hs)
  | dropped hs => exact ⟨h.insert_same hs ⟨rfl, rfl, rfl⟩, by simp⟩

/-! ## Routing -/

theorem bestSubscription_of_forall_not {publisher : Option String} {topic id : String}
    {subs : List SubscriptionV5}
    (h : ∀ sub ∈ subs, topicMatches sub.topicFilter topic = false) :
    bestSubscription publisher topic id subs = (none, false) := by
  unfold bestSubscription
  induction subs with
  | nil => rfl
  | cons sub subs ih =>
    rw [List.foldl_cons, h sub (by simp)]
    exact ih fun x hx => h x (by simp [hx])

theorem exists_match_of_bestSubscription {publisher : Option String} {topic id : String}
    {subs : List SubscriptionV5} {q : QoS}
    (h : (bestSubscription publisher topic id subs).1 = some q) :
    ∃ sub ∈ subs, topicMatches sub.topicFilter topic = true := by
  by_contra hnone
  push Not at hnone
  rw [bestSubscription_of_forall_not fun sub hsub => by simpa using hnone sub hsub] at h
  simp at h

theorem Guarded.targets (h : b.Guarded a) {publisher : Option String} {topic : String}
    {srcQos : QoS} {target : String × QoS × Bool}
    (ht : target ∈ b.targets publisher topic srcQos) (u : Option String)
    (hu : b.client target.1 = some u) : a.authorize u .subscribe topic = true := by
  obtain ⟨⟨id, s⟩, he, hbest⟩ := List.mem_filterMap.mp ht
  obtain ⟨q, hq, rfl⟩ := Option.map_eq_some_iff.mp hbest
  have hs : b.sessions.lookup id = some s := Dict.mem_entries_iff.mp he
  obtain ⟨sub, hsub, hmatch⟩ := exists_match_of_bestSubscription hq
  obtain rfl : s.username = u := by simpa [client, hs] using hu
  exact (h.sessions id s hs).subscriptions sub hsub topic hmatch

theorem routePublish_served (h : b.Guarded a) {publisher : Option String} {topic : String}
    {srcQos : QoS} {payload : Bytes} {properties : List Property} {retainSrc : Bool}
    {delivered : Nat} {actions : List Action}
    (hroute : b.routePublish publisher topic srcQos payload properties retainSrc =
      some (delivered, b', actions)) :
    Served a b b' ∧ ∀ o ∈ actions, Allowed a b.client o := by
  obtain ⟨b₁, n, hloop, rfl⟩ := routePublish_cases hroute
  have hloop := emitAll_rule (I := Served a b) (Q := Allowed a b.client)
    (fun s target s' out htarget hs hcall => (routeTo_handed hcall).served (h.targets htarget) hs)
    ⟨h, fun _ => rfl⟩ hloop
  exact ⟨⟨⟨hloop.1.guarded.auth, hloop.1.guarded.sessions⟩, hloop.1.client⟩, hloop.2⟩

/-! ## The calls -/

/-- The outcome of a call: the sessions are cleared and what was sent was allowed. -/
def Sound (a : Authenticator) (b : Broker H) (r : Broker H × List Action) : Prop :=
  r.1.Guarded a ∧ ∀ o ∈ r.2, Allowed a b.client o

theorem Guarded.retain (h : b.Guarded a) (wanted : Bool) (topic : String) (msg : RetainedMessage) :
    (b.retain wanted topic msg).Guarded a ∧ (b.retain wanted topic msg).client = b.client := by
  unfold Broker.retain
  split <;> exact ⟨⟨h.auth, h.sessions⟩, rfl⟩

theorem allowed_ackPublishError {c : String → Option (Option String)} (clientId : String)
    (p : PublishV5) (reason : ReasonCode) :
    ∀ o ∈ ackPublishError clientId p reason, Allowed a c o := by
  unfold ackPublishError
  split <;> simp [Allowed, pubrec]

theorem Guarded.ackPublish (h : b.Guarded a) {c : String → Option (Option String)}
    (clientId : String) (p : PublishV5) (reason : ReasonCode) :
    (b.ackPublish clientId p reason).1.Guarded a ∧
      ∀ o ∈ (b.ackPublish clientId p reason).2, Allowed a c o := by
  unfold Broker.ackPublish
  split
  · exact ⟨h, by simp [Allowed]⟩
  · exact ⟨h.updateSession fun s _ hs => ⟨hs.subscriptions, hs.queued⟩, by simp [Allowed, pubrec]⟩
  · exact ⟨h, by simp⟩

theorem Guarded.unsubscribeAll (h : b.Guarded a) (filters : List String) :
    (unsubscribeAll id b filters).1.Guarded a := by
  induction filters generalizing b with
  | nil => exact h
  | cons f fs ih => exact ih (h.updateSession fun s _ hs => hs.removeSubscription f)

/-! ## Covered calls -/

/-- The call stays within the rules: the filters it is granted match authorized topics only, and
the session it resumes holds nothing that the new user is not authorized for. -/
def Covered (b : Broker H) : Event → Prop
  | .connect c =>
    b.auth.authenticate c.username c.password = true → ∀ s, b.resumed c = some s →
      ({ s with username := c.username } : Session).Cleared b.auth
  | .packet id (.subscribe s) =>
    ∀ u, b.client id = some u → ∀ sub ∈ s.subscriptions,
      validTopicFilter sub.topicFilter = true →
      b.auth.authorize u .subscribe sub.topicFilter = true → b.auth.Covers u sub.topicFilter
  | _ => True

/-- The sessions that a call serves: a connect packet is answered as its new user. -/
def recipients (b : Broker H) (e : Event) (b' : Broker H) : Dict String Session :=
  match e with
  | .connect _ => b'.sessions
  | _ => b.sessions

theorem covered_cleanStart {c : ConnectV5} (hclean : c.cleanStart = true) :
    b.Covered (.connect c) := by
  intro _ s hs
  simp [resumed, hclean] at hs

theorem enter_served (h : b.Guarded a) {r : Routing} {delivered : Nat} {actions : List Action}
    (henter : b.enter r = some (delivered, b', actions)) :
    Served a b b' ∧ ∀ o ∈ actions, Allowed a b.client o := by
  obtain ⟨hretained, hclient⟩ := h.retain r.retain r.topic ⟨r.payload, r.qos, r.properties⟩
  obtain ⟨hserved, hactions⟩ := routePublish_served hretained henter
  rw [hclient] at hactions
  exact ⟨⟨hserved.guarded, fun id => (hserved.client id).trans (congrFun hclient id)⟩, hactions⟩

variable [BrokerHook H]

theorem onPublish_sound (h : b.Guarded a) {clientId : String} {p : PublishV5}
    {r : Broker H × List Action} (hpub : b.onPublish clientId p = some r) : Sound a b r := by
  obtain ⟨metrics, hook, -, ⟨-, reason, rfl⟩ | ⟨-, delivered, b₁, actions, reason, henter, rfl⟩⟩ :=
    onPublish_cases hpub
  · exact ⟨⟨h.auth, h.sessions⟩, allowed_ackPublishError clientId p reason⟩
  · obtain ⟨hserved, hactions⟩ := enter_served (b := { b with metrics, hook })
      ⟨h.auth, h.sessions⟩ henter
    obtain ⟨hacked, hack⟩ := hserved.guarded.ackPublish (c := b.client) clientId p reason
    exact ⟨hacked, fun o ho => (List.mem_append.mp ho).elim (hactions o) (hack o)⟩

theorem Guarded.detach (h : b.Guarded a) (clientId : String) : (b.detach clientId).Guarded a :=
  ⟨(detach_frame b clientId).2.2.trans h.auth,
    detach_all h.sessions fun _ _ hs => ⟨hs.subscriptions, hs.queued⟩⟩

theorem networkDisconnect_sound (h : b.Guarded a) {clientId : String}
    {r : Broker H × List Action} (hnet : b.networkDisconnect clientId = some r) :
    Sound a b r := by
  obtain ⟨-, -, rfl⟩ | ⟨m, delivered, b₁, actions, -, henter, rfl⟩ := networkDisconnect_cases hnet
  · exact ⟨h.detach clientId, by simp⟩
  · obtain ⟨hserved, hactions⟩ := enter_served (b := { b with wills := b.wills.erase clientId })
      ⟨h.auth, h.sessions⟩ henter
    exact ⟨hserved.guarded.detach clientId, hactions⟩

/-! ## Subscribing -/

theorem exists_match_of_mem_retainedHits {m : RetainedStore} {filters : List (String × QoS)}
    {hit : QoS × String × RetainedMessage} (h : hit ∈ retainedHits m filters) :
    ∃ filter ∈ filters, topicMatches filter.1 hit.2.1 = true := by
  obtain ⟨filter, hfilter, hhit⟩ := List.mem_flatMap.mp h
  obtain ⟨⟨topic, msg⟩, hmatch, rfl⟩ := List.mem_map.mp hhit
  exact ⟨filter, hfilter, RetainedStore.topicMatches_of_mem_matching hmatch⟩

theorem subscribeOne_served {sub : SubscriptionV5} {username : Option String}
    (hu : ∀ u, b₀.client id = some u → u = username)
    (hcov : ∀ u, b₀.client id = some u → validTopicFilter sub.topicFilter = true →
      a.authorize u .subscribe sub.topicFilter = true → a.Covers u sub.topicFilter)
    (h : Served a b₀ b) :
    Served a b₀ (b.subscribeOne id username sub).1 ∧
      ∀ hit ∈ (b.subscribeOne id username sub).2.2, ∀ u, b₀.client id = some u →
        a.Covers u hit.1 := by
  unfold subscribeOne
  split
  · exact ⟨h, by simp⟩
  next hvalid =>
  split
  · exact ⟨h, by simp⟩
  next hauth =>
  simp only [Bool.not_eq_true', Bool.not_eq_false, h.guarded.auth] at hvalid hauth
  have hgranted : ∀ u, b₀.client id = some u → a.Covers u sub.topicFilter := by
    intro u hclient
    exact hcov u hclient hvalid (hu u hclient ▸ hauth)
  refine ⟨?_, ?_⟩
  · have hadd : (b.updateSession id fun s => (s.addSubscription
        { sub with qos := qosMin sub.qos b.config.maxQos }).1).Guarded a := by
      refine h.guarded.updateSession fun s hs hcleared => hcleared.addSubscription ?_
      exact hgranted s.username (h.client_eq hs)
    refine ⟨⟨hadd.auth, hadd.sessions⟩, fun id' => Eq.trans ?_ (h.client id')⟩
    exact client_updateSession (fun s => (Session.addSubscription_frame s _).1) id'
  · intro hit hhit
    rw [Option.mem_def, Option.ite_none_right_eq_some] at hhit
    obtain rfl := Option.some.inj hhit.2
    exact hgranted

theorem subscribeAll_served {subs : List SubscriptionV5} {username : Option String}
    (hu : ∀ u, b₀.client id = some u → u = username)
    (hcov : ∀ u, b₀.client id = some u → ∀ sub ∈ subs, validTopicFilter sub.topicFilter = true →
      a.authorize u .subscribe sub.topicFilter = true → a.Covers u sub.topicFilter)
    (h : Served a b₀ b) :
    Served a b₀ (subscribeAll id username b subs).1 ∧
      ∀ hit ∈ (subscribeAll id username b subs).2.2, ∀ u, b₀.client id = some u →
        a.Covers u hit.1 := by
  induction subs generalizing b with
  | nil => exact ⟨h, by simp [subscribeAll]⟩
  | cons sub subs ih =>
    obtain ⟨hone, hhit⟩ := subscribeOne_served hu (fun u hc => hcov u hc sub (by simp)) h
    obtain ⟨hall, hhits⟩ := ih (fun u hc x hx => hcov u hc x (by simp [hx])) hone
    refine ⟨hall, fun hit hmem => ?_⟩
    obtain hmem | hmem := List.mem_append.mp hmem
    · exact hhit hit (Option.mem_toList.mp hmem)
    · exact hhits hit hmem

theorem onSubscribe_sound (h : b.Guarded a) {s : SubscribeV5} {r : Broker H × List Action}
    (hcov : ∀ u, b.client id = some u → ∀ sub ∈ s.subscriptions,
      validTopicFilter sub.topicFilter = true →
      a.authorize u .subscribe sub.topicFilter = true → a.Covers u sub.topicFilter)
    (hsub : b.onSubscribe id s = some r) : Sound a b r := by
  have hu : ∀ u, b.client id = some u → u = b.username id := by
    intro u hclient
    obtain ⟨sess, hsess, rfl⟩ := Option.map_eq_some_iff.mp hclient
    simp [username, hsess]
  obtain ⟨hserved, hfilters⟩ := subscribeAll_served hu hcov ⟨h, fun _ => rfl⟩
  obtain ⟨b₂, sends, hloop, rfl⟩ := onSubscribe_cases hsub
  obtain ⟨hserved₁, hsends⟩ := emitAll_rule (I := Served a b) (Q := Allowed a b.client)
    (fun x hit x' out hmem hx hcall => by
      obtain ⟨filter, hfilter, hmatch⟩ := exists_match_of_mem_retainedHits hmem
      refine (sendRetained_delivers hcall).served (fun u hclient => ?_) hx
      exact hfilters filter hfilter u hclient hit.2.1 hmatch) hserved hloop
  refine ⟨hserved₁.guarded, fun o ho => ?_⟩
  obtain rfl | ho := List.mem_cons.mp ho
  · trivial
  · exact hsends o ho

theorem connect_sound (h : b.Guarded a) {c : ConnectV5}
    (hcov : b.auth.authenticate c.username c.password = true → ∀ s, b.resumed c = some s →
      ({ s with username := c.username } : Session).Cleared a) :
    (b.connect c).1.Guarded a ∧ ∀ o ∈ (b.connect c).2, Allowed a (b.connect c).1.client o := by
  have hsent (hpub : ∀ id p, .send id (.publish p) ∈ (b.connect c).2 →
      ∃ u, (b.connect c).1.client id = some u ∧ a.authorize u .subscribe p.topic = true) :
      ∀ o ∈ (b.connect c).2, Allowed a (b.connect c).1.client o := by
    intro o ho
    unfold Allowed
    split
    · exact hpub _ _ ho
    · trivial
  cases hauth : b.auth.authenticate c.username c.password with
  | false =>
    obtain ⟨hb, hnone⟩ := connect_refused hauth
    exact ⟨hb.symm ▸ h, hsent fun id p hp => absurd hp (hnone id p)⟩
  | true =>
    have haccepted := connect_accepted hauth
    have hopened : (b.opened c).Cleared a ∧ (b.opened c).username = c.username := by
      unfold opened
      cases hres : b.resumed c with
      | none => exact ⟨Session.cleared_of_nil rfl rfl, rfl⟩
      | some s => exact ⟨⟨(hcov hauth s hres).subscriptions, fun _ hp => by cases hp⟩, rfl⟩
    refine ⟨⟨haccepted.auth.trans h.auth, connect_all h.sessions hopened.1⟩,
      hsent fun id p hp => ?_⟩
    obtain ⟨rfl, s, hs, hp⟩ := (haccepted.sends id p).mp hp
    refine ⟨c.username, ?_, (hcov hauth s hs).queued p hp⟩
    rw [client, haccepted.sessions, if_pos rfl, Option.map_some, hopened.2]

theorem Guarded.onDisconnect (h : b.Guarded a) (clientId : String) (d : DisconnectV5) :
    Sound a b (b.onDisconnect clientId d) := by
  refine ⟨Guarded.detach ?_ clientId, by simp [Broker.onDisconnect]⟩
  split <;> exact ⟨h.auth, h.sessions⟩

/-! ## Runs -/

theorem handle_sound (h : b.Guarded a) {clientId : String} {packet : PacketV5}
    {r : Broker H × List Action} (hcov : b.Covered (.packet clientId packet))
    (hstep : b.handle clientId packet = some r) : Sound a b r := by
  have hkeep : ∀ f : Session → Session, (∀ s : Session, s.SameGrants (f s)) →
      (b.updateSession clientId f).Guarded a :=
    fun f hf => h.updateSession fun s _ hs => (hf s).cleared hs
  cases packet with
  | subscribe s =>
    refine onSubscribe_sound h ?_ hstep
    rw [← h.auth]
    exact hcov
  | publish p => exact onPublish_sound h hstep
  | unsubscribe u =>
    obtain rfl := Option.some.inj hstep
    exact ⟨h.unsubscribeAll u.topicFilters, by simp [onUnsubscribe, Allowed]⟩
  | disconnect d =>
    obtain rfl := Option.some.inj hstep
    exact h.onDisconnect clientId d
  | pubAck _ | pubRec _ | pubRel _ | pubComp _ =>
    obtain rfl := Option.some.inj hstep
    exact ⟨hkeep _ fun s => ⟨rfl, rfl, rfl⟩, by simp [Allowed]⟩
  | _ =>
    obtain rfl := Option.some.inj hstep
    exact ⟨h, by simp [Allowed]⟩

theorem step_sound (h : b.Guarded a) {e : Event} {actions : List Action} (hcov : b.Covered e)
    (hstep : b.step e = some (b', actions)) :
    b'.Guarded a ∧
      ∀ o ∈ actions, Allowed a (fun id => ((recipients b e b').lookup id).map (·.username)) o := by
  cases e with
  | connect c =>
    have hc := Option.some.inj hstep
    obtain ⟨hguarded, hsent⟩ := connect_sound (c := c) h (by rw [← h.auth]; exact hcov)
    rw [hc] at hguarded hsent
    exact ⟨hguarded, hsent⟩
  | packet clientId packet => exact handle_sound h hcov hstep
  | networkDisconnect clientId => exact networkDisconnect_sound h hstep

theorem Run.guarded {config : BrokerConfig} {hook : Option H}
    (hrun : Run Covered (new config a hook) b) : b.Guarded a := by
  induction hrun with
  | start => exact guarded_new config hook
  | step _ hcond hstep ih => exact (step_sound ih hcond hstep).1
  | reorder _ hsessions _ ih => exact ⟨ih.auth, ih.sessions.of_lookup_eq hsessions.lookup_eq⟩

/-- In a run of covered calls every message goes to a client whose user is authorized to
subscribe to its topic. -/
theorem deliveries_authorized {config : BrokerConfig} {auth : Authenticator} {hook : Option H}
    {e : Event} {actions : List Action} {p : PublishV5}
    (hrun : Run Covered (new config auth hook) b) (hcov : b.Covered e)
    (hstep : b.step e = some (b', actions)) (hsent : .send id (.publish p) ∈ actions) :
    ∃ s, (recipients b e b').lookup id = some s ∧
      auth.authorize s.username .subscribe p.topic = true := by
  obtain ⟨u, hu, hallowed⟩ := (step_sound hrun.guarded hcov hstep).2 _ hsent
  obtain ⟨s, hs, rfl⟩ := Option.map_eq_some_iff.mp hu
  exact ⟨s, hs, hallowed⟩

/-! ## A guest within the rules, and one who escapes them -/

/-- Anyone may publish below `home`; the guest may subscribe to what one filter matches. -/
def guestRules (filter : String) : Authenticator :=
  ({} : Authenticator).setAnonymous true |>.addUser "guest" [1]
    |>.allow "guest" .subscribe filter |>.allowAny .publish "home/#"

def guestConnects : Event := .connect ⟨"tablet", true, 0, [], none, some "guest", some [1]⟩

def guestSubscribes : Event :=
  .packet "tablet" (.subscribe ⟨1, [], [⟨"home/#", .atMostOnce, false, false, .doNotSend⟩]⟩)

def sensorConnects : Event := .connect ⟨"sensor", true, 0, [], none, none, none⟩

def codeMessage : PublishV5 := ⟨"home/safe/code", .atMostOnce, false, false, none, [], [7]⟩

def sensorPublishes : Event := .packet "sensor" (.publish codeMessage)

theorem covers_guestRules {u : Option String} (hu : u = some "guest") :
    (guestRules "home/#").Covers u "home/#" := by
  intro topic htopic
  simp [guestRules, Authenticator.authorize, Authenticator.allow, Authenticator.allowAny,
    Authenticator.pushRule, Authenticator.addUser, Authenticator.setAnonymous, AclRule.applies,
    htopic, hu]

theorem deliveries_authorized_guest :
    ∃ (b b' : Broker Unit) (actions : List Action) (s : Session),
      Run Covered (new {} (guestRules "home/#") none) b ∧
      b.step sensorPublishes = some (b', actions) ∧
      .send "tablet" (.publish codeMessage) ∈ actions ∧ b.sessions.lookup "tablet" = some s ∧
      (guestRules "home/#").authorize s.username .subscribe "home/safe/code" = true := by
  have hstart : Run Covered (new {} (guestRules "home/#") (none : Option Unit)) _ := .start
  have hconnects := hstart.next (e := guestConnects) (covered_cleanStart rfl) (by decide)
  have hsubscribes := hconnects.next (e := guestSubscribes) (fun u hu sub hsub _ _ => by
    obtain rfl := List.mem_singleton.mp hsub
    exact covers_guestRules (Option.some.inj hu).symm) (by decide)
  have hsensor := hsubscribes.next (e := sensorConnects) (covered_cleanStart rfl) (by decide)
  obtain ⟨s, hs, hauth⟩ := deliveries_authorized (e := sensorPublishes) hsensor trivial
    (Option.some_get (by decide)).symm
    (show Action.send "tablet" (.publish codeMessage) ∈ _ by decide)
  exact ⟨_, _, _, s, hsensor, (Option.some_get (by decide)).symm, by decide, hs, hauth⟩

/-- The rule is for one level below `home`.  Its filter matches the text `home/#` as if that were
a topic, and the subscription then takes the topics at every depth. -/
theorem acl_bypassed :
    ¬ ∀ (auth : Authenticator) (b b' : Broker Unit) (e : Event) (actions : List Action)
      (id : String) (p : PublishV5), auth.defaultAllow = false →
      Run (fun _ _ => True) (new {} auth none) b → b.step e = some (b', actions) →
      .send id (.publish p) ∈ actions →
      ∃ s, (recipients b e b').lookup id = some s ∧
        auth.authorize s.username .subscribe p.topic = true := by
  intro h
  have hstart : Run (fun _ _ => True) (new {} (guestRules "home/+") (none : Option Unit)) _ :=
    .start
  have hconnects := hstart.next (e := guestConnects) trivial (by decide)
  have hsubscribes := hconnects.next (e := guestSubscribes) trivial (by decide)
  have hsensor := hsubscribes.next (e := sensorConnects) trivial (by decide)
  obtain ⟨s, hs, hauth⟩ := h (guestRules "home/+") _ _ sensorPublishes _ "tablet" codeMessage rfl
    hsensor (Option.some_get (by decide)).symm (by decide)
  have hguest : s.username = some "guest" := congrArg Session.username (Option.some.inj hs).symm
  rw [hguest] at hauth
  exact absurd hauth (by decide)

end Broker

end CaveHome.Mqtt
