import CaveHome.Mqtt.Broker
import Mathlib.Data.Option.Basic

/-!
# What a call can do

The calls are inverted here once: how each one changes the session of a client, the wills and the
retained messages, and where the messages that it sends come from.
-/

namespace CaveHome.Mqtt

/-- What a message says, whoever it goes to. -/
structure Content where
  topic : String
  payload : Bytes
  properties : List Property
  deriving DecidableEq

def PublishV5.content (p : PublishV5) : Content := ⟨p.topic, p.payload, p.properties⟩

namespace Session

/-- The session after some of the given messages were handed to its client: everything noted
before is still there. -/
structure Gains (M : Content → Prop) (s s' : Session) : Prop where
  connected : s'.connected = s.connected
  expiry : s'.sessionExpirySecs = s.sessionExpirySecs
  username : s'.username = s.username
  received : s.incomingQos2 ⊆ s'.incomingQos2
  queued : ∀ p ∈ s.queued, p ∈ s'.queued
  queuedFrom : ∀ p ∈ s'.queued, p ∈ s.queued ∨ M p.content
  unacked : ∀ pid ∈ s.outgoingUnacked, pid ∈ s'.outgoingUnacked

variable {M : Content → Prop} {s s' s'' : Session}

theorem Gains.refl (s : Session) : s.Gains M s :=
  ⟨rfl, rfl, rfl, Finset.Subset.refl _, fun _ h => h, fun _ h => .inl h, fun _ h => h⟩

theorem Gains.trans (h : s.Gains M s') (h' : s'.Gains M s'') : s.Gains M s'' where
  connected := h'.connected.trans h.connected
  expiry := h'.expiry.trans h.expiry
  username := h'.username.trans h.username
  received := h.received.trans h'.received
  queued p hp := h'.queued p (h.queued p hp)
  queuedFrom p hp := (h'.queuedFrom p hp).elim (h.queuedFrom p) .inr
  unacked pid hpid := h'.unacked pid (h.unacked pid hpid)

/-- A new connection takes the session over. -/
def takenBy (s : Session) (c : ConnectV5) : Session :=
  { s with
    connected := true, sessionExpirySecs := sessionExpiryFrom c.properties, username := c.username }

/-- What was kept is sent and waits for its acknowledgement. -/
def flushed (s : Session) : Session :=
  { s with
    queued := []
    outgoingUnacked := s.queued.foldl (fun m p =>
      match p.packetId with
      | some pid => AList.insert pid p m
      | none => m) s.outgoingUnacked }

theorem mem_unacked_flushed {s : Session} {pid : UInt16} :
    pid ∈ s.flushed.outgoingUnacked ↔
      pid ∈ s.outgoingUnacked ∨ ∃ p ∈ s.queued, p.packetId = some pid := by
  have hloop : ∀ (ps : List PublishV5) (m : Dict UInt16 PublishV5),
      pid ∈ ps.foldl (fun m p =>
        match p.packetId with
        | some pid => AList.insert pid p m
        | none => m) m ↔ pid ∈ m ∨ ∃ p ∈ ps, p.packetId = some pid := by
    intro ps
    induction ps with
    | nil => simp
    | cons p ps ih =>
      intro m
      rw [List.foldl_cons, ih]
      cases hp : p.packetId with
      | none => simp [hp]
      | some q => simp only [AList.mem_insert, List.mem_cons, exists_eq_or_imp, hp,
          Option.some.injEq]; tauto
  exact hloop s.queued s.outgoingUnacked

theorem nextId_gains {id : UInt16} (h : s.nextId = some (id, s')) : s.Gains M s' := by
  rw [nextId_eq_some h]
  exact ⟨rfl, rfl, rfl, Finset.Subset.refl _, fun _ h => h, fun _ h => .inl h, fun _ h => h⟩

end Session

namespace Broker

variable {H : Type} {b b' b₀ : Broker H} {id : String}

/-- The session that a connect packet would take up again. -/
def resumed (b : Broker H) (c : ConnectV5) : Option Session :=
  if c.cleanStart then none else b.sessions.lookup (b.assignId c).1

theorem assignId_frame (b : Broker H) (c : ConnectV5) :
    (b.assignId c).2.2.auth = b.auth ∧ (b.assignId c).2.2.sessions = b.sessions := by
  unfold assignId
  split <;> exact ⟨rfl, rfl⟩

/-! ## Handing messages to clients -/

/-- The loops over recipients add some of the given messages to sessions, and touch neither the
wills nor the retained messages. -/
structure Hands (M : Content → Prop) (b b' : Broker H) : Prop where
  sessions : ∀ id, Option.Rel (Session.Gains M) (b.sessions.lookup id) (b'.sessions.lookup id)
  wills : b'.wills = b.wills
  retained : b'.retained = b.retained
  auth : b'.auth = b.auth

theorem Hands.refl {M : Content → Prop} (b : Broker H) : Hands M b b where
  sessions id := by
    cases b.sessions.lookup id with
    | none => exact .none
    | some s => exact .some (.refl s)
  wills := rfl
  retained := rfl
  auth := rfl

theorem Hands.trans {M : Content → Prop} {b₁ b₂ b₃ : Broker H} (h : Hands M b₁ b₂)
    (h' : Hands M b₂ b₃) : Hands M b₁ b₃ where
  sessions id := by
    have h₁ := h.sessions id
    have h₂ := h'.sessions id
    revert h₁ h₂
    generalize b₁.sessions.lookup id = o₁
    generalize b₂.sessions.lookup id = o₂
    generalize b₃.sessions.lookup id = o₃
    rintro (hs | -) (hs' | -)
    · exact .some (hs.trans hs')
    · exact .none
  wills := h'.wills.trans h.wills
  retained := h'.retained.trans h.retained
  auth := h'.auth.trans h.auth

variable {M : Content → Prop}

theorem hands_insert {s s' : Session} (hs : b.sessions.lookup id = some s)
    (h : s.Gains M s') :
    Hands M b { b with sessions := b.sessions.insert id s' } where
  sessions id' := by
    by_cases he : id' = id
    · subst he
      rw [hs, AList.lookup_insert]
      exact .some h
    · rw [AList.lookup_insert_ne he]
      exact (Hands.refl b).sessions id'
  wills := rfl
  retained := rfl
  auth := rfl

theorem hands_updateSession {f : Session → Session} (hf : ∀ s : Session, s.Gains M (f s)) :
    Hands M b (b.updateSession id f) := by
  unfold updateSession
  split
  next s hs => exact hands_insert hs (hf s)
  next => exact .refl b

theorem allocate_cases {s s' : Session} {qos : QoS} {packetId : Option UInt16}
    (h : allocate s qos = some (packetId, s')) :
    (qos = .atMostOnce ∧ packetId = none ∧ s' = s) ∨
      ∃ pid, qos ≠ .atMostOnce ∧ packetId = some pid ∧ s.nextId = some (pid, s') := by
  unfold allocate at h
  split at h
  next hqos =>
    obtain ⟨rfl, rfl⟩ := Prod.mk.inj (Option.some.inj h)
    exact .inl ⟨hqos, rfl, rfl⟩
  next hqos =>
    obtain ⟨⟨pid, s₁⟩, hnext, heq⟩ := Option.map_eq_some_iff.mp h
    obtain ⟨rfl, rfl⟩ := Prod.mk.inj heq
    exact .inr ⟨pid, hqos, rfl, hnext⟩

theorem allocate_gains {s s' : Session} {qos : QoS} {pid : Option UInt16}
    (h : allocate s qos = some (pid, s')) : s.Gains M s' := by
  obtain ⟨-, -, rfl⟩ | ⟨pid', -, -, hnext⟩ := allocate_cases h
  · exact .refl s'
  · exact Session.nextId_gains hnext

theorem track_gains (s : Session) (p : PublishV5) : s.Gains M (track s p) := by
  unfold track
  split
  · refine ⟨rfl, rfl, rfl, Finset.Subset.refl _, fun _ h => h, fun _ h => .inl h, ?_⟩
    intro pid hpid
    exact (AList.mem_insert _).mpr (.inr hpid)
  · exact .refl s

/-- An action that sends a message sends one of the given ones. -/
def Carries (M : Content → Prop) : Action → Prop
  | .send _ (.publish p) => M p.content
  | _ => True

theorem Carries.mono {N : Content → Prop} {o : Action} (h : Carries M o)
    (hmsgs : ∀ t, M t → N t) : Carries N o := by
  unfold Carries at *
  split
  · exact hmsgs _ h
  · trivial

/-- A message is sent to a client, if it has a session. -/
inductive Delivers (b : Broker H) (id : String) (m : Content) : Broker H → List Action → Prop
  | absent : Delivers b id m b []
  | sent {s s₁ : Session} {p : PublishV5} (hs : b.sessions.lookup id = some s)
      (halloc : allocate s p.qos = some (p.packetId, s₁)) (hp : p.content = m) :
      Delivers b id m { b with sessions := b.sessions.insert id (track s₁ p) }
        [.send id (.publish p)]

/-- A message is sent, queued or dropped. -/
inductive Handed (b : Broker H) (id : String) (m : Content) : Broker H → List Action → Prop
  | delivers {b₁ : Broker H} {out : List Action} (h : Delivers b id m b₁ out) :
      Handed b id m b₁ out
  | queued {s s₁ : Session} {p : PublishV5} (hs : b.sessions.lookup id = some s)
      (halloc : allocate s p.qos = some (p.packetId, s₁)) (hqos : p.qos ≠ .atMostOnce)
      (hp : p.content = m) :
      Handed b id m
        { b with sessions := b.sessions.insert id { s₁ with queued := s₁.queued ++ [p] } } []
  | dropped {s : Session} (hs : b.sessions.lookup id = some s) :
      Handed b id m { b with sessions := b.sessions.insert id s } []

theorem sendRetained_delivers {hit : QoS × String × RetainedMessage} {out : List Action}
    (h : sendRetained id b hit = some (b', out)) :
    Delivers b id ⟨hit.2.1, hit.2.2.payload, hit.2.2.properties⟩ b' out := by
  obtain ⟨granted, topic, msg⟩ := hit
  unfold sendRetained at h
  dsimp only at h
  split at h
  next =>
    obtain ⟨rfl, rfl⟩ := Prod.mk.inj (Option.some.inj h)
    exact .absent
  next s hs =>
    simp only [Option.bind_eq_bind, Option.bind_eq_some_iff, Prod.exists, Option.pure_def,
      Option.some.injEq, Prod.mk.injEq] at h
    obtain ⟨pid, s₁, halloc, rfl, rfl⟩ := h
    exact .sent hs halloc rfl

theorem routeTo_handed {topic : String} {payload : Bytes} {properties : List Property}
    {retainSrc : Bool} {target : String × QoS × Bool} {out : List Action}
    (h : routeTo topic payload properties retainSrc b target = some (b', out)) :
    Handed b target.1 ⟨topic, payload, properties⟩ b' out := by
  obtain ⟨id, qos, rap⟩ := target
  unfold routeTo at h
  dsimp only at h
  split at h
  next =>
    obtain ⟨rfl, rfl⟩ := Prod.mk.inj (Option.some.inj h)
    exact .delivers .absent
  next s hs =>
    simp only [Option.bind_eq_bind, Option.bind_eq_some_iff, Prod.exists] at h
    obtain ⟨pid, s₁, halloc, h⟩ := h
    split at h
    · obtain ⟨rfl, rfl⟩ := Prod.mk.inj (Option.some.inj h)
      exact .delivers (.sent hs halloc rfl)
    split at h
    next hqos =>
      obtain ⟨rfl, rfl⟩ := Prod.mk.inj (Option.some.inj h)
      exact .queued hs halloc hqos rfl
    next hqos =>
      obtain ⟨rfl, rfl⟩ := Prod.mk.inj (Option.some.inj h)
      obtain ⟨-, -, rfl⟩ | ⟨-, hne, -⟩ := allocate_cases halloc
      · exact .dropped hs
      · exact absurd hne hqos

theorem Delivers.hands {m : Content} {out : List Action} (h : Delivers b id m b' out) :
    Hands M b b' ∧ ∀ o ∈ out, Carries (· = m) o := by
  cases h with
  | absent => exact ⟨.refl b, by simp⟩
  | sent hs halloc hp =>
    exact ⟨hands_insert hs ((allocate_gains halloc).trans (track_gains _ _)),
      by simpa [Carries] using hp⟩

theorem Handed.hands {m : Content} {out : List Action} (h : Handed b id m b' out) (hm : M m) :
    Hands M b b' ∧ ∀ o ∈ out, Carries M o := by
  cases h with
  | delivers h =>
    have hd := h.hands (M := M)
    exact ⟨hd.1, fun o ho => (hd.2 o ho).mono fun _ ht => ht ▸ hm⟩
  | queued hs halloc _ hp =>
    refine ⟨hands_insert hs ((allocate_gains halloc).trans ⟨rfl, rfl, rfl,
      Finset.Subset.refl _, fun _ h => List.mem_append_left _ h, fun q hq => ?_, fun _ h => h⟩),
      by simp⟩
    refine (List.mem_append.mp hq).imp_right fun hq => ?_
    rw [List.mem_singleton.mp hq, hp]
    exact hm
  | dropped hs => exact ⟨hands_insert hs (.refl _), by simp⟩

theorem emitAll_hands {α : Type} {f : Broker H → α → Option (Broker H × List Action)}
    {as : List α} {outs : List Action} {S : Content → Prop}
    (hcall : ∀ b a b' out, a ∈ as → f b a = some (b', out) →
      Hands M b b' ∧ ∀ o ∈ out, Carries S o)
    (h : emitAll f b as = some (b', outs)) :
    Hands M b b' ∧ ∀ o ∈ outs, Carries S o := by
  refine emitAll_rule (I := Hands M b) (Q := Carries S) ?_ (.refl b) h
  intro b₁ a b₂ out ha h₁ hf
  obtain ⟨hhands, hout⟩ := hcall b₁ a b₂ out ha hf
  exact ⟨h₁.trans hhands, hout⟩

theorem routePublish_cases {publisher : Option String} {topic : String} {srcQos : QoS}
    {payload : Bytes} {properties : List Property} {retainSrc : Bool} {delivered : Nat}
    {actions : List Action}
    (h : b.routePublish publisher topic srcQos payload properties retainSrc =
      some (delivered, b', actions)) :
    ∃ b₁ n, emitAll (routeTo topic payload properties retainSrc) b
        (b.targets publisher topic srcQos) = some (b₁, actions) ∧
      b' = { b₁ with metrics := (BrokerMetrics.onMessageSent · payload.length)^[n] b₁.metrics } := by
  unfold routePublish at h
  simp only [Option.bind_eq_bind, Option.bind_eq_some_iff, Prod.exists, Option.pure_def,
    Option.some.injEq, Prod.mk.injEq] at h
  obtain ⟨b₁, acts, hloop, -, rfl, rfl⟩ := h
  exact ⟨b₁, _, hloop, rfl⟩

theorem routePublish_hands {publisher : Option String} {topic : String} {srcQos : QoS}
    {payload : Bytes} {properties : List Property} {retainSrc : Bool} {delivered : Nat}
    {actions : List Action} (hmsg : M ⟨topic, payload, properties⟩)
    (hroute : b.routePublish publisher topic srcQos payload properties retainSrc =
      some (delivered, b', actions)) :
    Hands M b b' ∧ ∀ o ∈ actions, Carries M o := by
  obtain ⟨b₁, n, hloop, rfl⟩ := routePublish_cases hroute
  obtain ⟨hhands, hacts⟩ :=
    emitAll_hands (fun _ _ _ _ _ hcall => (routeTo_handed hcall).hands hmsg) hloop
  exact ⟨⟨hhands.sessions, hhands.wills, hhands.retained, hhands.auth⟩, hacts⟩

/-- The session of a client after it has connected. -/
def opened (b : Broker H) (c : ConnectV5) : Session :=
  match b.resumed c with
  | some s => (s.takenBy c).flushed
  | none => (Session.new (b.assignId c).1 (sessionExpiryFrom c.properties)).takenBy c

theorem deliverQueued_lookup {s : Session} {cid : String} (hs : b.sessions.lookup cid = some s)
    (id : String) :
    ((b.deliverQueued cid).1.sessions.lookup id =
      if id = cid then some s.flushed else b.sessions.lookup id) ∧
    (b.deliverQueued cid).2 = s.queued.map fun p => .send cid (.publish p) := by
  unfold deliverQueued
  rw [hs]
  refine ⟨?_, rfl⟩
  by_cases he : id = cid
  · subst he
    rw [if_pos rfl]
    exact AList.lookup_insert _
  · rw [if_neg he]
    exact AList.lookup_insert_ne he

theorem deliverQueued_frame (b : Broker H) (cid : String) :
    (b.deliverQueued cid).1.wills = b.wills ∧ (b.deliverQueued cid).1.retained = b.retained ∧
      (b.deliverQueued cid).1.auth = b.auth := by
  unfold deliverQueued
  split <;> exact ⟨rfl, rfl, rfl⟩

/-! ## Routing -/

/-- A message that enters the broker, as it is given to `routePublish`. -/
structure Routing where
  publisher : String
  topic : String
  qos : QoS
  payload : Bytes
  properties : List Property
  retain : Bool

def Routing.content (r : Routing) : Content := ⟨r.topic, r.payload, r.properties⟩

/-- The message that a call routes, if it routes one: a publish packet that passes the checks, or
the will of a client that is lost. -/
def routing [BrokerHook H] (b : Broker H) : Event → Option Routing
  | .packet clientId (.publish p) =>
    if validTopicName p.topic = true ∧ (b.askHook clientId p).2 = .accept ∧
        b.auth.authorize (b.username clientId) .publish p.topic = true ∧
        b.isDuplicate clientId p = none then
      some ⟨clientId, p.topic, p.qos, p.payload, p.properties, p.retain⟩
    else none
  | .networkDisconnect clientId =>
    (b.wills.lookup clientId).map fun w =>
      ⟨clientId, w.topic, w.qos, w.payload, w.properties, w.retain⟩
  | _ => none

/-- The messages that a call routes: one or none. -/
def Routes [BrokerHook H] (b : Broker H) (e : Event) (m : Content) : Prop :=
  ∃ r, b.routing e = some r ∧ r.content = m

/-- Retain the message and route it. -/
def enter (b : Broker H) (r : Routing) : Option (Nat × Broker H × List Action) :=
  (b.retain r.retain r.topic ⟨r.payload, r.qos, r.properties⟩).routePublish (some r.publisher)
    r.topic r.qos r.payload r.properties r.retain

theorem retain_frame (b : Broker H) (wanted : Bool) (topic : String) (msg : RetainedMessage) :
    (b.retain wanted topic msg).sessions = b.sessions ∧
      (b.retain wanted topic msg).wills = b.wills ∧
      (b.retain wanted topic msg).auth = b.auth := by
  unfold retain
  split <;> exact ⟨rfl, rfl, rfl⟩

/-- The message is a retained one. -/
def Retains (b : Broker H) (m : Content) : Prop :=
  ∃ msg, b.retained.lookup m.topic = some msg ∧ msg.payload = m.payload ∧
    msg.properties = m.properties

theorem retains_retain {wanted : Bool} {topic : String} {msg : RetainedMessage} {m : Content}
    (h : (b.retain wanted topic msg).Retains m) :
    b.Retains m ∨ m = ⟨topic, msg.payload, msg.properties⟩ := by
  obtain ⟨stored, hstored, hpayload, hproperties⟩ := h
  unfold retain at hstored
  split at hstored
  · unfold RetainedStore.apply at hstored
    by_cases he : m.topic = topic
    · split at hstored
      · rw [he, AList.lookup_erase] at hstored
        cases hstored
      · rw [he, AList.lookup_insert, Option.some.injEq] at hstored
        subst hstored
        right
        rw [hpayload, hproperties, ← he]
    · left
      split at hstored
      · exact ⟨stored, (AList.lookup_erase_ne he).symm.trans hstored, hpayload, hproperties⟩
      · exact ⟨stored, (AList.lookup_insert_ne he).symm.trans hstored, hpayload, hproperties⟩
  · exact .inl ⟨stored, hstored, hpayload, hproperties⟩

/-- What a message that enters leaves. -/
structure Entered (M : Content → Prop) (b b' : Broker H) : Prop where
  sessions : ∀ id, Option.Rel (Session.Gains M) (b.sessions.lookup id) (b'.sessions.lookup id)
  wills : b'.wills = b.wills
  retained : ∀ m, b'.Retains m → b.Retains m ∨ M m
  auth : b'.auth = b.auth

theorem enter_hands {r : Routing} {delivered : Nat} {actions : List Action} (hmsg : M r.content)
    (h : b.enter r = some (delivered, b', actions)) :
    Entered M b b' ∧ ∀ o ∈ actions, Carries M o := by
  obtain ⟨hhands, hsends⟩ := routePublish_hands hmsg h
  obtain ⟨hsessions, hwills, hauth⟩ := retain_frame b r.retain r.topic
    ⟨r.payload, r.qos, r.properties⟩
  refine ⟨⟨?_, hhands.wills.trans hwills, ?_, hhands.auth.trans hauth⟩, hsends⟩
  · rw [← hsessions]
    exact hhands.sessions
  · intro m hm
    have hm : (b.retain r.retain r.topic ⟨r.payload, r.qos, r.properties⟩).Retains m := by
      rw [Retains, ← hhands.retained]
      exact hm
    obtain hm | rfl := retains_retain hm
    · exact .inl hm
    · exact .inr hmsg

theorem ackPublish_hands (b : Broker H) (id : String) (p : PublishV5) (reason : ReasonCode) :
    Hands M b (b.ackPublish id p reason).1 ∧
      ∀ o ∈ (b.ackPublish id p reason).2, Carries M o := by
  unfold ackPublish
  split
  · exact ⟨.refl b, by simp [Carries]⟩
  · refine ⟨hands_updateSession fun s => ?_, by simp [Carries, pubrec]⟩
    exact ⟨rfl, rfl, rfl, Finset.subset_insert _ _, fun _ h => h, fun _ h => .inl h, fun _ h => h⟩
  · exact ⟨.refl b, by simp⟩

theorem unsubscribeAll_hands (b : Broker H) (id : String) (filters : List String) :
    Hands M b (unsubscribeAll id b filters).1 := by
  induction filters generalizing b with
  | nil => exact .refl b
  | cons f fs ih =>
    refine Hands.trans (hands_updateSession fun s => ?_) (ih _)
    exact ⟨rfl, rfl, rfl, Finset.Subset.refl _, fun _ h => h, fun _ h => .inl h, fun _ h => h⟩

section

variable [BrokerHook H]

theorem subscribeOne_hands (b : Broker H) (username : Option String) (sub : SubscriptionV5) :
    Hands M b (b.subscribeOne id username sub).1 := by
  unfold subscribeOne
  split
  · exact .refl b
  split
  · exact .refl b
  dsimp only
  have hadd : Hands M b (b.updateSession id fun s =>
      (s.addSubscription { sub with qos := qosMin sub.qos b.config.maxQos }).1) := by
    refine hands_updateSession fun s => ?_
    unfold Session.addSubscription
    split <;> exact ⟨rfl, rfl, rfl, Finset.Subset.refl _, fun _ h => h, fun _ h => .inl h,
      fun _ h => h⟩
  exact ⟨hadd.sessions, hadd.wills, hadd.retained, hadd.auth⟩

theorem subscribeAll_hands (b : Broker H) (id : String) (username : Option String)
    (subs : List SubscriptionV5) :
    Hands M b (subscribeAll id username b subs).1 := by
  induction subs generalizing b with
  | nil => exact .refl b
  | cons sub subs ih => exact (subscribeOne_hands b username sub).trans (ih _)

omit [BrokerHook H] in
theorem retains_of_mem_retainedHits {filters : List (String × QoS)}
    {hit : QoS × String × RetainedMessage} (h : hit ∈ retainedHits b.retained filters) :
    b.Retains ⟨hit.2.1, hit.2.2.payload, hit.2.2.properties⟩ := by
  obtain ⟨filter, -, hhit⟩ := List.mem_flatMap.mp h
  obtain ⟨⟨topic, msg⟩, hmatch, rfl⟩ := List.mem_map.mp hhit
  obtain ⟨e, he, heq⟩ := List.mem_map.mp hmatch
  obtain ⟨rfl, rfl⟩ := Prod.mk.inj heq
  exact ⟨e.2, Dict.mem_entries_iff.mp (List.mem_filter.mp he).1, rfl, rfl⟩

theorem onSubscribe_cases {s : SubscribeV5} {r : Broker H × List Action}
    (h : b.onSubscribe id s = some r) :
    let subscribed := subscribeAll id (b.username id) b s.subscriptions
    ∃ b₂ sends, emitAll (sendRetained id) subscribed.1
        (retainedHits subscribed.1.retained subscribed.2.2) = some (b₂, sends) ∧
      r = (b₂, .send id (.subAck ⟨s.packetId, [], subscribed.2.1⟩) :: sends) := by
  unfold onSubscribe at h
  simp only [Option.bind_eq_bind, Option.bind_eq_some_iff, Prod.exists, Option.pure_def,
    Option.some.injEq] at h
  obtain ⟨b₂, sends, hloop, rfl⟩ := h
  exact ⟨b₂, sends, hloop, rfl⟩

theorem onSubscribe_hands {s : SubscribeV5} {actions : List Action}
    (h : b.onSubscribe id s = some (b', actions)) :
    Hands M b b' ∧ ∀ o ∈ actions, Carries b.Retains o := by
  obtain ⟨b₂, sends, hloop, heq⟩ := onSubscribe_cases h
  obtain ⟨rfl, rfl⟩ := Prod.mk.inj heq
  have hall := subscribeAll_hands (M := M) b id (b.username id) s.subscriptions
  obtain ⟨hhands, hsends⟩ := emitAll_hands (M := M) (S := b.Retains)
    (fun b₃ hit b₄ out hmem hcall => by
      obtain ⟨hhands, hout⟩ := (sendRetained_delivers hcall).hands (M := M)
      refine ⟨hhands, fun o ho => (hout o ho).mono ?_⟩
      rintro m rfl
      have hm := retains_of_mem_retainedHits hmem
      rwa [Retains, hall.retained] at hm) hloop
  refine ⟨hall.trans hhands, fun o ho => ?_⟩
  obtain rfl | ho := List.mem_cons.mp ho
  · trivial
  · exact hsends o ho

theorem askHook_frame (b : Broker H) (clientId : String) (p : PublishV5) :
    ∃ hook, (b.askHook clientId p).1 = { b with hook } := by
  unfold askHook
  split
  · exact ⟨b.hook, rfl⟩
  · exact ⟨_, rfl⟩

theorem askHook_decision (b : Broker H) (metrics : BrokerMetrics) (clientId : String)
    (p : PublishV5) :
    (({ b with metrics } : Broker H).askHook clientId p).2 = (b.askHook clientId p).2 := by
  unfold askHook
  dsimp only
  split <;> rfl

theorem onPublish_cases {p : PublishV5} {r : Broker H × List Action}
    (h : b.onPublish id p = some r) :
    ∃ metrics hook, metrics.clientsConnected = b.metrics.clientsConnected ∧
      ((b.routing (.packet id (.publish p)) = none ∧
        ∃ reason, r = ({ b with metrics, hook }, ackPublishError id p reason)) ∨
      (b.routing (.packet id (.publish p)) =
          some ⟨id, p.topic, p.qos, p.payload, p.properties, p.retain⟩ ∧
        ∃ delivered b₁ actions reason,
          ({ b with metrics, hook } : Broker H).enter
            ⟨id, p.topic, p.qos, p.payload, p.properties, p.retain⟩ =
              some (delivered, b₁, actions) ∧
          r = ((b₁.ackPublish id p reason).1, actions ++ (b₁.ackPublish id p reason).2))) := by
  unfold onPublish at h
  split at h
  next hvalid =>
    refine ⟨b.metrics, b.hook, rfl, .inl ⟨?_, .topicNameInvalid, (Option.some.inj h).symm⟩⟩
    simp [routing, (by simpa using hvalid : validTopicName p.topic = false)]
  next hvalid =>
  dsimp only at h
  obtain ⟨hook, hasked⟩ := askHook_frame
    { b with metrics := b.metrics.onMessageReceived p.payload.length } id p
  have hdecision := askHook_decision b (b.metrics.onMessageReceived p.payload.length) id p
  generalize hask : ({ b with metrics := b.metrics.onMessageReceived p.payload.length } :
    Broker H).askHook id p = asked at h hasked hdecision
  obtain ⟨b₁, decision⟩ := asked
  dsimp only at h hasked hdecision
  subst hasked
  split at h
  next hreject =>
    refine ⟨(b.metrics.onMessageReceived p.payload.length).onMessageDropped, hook, rfl,
      .inl ⟨?_, .notAuthorized, (Option.some.inj h).symm⟩⟩
    simp [routing, ← hdecision, hreject]
  next haccept =>
  split at h
  next hauth =>
    refine ⟨(b.metrics.onMessageReceived p.payload.length).onMessageDropped, hook, rfl,
      .inl ⟨?_, .notAuthorized, (Option.some.inj h).symm⟩⟩
    have hno : b.auth.authorize (b.username id) .publish p.topic = false := by
      simpa [username] using hauth
    simp [routing, hno]
  next hauth =>
  have haccepted : (b.askHook id p).2 = .accept := by
    rw [← hdecision]
    cases decision with
    | accept => rfl
    | reject => exact absurd rfl haccept
  have hvalid' : validTopicName p.topic = true := by simpa using hvalid
  have hauth' : b.auth.authorize (b.username id) .publish p.topic = true := by
    simpa [username] using hauth
  change (match b.isDuplicate id p with | some pid => _ | none => _) = some r at h
  split at h
  next pid hdup =>
    refine ⟨b.metrics.onMessageReceived p.payload.length, hook, rfl,
      .inl ⟨by simp [routing, hdup], .success, ?_⟩⟩
    obtain ⟨hqos, hpid⟩ : p.qos = .exactlyOnce ∧ p.packetId = some pid := by
      unfold isDuplicate at hdup
      split at hdup
      next hqos => exact ⟨hqos, (Option.filter_eq_some_iff.mp hdup).1⟩
      next => cases hdup
    rw [← Option.some.inj h, ackPublishError, hqos, hpid]
  next hdup =>
    refine ⟨b.metrics.onMessageReceived p.payload.length, hook, rfl,
      .inr ⟨if_pos ⟨hvalid', haccepted, hauth', hdup⟩, ?_⟩⟩
    simp only [Option.bind_eq_bind, Option.bind_eq_some_iff, Prod.exists, Option.pure_def,
      Option.some.injEq] at h
    obtain ⟨delivered, b₂, actions, hroute, rfl⟩ := h
    exact ⟨delivered, b₂, actions, _, hroute, rfl⟩

theorem networkDisconnect_cases {r : Broker H × List Action}
    (h : b.networkDisconnect id = some r) :
    (b.routing (.networkDisconnect id) = none ∧ b.wills.lookup id = none ∧
      r = (b.detach id, [])) ∨
    ∃ m delivered b₁ actions, b.routing (.networkDisconnect id) = some m ∧
      ({ b with wills := b.wills.erase id } : Broker H).enter m =
        some (delivered, b₁, actions) ∧ r = (b₁.detach id, actions) := by
  unfold networkDisconnect at h
  split at h
  next hwill => exact .inl ⟨by simp [routing, hwill], hwill, (Option.some.inj h).symm⟩
  next will hwill =>
    simp only [Option.bind_eq_bind, Option.bind_eq_some_iff, Prod.exists, Option.pure_def,
      Option.some.injEq] at h
    obtain ⟨delivered, b₁, actions, hroute, rfl⟩ := h
    refine .inr ⟨⟨id, will.topic, will.qos, will.payload, will.properties, will.retain⟩,
      delivered, b₁, actions, ?_, hroute, rfl⟩
    simp [routing, hwill]

/-! ## Binding a connection -/

theorem attach_lookup (b : Broker H) (cid : String) (c : ConnectV5) (id : String) :
    ((b.attach cid c).1.sessions.lookup id =
      if id = cid then
        some (((if c.cleanStart then none else b.sessions.lookup cid).getD
          (.new cid (sessionExpiryFrom c.properties))).takenBy c)
      else b.sessions.lookup id) ∧
    (b.attach cid c).2 = (if c.cleanStart then none else b.sessions.lookup cid).isSome := by
  unfold attach
  cases hclean : c.cleanStart with
  | true =>
    by_cases he : id = cid
    · subst he
      simp [Session.takenBy]
    · simp [he, AList.lookup_insert_ne, AList.lookup_erase_ne]
  | false =>
    by_cases he : id = cid
    · subst he
      simp [Session.takenBy]
    · simp [he, AList.lookup_insert_ne]

theorem attach_frame (b : Broker H) (cid : String) (c : ConnectV5) :
    (∀ id, (b.attach cid c).1.wills.lookup id =
      if id = cid then c.will else b.wills.lookup id) ∧
    (b.attach cid c).1.retained = b.retained ∧ (b.attach cid c).1.auth = b.auth := by
  refine ⟨fun id => ?_, rfl, rfl⟩
  unfold attach
  by_cases he : id = cid
  · subst he
    cases c.will <;> simp
  · cases c.will <;> simp [he, AList.lookup_insert_ne, AList.lookup_erase_ne]

theorem connect_refused {c : ConnectV5} (hauth : b.auth.authenticate c.username c.password = false) :
    (b.connect c).1 = b ∧ ∀ id p, .send id (.publish p) ∉ (b.connect c).2 := by
  unfold connect
  simp [hauth]

/-- What an accepted connect packet leaves, and the messages it sends. -/
structure Accepted (b : Broker H) (c : ConnectV5) (r : Broker H × List Action) : Prop where
  sessions : ∀ id, r.1.sessions.lookup id =
    if id = (b.assignId c).1 then some (b.opened c) else b.sessions.lookup id
  wills : ∀ id, r.1.wills.lookup id =
    if id = (b.assignId c).1 then c.will else b.wills.lookup id
  retained : r.1.retained = b.retained
  auth : r.1.auth = b.auth
  sends : ∀ id p, .send id (.publish p) ∈ r.2 ↔
    id = (b.assignId c).1 ∧ ∃ s, b.resumed c = some s ∧ p ∈ s.queued

theorem connect_accepted {c : ConnectV5}
    (hauth : b.auth.authenticate c.username c.password = true) : b.Accepted c (b.connect c) := by
  have hassign : ∃ n, (b.assignId c).2.2 = { b with nextAuto := n } := by
    unfold assignId
    split
    · exact ⟨_, rfl⟩
    · exact ⟨b.nextAuto, rfl⟩
  unfold connect
  rw [hauth]
  simp only [Bool.not_true, Bool.false_eq_true, if_false]
  obtain ⟨n, hb₁⟩ := hassign
  have hlookup := fun id => (attach_lookup (b.assignId c).2.2 (b.assignId c).1 c id).1
  have hpresent := (attach_lookup (b.assignId c).2.2 (b.assignId c).1 c "").2
  obtain ⟨hwills, hretained, hauth'⟩ := attach_frame (b.assignId c).2.2 (b.assignId c).1 c
  generalize (b.assignId c).2.2.attach (b.assignId c).1 c = attached at *
  obtain ⟨b₂, present⟩ := attached
  simp only [hb₁] at *
  have hkept : (if c.cleanStart = true then none else b.sessions.lookup (b.assignId c).1) =
      b.resumed c := rfl
  rw [hkept] at hpresent
  simp only [hkept] at hlookup
  have htakeover : ∀ id p, .send id (.publish p) ∉
      if (b.sessions.lookup (b.assignId c).1).any (·.connected) = true then
        [Action.drop (b.assignId c).1 .sessionTakenOver] else [] := by
    intro id p
    split <;> simp
  cases hres : b.resumed c with
  | none =>
    rw [hres] at hpresent hlookup
    subst hpresent
    refine ⟨fun id => ?_, hwills, hretained, hauth', fun id p => ?_⟩
    · simpa [opened, hres] using hlookup id
    · simp [htakeover, hres]
  | some s =>
    rw [hres] at hpresent hlookup
    subst hpresent
    have hs : b₂.sessions.lookup (b.assignId c).1 = some (s.takenBy c) := by
      simpa using hlookup (b.assignId c).1
    obtain ⟨hwills', hretained', hauth''⟩ := deliverQueued_frame b₂ (b.assignId c).1
    simp only [Option.isSome_some, if_true]
    refine ⟨fun id => ?_, fun id => ?_, hretained'.trans hretained, hauth''.trans hauth',
      fun id p => ?_⟩
    · rw [(deliverQueued_lookup hs id).1, opened, hres]
      split
      next => rfl
      next hne =>
        rw [hlookup id, if_neg hne]
    · rw [hwills']
      exact hwills id
    · rw [(deliverQueued_lookup hs id).2]
      simp only [List.mem_append, htakeover, List.mem_cons, false_or, List.mem_map, reduceCtorEq,
        Action.send.injEq, and_false, PacketV5.publish.injEq, hres, Option.some.injEq,
        exists_eq_left']
      constructor
      · rintro ⟨q, hq, rfl, rfl⟩
        exact ⟨rfl, hq⟩
      · rintro ⟨rfl, hq⟩
        exact ⟨p, hq, rfl, rfl⟩

/-! ## Detaching -/

theorem detach_frame (b : Broker H) (cid : String) :
    (b.detach cid).wills = b.wills ∧ (b.detach cid).retained = b.retained ∧
      (b.detach cid).auth = b.auth := by
  unfold detach
  split
  · exact ⟨rfl, rfl, rfl⟩
  · dsimp only
    split <;> split <;> exact ⟨rfl, rfl, rfl⟩

theorem detach_lookup (b : Broker H) (cid id : String) :
    (b.detach cid).sessions.lookup id =
      if id = cid then
        (b.sessions.lookup cid).bind fun s =>
          if s.sessionExpirySecs = 0 then none else some { s with connected := false }
      else b.sessions.lookup id := by
  unfold detach
  split
  next hs =>
    split
    next he => rw [he, hs, Option.bind_none]
    next => rfl
  next s hs =>
    rw [hs, Option.bind_some]
    by_cases he : id = cid
    · subst he
      dsimp only
      split <;> split <;> simp_all
    · rw [if_neg he]
      dsimp only
      split <;> split <;> simp [he, AList.lookup_insert_ne, AList.lookup_erase_ne]

theorem detach_all {P : String → Session → Prop} {cid : String} (h : b.sessions.All P)
    (hoff : ∀ id s, P id s → P id { s with connected := false }) :
    (b.detach cid).sessions.All P := by
  intro id s hs
  rw [detach_lookup] at hs
  split at hs
  next heq =>
    obtain ⟨s₀, hs₀, hs⟩ := Option.bind_eq_some_iff.mp hs
    split at hs
    · cases hs
    · obtain rfl := Option.some.inj hs
      exact hoff id s₀ (h id s₀ (heq ▸ hs₀))
  next => exact h id s hs

theorem connect_all {P : String → Session → Prop} {c : ConnectV5} (h : b.sessions.All P)
    (hopened : P (b.assignId c).1 (b.opened c)) : (b.connect c).1.sessions.All P := by
  cases hauth : b.auth.authenticate c.username c.password with
  | false => rwa [(connect_refused hauth).1]
  | true =>
    intro id s hs
    rw [(connect_accepted hauth).sessions id] at hs
    split at hs
    next heq =>
      obtain rfl := Option.some.inj hs
      exact heq ▸ hopened
    next => exact h id s hs

/-! ## The sessions -/

/-- The call tells that the client is gone. -/
def Leaves (id : String) : Event → Prop
  | .packet id' (.disconnect _) => id' = id
  | .networkDisconnect id' => id' = id
  | _ => False

/-- The packet is accepted and connects the client. -/
def Connects (b : Broker H) (id : String) (c : ConnectV5) : Prop :=
  b.auth.authenticate c.username c.password = true ∧ (b.assignId c).1 = id

/-- What a call can do to the session of a client. -/
inductive Change (b : Broker H) (e : Event) (id : String) :
    Option Session → Option Session → Prop
  | absent : Change b e id none none
  | hand {s s' : Session} (hgains : s.Gains (b.Routes e) s') : Change b e id (some s) (some s')
  | connect {o : Option Session} {c : ConnectV5} (he : e = .connect c) (hid : b.Connects id c)
      (ho : b.sessions.lookup id = o) : Change b e id o (some (b.opened c))
  | pubAck {s : Session} {a : PubAckV5} (he : e = .packet id (.pubAck a)) :
      Change b e id (some s)
        (some { s with outgoingUnacked := s.outgoingUnacked.erase a.packetId })
  | pubRec {s : Session} {r : PubRecV5} (he : e = .packet id (.pubRec r)) :
      Change b e id (some s)
        (some { s with
          outgoingUnacked := s.outgoingUnacked.erase r.packetId
          outgoingPubrel := insert r.packetId s.outgoingPubrel })
  | pubRel {s : Session} {r : PubRelV5} (he : e = .packet id (.pubRel r)) :
      Change b e id (some s) (some { s with incomingQos2 := s.incomingQos2.erase r.packetId })
  | leave {s s' : Session} (he : Leaves id e) (hgains : s.Gains (b.Routes e) s')
      (hexpiry : s.sessionExpirySecs ≠ 0) :
      Change b e id (some s) (some { s' with connected := false })
  | expire {s : Session} (he : Leaves id e) (hexpiry : s.sessionExpirySecs = 0) :
      Change b e id (some s) none

theorem Change.of_rel {e : Event} {o o' : Option Session}
    (h : Option.Rel (Session.Gains (b.Routes e)) o o') : Change b e id o o' := by
  cases h with
  | none => exact .absent
  | some h => exact .hand h

theorem Change.refl {e : Event} (o : Option Session) : Change b e id o o := by
  cases o with
  | none => exact .absent
  | some s => exact .hand (.refl s)

theorem change_updateSession {e : Event} {cid : String} {f : Session → Session}
    (hf : ∀ s, Change b e cid (some s) (some (f s))) (id : String) :
    Change b e id (b.sessions.lookup id) ((b.updateSession cid f).sessions.lookup id) := by
  unfold updateSession
  split
  next s hs =>
    by_cases he : id = cid
    · subst he
      rw [hs, AList.lookup_insert]
      exact hf s
    · rw [AList.lookup_insert_ne he]
      exact .refl _
  next => exact .refl _

theorem change_detach {e : Event} {cid : String} {b₁ : Broker H} (he : Leaves cid e)
    (h : ∀ id, Option.Rel (Session.Gains (b.Routes e)) (b.sessions.lookup id)
      (b₁.sessions.lookup id)) (id : String) :
    Change b e id (b.sessions.lookup id) ((b₁.detach cid).sessions.lookup id) := by
  have hid := h id
  rw [detach_lookup]
  split
  next heq =>
    subst heq
    generalize b.sessions.lookup id = o at hid
    generalize b₁.sessions.lookup id = o₁ at hid
    cases hid with
    | none => exact .absent
    | some hgains =>
      rw [Option.bind_some]
      split
      next h0 => exact .expire he (hgains.expiry ▸ h0)
      next h0 => exact .leave he hgains (hgains.expiry ▸ h0)
  next => exact .of_rel hid

theorem connect_change (b : Broker H) (c : ConnectV5) (id : String) :
    Change b (.connect c) id (b.sessions.lookup id) ((b.connect c).1.sessions.lookup id) := by
  cases hauth : b.auth.authenticate c.username c.password with
  | false =>
    rw [(connect_refused hauth).1]
    exact .refl _
  | true =>
    rw [(connect_accepted hauth).sessions id]
    split
    next he => exact .connect rfl ⟨hauth, he.symm⟩ rfl
    next => exact .refl _

theorem onPublish_change {p : PublishV5} {cid : String} {r : Broker H × List Action}
    (h : b.onPublish cid p = some r) (id : String) :
    Change b (.packet cid (.publish p)) id (b.sessions.lookup id) (r.1.sessions.lookup id) := by
  obtain ⟨metrics, hook, -, ⟨-, reason, rfl⟩ | ⟨hr, delivered, b₁, actions, reason, henter, rfl⟩⟩ :=
    onPublish_cases h
  · exact .refl _
  · have hentered := (enter_hands (M := b.Routes (.packet cid (.publish p))) ⟨_, hr, rfl⟩
      henter).1
    have hack := (ackPublish_hands (M := b.Routes (.packet cid (.publish p))) b₁ cid p
      reason).1
    have hbefore : Hands (b.Routes (.packet cid (.publish p)))
        { b₁ with sessions := b.sessions } b₁ := ⟨hentered.sessions, rfl, rfl, rfl⟩
    have hboth := hbefore.trans hack
    exact .of_rel (hboth.sessions id)

theorem handle_change {cid : String} {packet : PacketV5} {r : Broker H × List Action}
    (h : b.handle cid packet = some r) (id : String) :
    Change b (.packet cid packet) id (b.sessions.lookup id) (r.1.sessions.lookup id) := by
  cases packet with
  | subscribe s => exact .of_rel ((onSubscribe_hands h).1.sessions id)
  | publish p => exact onPublish_change h id
  | unsubscribe u =>
    obtain rfl := Option.some.inj h
    exact .of_rel ((unsubscribeAll_hands b cid u.topicFilters).sessions id)
  | pubAck a =>
    obtain rfl := Option.some.inj h
    exact change_updateSession (fun s => .pubAck rfl) id
  | pubRec r =>
    obtain rfl := Option.some.inj h
    exact change_updateSession (fun s => .pubRec rfl) id
  | pubRel r =>
    obtain rfl := Option.some.inj h
    exact change_updateSession (fun s => .pubRel rfl) id
  | pubComp c =>
    obtain rfl := Option.some.inj h
    refine change_updateSession (fun s => .hand ?_) id
    exact ⟨rfl, rfl, rfl, Finset.Subset.refl _, fun _ h => h, fun _ h => .inl h, fun _ h => h⟩
  | disconnect d =>
    obtain rfl := Option.some.inj h
    refine change_detach (e := .packet cid (.disconnect d)) rfl (fun id' => ?_) id
    split
    · exact (Hands.refl b).sessions id'
    · exact (Hands.refl b).sessions id'
  | _ =>
    obtain rfl := Option.some.inj h
    exact .refl _

theorem step_change {e : Event} {actions : List Action} (h : b.step e = some (b', actions))
    (id : String) : Change b e id (b.sessions.lookup id) (b'.sessions.lookup id) := by
  cases e with
  | connect c =>
    have hc := Option.some.inj h
    have hchange := connect_change b c id
    rw [hc] at hchange
    exact hchange
  | packet cid packet => exact handle_change h id
  | networkDisconnect cid =>
    obtain ⟨-, -, hr⟩ | ⟨m, delivered, b₁, acts, hr, henter, hr'⟩ := networkDisconnect_cases h
    · obtain ⟨rfl, rfl⟩ := Prod.mk.inj hr
      exact change_detach (e := .networkDisconnect cid) rfl (Hands.refl b).sessions id
    · obtain ⟨rfl, rfl⟩ := Prod.mk.inj hr'
      refine change_detach (e := .networkDisconnect cid) rfl ?_ id
      exact (enter_hands ⟨m, hr, rfl⟩ henter).1.sessions

/-! ## The wills and the retained messages -/

/-- The call concerns the will of a client: it connects or leaves. -/
def Binds (b : Broker H) (e : Event) (id : String) : Prop :=
  Leaves id e ∨ ∃ c, e = .connect c ∧ b.Connects id c

/-- What a call can do beside the sessions: it keeps the rules, the wills of the clients that
neither connect nor leave, and the retained messages unless it routes one.  What it sends was
routed, retained or queued. -/
structure Effect (b : Broker H) (e : Event) (b' : Broker H) (actions : List Action) : Prop where
  auth : b'.auth = b.auth
  wills : ∀ id, ¬ b.Binds e id → b'.wills.lookup id = b.wills.lookup id
  retained : ∀ m, b'.Retains m → b.Retains m ∨ b.Routes e m
  unrouted : b.routing e = none → b'.retained = b.retained
  sends : ∀ id p, .send id (.publish p) ∈ actions →
    b.Routes e p.content ∨ b.Retains p.content ∨
      ∃ s, b.sessions.lookup id = some s ∧ p ∈ s.queued

theorem Effect.of_hands {e : Event} {actions : List Action} (h : Hands M b b')
    (hsends : ∀ o ∈ actions, Carries (fun m => b.Routes e m ∨ b.Retains m) o) :
    Effect b e b' actions where
  auth := h.auth
  wills id _ := by rw [h.wills]
  retained m hm := .inl (by rwa [Retains, h.retained] at hm)
  unrouted _ := h.retained
  sends id p hp := by
    obtain hp | hp : b.Routes e p.content ∨ b.Retains p.content := hsends _ hp
    · exact .inl hp
    · exact .inr (.inl hp)

theorem Effect.of_quiet {e : Event} {actions : List Action} (hauth : b'.auth = b.auth)
    (hwills : b'.wills = b.wills) (hretained : b'.retained = b.retained)
    (hsends : ∀ id p, .send id (.publish p) ∉ actions) : Effect b e b' actions where
  auth := hauth
  wills id _ := by rw [hwills]
  retained m hm := .inl (by rwa [Retains, hretained] at hm)
  unrouted _ := hretained
  sends id p hp := absurd hp (hsends id p)

theorem connect_effect (b : Broker H) (c : ConnectV5) :
    Effect b (.connect c) (b.connect c).1 (b.connect c).2 := by
  cases hauth : b.auth.authenticate c.username c.password with
  | false =>
    obtain ⟨hb, hsends⟩ := connect_refused hauth
    exact .of_quiet (by rw [hb]) (by rw [hb]) (by rw [hb]) hsends
  | true =>
    have h := connect_accepted hauth
    refine ⟨h.auth, fun id hid => ?_, fun m hm => .inl (by rwa [Retains, h.retained] at hm), fun _ => h.retained,
      fun id p hp => ?_⟩
    · rw [h.wills id, if_neg]
      intro he
      exact hid (.inr ⟨c, rfl, hauth, he.symm⟩)
    · obtain ⟨rfl, s, hs, hp⟩ := (h.sends id p).mp hp
      refine .inr (.inr ⟨s, ?_, hp⟩)
      unfold resumed at hs
      split at hs
      · cases hs
      · exact hs

theorem onPublish_effect {p : PublishV5} {cid : String} {actions : List Action}
    (h : b.onPublish cid p = some (b', actions)) :
    Effect b (.packet cid (.publish p)) b' actions := by
  obtain ⟨metrics, hook, -, ⟨-, reason, hr⟩ | ⟨hr, delivered, b₁, acts, reason, henter, heq⟩⟩ :=
    onPublish_cases h
  · obtain ⟨rfl, rfl⟩ := Prod.mk.inj hr
    refine .of_quiet rfl rfl rfl fun id q => ?_
    unfold ackPublishError
    split <;> simp [pubrec]
  · obtain ⟨rfl, rfl⟩ := Prod.mk.inj heq
    obtain ⟨hentered, hacts⟩ := enter_hands (M := b.Routes (.packet cid (.publish p)))
      ⟨_, hr, rfl⟩ henter
    obtain ⟨hack, hacks⟩ := ackPublish_hands (M := b.Routes (.packet cid (.publish p)))
      b₁ cid p reason
    refine ⟨hack.auth.trans hentered.auth, fun id _ => by rw [hack.wills, hentered.wills],
      fun m hm => hentered.retained m (by rwa [Retains, hack.retained] at hm), fun hnone => ?_, fun id q hq => ?_⟩
    · rw [hr] at hnone
      cases hnone
    · exact .inl ((List.mem_append.mp hq).elim (hacts _) (hacks _))

theorem handle_effect {cid : String} {packet : PacketV5} {actions : List Action}
    (h : b.handle cid packet = some (b', actions)) :
    Effect b (.packet cid packet) b' actions := by
  have hupdate : ∀ f, (b.updateSession cid f).auth = b.auth ∧
      (b.updateSession cid f).wills = b.wills ∧
      (b.updateSession cid f).retained = b.retained := by
    intro f
    unfold updateSession
    split <;> exact ⟨rfl, rfl, rfl⟩
  cases packet with
  | publish p => exact onPublish_effect h
  | subscribe s =>
    obtain ⟨hhands, hsends⟩ := onSubscribe_hands (M := fun _ => True) h
    exact .of_hands hhands fun o ho => (hsends o ho).mono fun m hm => .inr hm
  | unsubscribe u =>
    obtain ⟨rfl, rfl⟩ := Prod.mk.inj (Option.some.inj h)
    have hhands := unsubscribeAll_hands (M := fun _ => True) b cid u.topicFilters
    exact .of_quiet hhands.auth hhands.wills hhands.retained (by simp)
  | disconnect d =>
    obtain ⟨rfl, rfl⟩ := Prod.mk.inj (Option.some.inj h)
    obtain ⟨hwills, hretained, hauth⟩ := detach_frame
      (if d.reasonCode ≠ .disconnectWithWill then { b with wills := b.wills.erase cid } else b) cid
    refine ⟨hauth.trans ?_, fun id hid => ?_, fun m hm => .inl ?_, fun _ => hretained.trans ?_,
      by simp⟩
    · split <;> rfl
    · have hne : id ≠ cid := fun he => hid (.inl he.symm)
      rw [hwills]
      split
      · exact AList.lookup_erase_ne hne
      · rfl
    · rw [Retains, hretained] at hm
      split at hm <;> exact hm
    · split <;> rfl
  | pubAck _ | pubRec _ | pubRel _ | pubComp _ =>
    obtain ⟨rfl, rfl⟩ := Prod.mk.inj (Option.some.inj h)
    obtain ⟨hauth, hwills, hretained⟩ := hupdate _
    exact .of_quiet hauth hwills hretained (by simp)
  | _ =>
    obtain ⟨rfl, rfl⟩ := Prod.mk.inj (Option.some.inj h)
    exact .of_quiet rfl rfl rfl (by simp)

theorem networkDisconnect_effect {cid : String} {actions : List Action}
    (h : b.networkDisconnect cid = some (b', actions)) :
    Effect b (.networkDisconnect cid) b' actions := by
  obtain ⟨-, -, hr⟩ | ⟨m, delivered, b₁, acts, hr, henter, hr'⟩ := networkDisconnect_cases h
  · obtain ⟨rfl, rfl⟩ := Prod.mk.inj hr
    obtain ⟨hwills, hretained, hauth⟩ := detach_frame b cid
    exact .of_quiet hauth hwills hretained (by simp)
  · obtain ⟨rfl, rfl⟩ := Prod.mk.inj hr'
    obtain ⟨hentered, hacts⟩ := enter_hands (M := b.Routes (.networkDisconnect cid))
      ⟨m, hr, rfl⟩ henter
    obtain ⟨hwills, hretained, hauth⟩ := detach_frame b₁ cid
    refine ⟨hauth.trans hentered.auth, fun id hid => ?_,
      fun m hm => hentered.retained m (by rwa [Retains, hretained] at hm), fun hnone => ?_,
      fun id p hp => .inl (hacts _ hp)⟩
    · have hne : id ≠ cid := fun he => hid (.inl he.symm)
      rw [hwills, hentered.wills]
      exact AList.lookup_erase_ne hne
    · rw [hr] at hnone
      cases hnone

theorem step_effect {e : Event} {actions : List Action} (h : b.step e = some (b', actions)) :
    Effect b e b' actions := by
  cases e with
  | connect c =>
    have heffect := connect_effect b c
    rw [show b.connect c = (b', actions) from Option.some.inj h] at heffect
    exact heffect
  | packet cid packet => exact handle_effect h
  | networkDisconnect cid => exact networkDisconnect_effect h

/-! ## Sessions that go on -/

/-- The call is a connect packet that throws the session of its client away. -/
def StartsClean (b : Broker H) (id : String) : Event → Prop
  | .connect c => b.Connects id c ∧ c.cleanStart = true
  | _ => False

/-- The call ends the session of a client: a clean start, or a departure when it must not
persist. -/
def Ends (b : Broker H) (id : String) (e : Event) : Prop :=
  b.StartsClean id e ∨
    (Leaves id e ∧ ∃ s ∈ b.sessions.lookup id, s.sessionExpirySecs = 0)

instance {e : Event} : Decidable (Leaves id e) := by
  unfold Leaves
  split <;> infer_instance

instance {e : Event} : Decidable (b.StartsClean id e) := by
  unfold StartsClean Connects
  split <;> infer_instance

instance {e : Event} : Decidable (b.Ends id e) := by
  unfold Ends
  infer_instance

theorem step_continues {e : Event} {actions : List Action} {s : Session}
    (h : b.step e = some (b', actions)) (hends : ¬ b.Ends id e)
    (hs : b.sessions.lookup id = some s) :
    ∃ s', b'.sessions.lookup id = some s' ∧ Change b e id (some s) (some s') := by
  have hchange := step_change h id
  rw [hs] at hchange
  generalize b'.sessions.lookup id = o at hchange
  cases o with
  | some s' => exact ⟨s', rfl, hchange⟩
  | none =>
    cases hchange with
    | expire he hexpiry => exact absurd (.inr ⟨he, s, hs, hexpiry⟩) hends

omit [BrokerHook H] in
theorem opened_of_continues {c : ConnectV5} {s : Session} (hid : b.Connects id c)
    (hends : ¬ b.Ends id (.connect c)) (hs : b.sessions.lookup id = some s) :
    b.resumed c = some s ∧ b.opened c = (s.takenBy c).flushed := by
  have hclean : c.cleanStart = false := by
    by_contra hclean
    exact hends (.inl ⟨hid, by simpa using hclean⟩)
  have hres : b.resumed c = some s := by
    rw [resumed, hclean, hid.2, hs]
    rfl
  exact ⟨hres, by rw [opened, hres]⟩

/-- A call that was made: the broker before and after it, and what it answered. -/
structure Call (H : Type) where
  before : Broker H
  event : Event
  actions : List Action
  after : Broker H

/-- The calls made since `start`.  Between calls the maps may take another order. -/
inductive Trace (start : Broker H) : List (Call H) → Broker H → Prop
  | start : Trace start [] start
  | call {calls : List (Call H)} {b b' : Broker H} {e : Event} {actions : List Action}
      (htrace : Trace start calls b) (hstep : b.step e = some (b', actions)) :
      Trace start (calls ++ [⟨b, e, actions, b'⟩]) b'
  | reorder {calls : List (Call H)} {b : Broker H} {sessions : Dict String Session}
      {retained : RetainedStore} (htrace : Trace start calls b)
      (hsessions : Dict.Reordered b.sessions sessions)
      (hretained : Dict.Reordered b.retained retained) :
      Trace start calls { b with sessions, retained }

theorem Trace.next {start b : Broker H} {calls : List (Call H)} {e : Event}
    (htrace : Trace start calls b) (h : (b.step e).isSome) :
    Trace start (calls ++ [⟨b, e, ((b.step e).get h).2, ((b.step e).get h).1⟩])
      ((b.step e).get h).1 :=
  htrace.call (Option.some_get h).symm

end

end Broker

end CaveHome.Mqtt
