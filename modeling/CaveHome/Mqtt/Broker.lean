import CaveHome.Lib.Emit
import CaveHome.Mqtt.Topic
import CaveHome.Mqtt.Session

/-!
# The broker

The decision core: packets in, actions out.  A call that never returns has the result `none`.
-/

namespace CaveHome.Mqtt

structure BrokerConfig where
  maxQos : QoS := .exactlyOnce
  retainAvailable : Bool := true

/-- What the transport has to do. -/
inductive Action
  | send (clientId : String) (packet : PacketV5)
  | drop (clientId : String) (reason : ReasonCode)
  deriving DecidableEq

/-- The counters that the broker updates. -/
structure BrokerMetrics where
  clientsConnected : Nat := 0
  clientsTotal : Nat := 0
  messagesReceived : Nat := 0
  messagesSent : Nat := 0
  messagesDropped : Nat := 0
  bytesReceived : Nat := 0
  bytesSent : Nat := 0

namespace BrokerMetrics

def onClientConnected (m : BrokerMetrics) : BrokerMetrics :=
  { m with clientsConnected := m.clientsConnected + 1, clientsTotal := m.clientsTotal + 1 }

def onClientDisconnected (m : BrokerMetrics) : BrokerMetrics :=
  { m with clientsConnected := m.clientsConnected - 1 }

def onMessageReceived (m : BrokerMetrics) (payloadLen : Nat) : BrokerMetrics :=
  { m with messagesReceived := m.messagesReceived + 1, bytesReceived := m.bytesReceived + payloadLen }

def onMessageSent (m : BrokerMetrics) (payloadLen : Nat) : BrokerMetrics :=
  { m with messagesSent := m.messagesSent + 1, bytesSent := m.bytesSent + payloadLen }

def onMessageDropped (m : BrokerMetrics) : BrokerMetrics :=
  { m with messagesDropped := m.messagesDropped + 1 }

end BrokerMetrics

/-- A message shown to a hook. -/
structure PublishEvent where
  clientId : String
  topic : String
  qos : QoS
  retain : Bool
  payload : Bytes

inductive PublishDecision
  | accept
  | reject
  deriving DecidableEq

/-- An observer with a state of its own that may veto messages. -/
class BrokerHook (H : Type) where
  onConnect : H → String → H := fun h _ => h
  onDisconnect : H → String → H := fun h _ => h
  onSubscribe : H → String → String → H := fun h _ _ => h
  onPublish : H → PublishEvent → H × PublishDecision := fun h _ => (h, .accept)

/-- The hook that does nothing. -/
instance : BrokerHook Unit := {}

structure Broker (H : Type) where
  config : BrokerConfig
  auth : Authenticator
  retained : RetainedStore
  sessions : Dict String Session
  wills : Dict String Will
  nextAuto : Nat
  metrics : BrokerMetrics
  hook : Option H

/-- The interval in the session expiry property, zero without one. -/
def sessionExpiryFrom (props : List Property) : UInt32 :=
  (props.findSome? fun
    | .sessionExpiryInterval v => some v
    | _ => none).getD 0

def qosMin (a b : QoS) : QoS := if a.toU8 ≤ b.toU8 then a else b

def qosMax (a b : QoS) : QoS := if b.toU8 ≤ a.toU8 then a else b

/-- The reply code for a granted quality of service. -/
def grantedCode : QoS → ReasonCode
  | .atMostOnce => .success
  | .atLeastOnce => .grantedQoS1
  | .exactlyOnce => .grantedQoS2

def pubrec (clientId : String) (packetId : UInt16) (reason : ReasonCode) : Action :=
  .send clientId (.pubRec ⟨packetId, reason, []⟩)

/-- The negative acknowledgement of a rejected message. -/
def ackPublishError (clientId : String) (p : PublishV5) (reason : ReasonCode) : List Action :=
  match p.qos, p.packetId with
  | .atLeastOnce, some pid => [.send clientId (.pubAck ⟨pid, reason, []⟩)]
  | .exactlyOnce, some pid => [pubrec clientId pid reason]
  | _, _ => []

namespace Broker

variable {H : Type}

def new (config : BrokerConfig) (auth : Authenticator) (hook : Option H) : Broker H where
  config := config
  auth := auth
  retained := ∅
  sessions := ∅
  wills := ∅
  nextAuto := 0
  metrics := {}
  hook := hook

/-- The user name of a client, `none` also without a session. -/
def username (b : Broker H) (clientId : String) : Option String :=
  (b.sessions.lookup clientId).bind (·.username)

/-- Change the session of a client, if there is one. -/
def updateSession (b : Broker H) (clientId : String) (f : Session → Session) : Broker H :=
  match b.sessions.lookup clientId with
  | some s => { b with sessions := b.sessions.insert clientId (f s) }
  | none => b

/-! ## Connecting -/

/-- The identifier a client connects under; an empty one is replaced. -/
def assignId (b : Broker H) (c : ConnectV5) : String × Bool × Broker H :=
  if c.clientId.isEmpty then
    let b := { b with nextAuto := b.nextAuto + 1 }
    ("auto-" ++ toString b.nextAuto, true, b)
  else (c.clientId, false, b)

/-- Bind a connection to the session of its client, a new one unless there is one to resume.
Was there one? -/
def attach [BrokerHook H] (b : Broker H) (clientId : String) (c : ConnectV5) : Broker H × Bool :=
  let sessionExpiry := sessionExpiryFrom c.properties
  let kept := if c.cleanStart then b.sessions.erase clientId else b.sessions
  let sess := (kept.lookup clientId).getD (.new clientId sessionExpiry)
  let sess' :=
    { sess with connected := true, sessionExpirySecs := sessionExpiry, username := c.username }
  let wills :=
    match c.will with
    | some w => b.wills.insert clientId w
    | none => b.wills.erase clientId
  ({ b with
    sessions := AList.insert clientId sess' kept
    wills := wills
    metrics := b.metrics.onClientConnected
    hook := b.hook.map (BrokerHook.onConnect · clientId) }, (kept.lookup clientId).isSome)

/-- Send what was kept while the session was away. -/
def deliverQueued (b : Broker H) (clientId : String) : Broker H × List Action :=
  match b.sessions.lookup clientId with
  | none => (b, [])
  | some sess =>
    let unacked := sess.queued.foldl (fun m p =>
      match p.packetId with
      | some pid => AList.insert pid p m
      | none => m) sess.outgoingUnacked
    let sess' := { sess with queued := [], outgoingUnacked := unacked }
    ({ b with sessions := b.sessions.insert clientId sess' },
      sess.queued.map fun p => .send clientId (.publish p))

def connect [BrokerHook H] (b : Broker H) (c : ConnectV5) : Broker H × List Action :=
  if !b.auth.authenticate c.username c.password then
    let cid := if c.clientId.isEmpty then "<unauthenticated>" else c.clientId
    (b, [.send cid (.connAck ⟨false, .badUserNameOrPassword, []⟩),
      .drop cid .badUserNameOrPassword])
  else
    let (clientId, assigned, b) := b.assignId c
    let takeover : List Action :=
      if (b.sessions.lookup clientId).any (·.connected) then [.drop clientId .sessionTakenOver]
      else []
    let (b, sessionPresent) := b.attach clientId c
    let props := if assigned then [.assignedClientIdentifier clientId] else []
    let connAck := Action.send clientId (.connAck ⟨sessionPresent, .success, props⟩)
    let (b, queued) := if sessionPresent then b.deliverQueued clientId else (b, [])
    (b, takeover ++ connAck :: queued)

/-! ## Subscribing -/

/-- One subscription of a request: the reply code, and the filter whose retained messages to
send. -/
def subscribeOne [BrokerHook H] (b : Broker H) (clientId : String) (username : Option String)
    (sub : SubscriptionV5) : Broker H × ReasonCode × Option (String × QoS) :=
  if !validTopicFilter sub.topicFilter then (b, .topicFilterInvalid, none)
  else if !b.auth.authorize username .subscribe sub.topicFilter then (b, .notAuthorized, none)
  else
    let granted := qosMin sub.qos b.config.maxQos
    let stored := { sub with qos := granted }
    let existed := (b.sessions.lookup clientId).any fun s => (s.addSubscription stored).2
    let b := b.updateSession clientId fun s => (s.addSubscription stored).1
    let b := { b with hook := b.hook.map (BrokerHook.onSubscribe · clientId sub.topicFilter) }
    let sendRetained :=
      match sub.retainHandling with
      | .sendOnSubscribe => true
      | .sendIfNew => !existed
      | .doNotSend => false
    (b, grantedCode granted, if sendRetained then some (sub.topicFilter, granted) else none)

def subscribeAll [BrokerHook H] (clientId : String) (username : Option String) :
    Broker H → List SubscriptionV5 → Broker H × List ReasonCode × List (String × QoS)
  | b, [] => (b, [], [])
  | b, sub :: subs =>
    let (b, code, hit) := b.subscribeOne clientId username sub
    let (b, codes, hits) := subscribeAll clientId username b subs
    (b, code :: codes, hit.toList ++ hits)

/-- Give a message its identifier, none at the lowest quality of service. -/
def allocate (sess : Session) (qos : QoS) : Option (Option UInt16 × Session) :=
  if qos = .atMostOnce then some (none, sess)
  else sess.nextId.map fun (id, sess) => (some id, sess)

/-- Remember a message that has an identifier until it is acknowledged. -/
def track (sess : Session) (p : PublishV5) : Session :=
  match p.packetId with
  | some pid => { sess with outgoingUnacked := sess.outgoingUnacked.insert pid p }
  | none => sess

/-- The retained messages for the granted filters, each with what was granted. -/
def retainedHits (m : RetainedStore) (filters : List (String × QoS)) :
    List (QoS × String × RetainedMessage) :=
  filters.flatMap fun (filter, granted) =>
    (m.matching filter).map fun (topic, msg) => (granted, topic, msg)

/-- Send one retained message. -/
def sendRetained (clientId : String) (b : Broker H)
    (hit : QoS × String × RetainedMessage) : Option (Broker H × List Action) :=
  let (granted, topic, msg) := hit
  let qos := qosMin msg.qos granted
  match b.sessions.lookup clientId with
  | none => some (b, [])
  | some sess => do
    let (packetId, sess) ← allocate sess qos
    let p : PublishV5 :=
      { topic, qos, retain := true, dup := false, packetId,
        properties := msg.properties, payload := msg.payload }
    return ({ b with sessions := b.sessions.insert clientId (track sess p) },
      [.send clientId (.publish p)])

def onSubscribe [BrokerHook H] (b : Broker H) (clientId : String) (s : SubscribeV5) :
    Option (Broker H × List Action) := do
  let username := b.username clientId
  let (b, codes, filters) := subscribeAll clientId username b s.subscriptions
  let (b, sends) ← emitAll (sendRetained clientId) b (retainedHits b.retained filters)
  return (b, .send clientId (.subAck ⟨s.packetId, [], codes⟩) :: sends)

def unsubscribeAll (clientId : String) :
    Broker H → List String → Broker H × List ReasonCode
  | b, [] => (b, [])
  | b, f :: fs =>
    let removed := (b.sessions.lookup clientId).any fun s => (s.removeSubscription f).2
    let b := b.updateSession clientId fun s => (s.removeSubscription f).1
    let (b, codes) := unsubscribeAll clientId b fs
    (b, (if removed then .success else .noSubscriptionExisted) :: codes)

def onUnsubscribe (b : Broker H) (clientId : String) (u : UnsubscribeV5) :
    Broker H × List Action :=
  let (b, codes) := unsubscribeAll clientId b u.topicFilters
  (b, [.send clientId (.unsubAck ⟨u.packetId, [], codes⟩)])

/-! ## Publishing -/

/-- The best quality of service among the subscriptions that take the message, and whether one of
them asks for the retain flag as published. -/
def bestSubscription (publisher : Option String) (topic id : String)
    (subs : List SubscriptionV5) : Option QoS × Bool :=
  subs.foldl (fun (best, rap) sub =>
    if !topicMatches sub.topicFilter topic then (best, rap)
    else if sub.noLocal && publisher == some id then (best, rap)
    else
      let q :=
        match best with
        | some q => qosMax q sub.qos
        | none => sub.qos
      (some q, rap || sub.retainAsPublished)) (none, false)

/-- The clients a message goes to. -/
def targets (b : Broker H) (publisher : Option String) (topic : String) (srcQos : QoS) :
    List (String × QoS × Bool) :=
  b.sessions.entries.filterMap fun ⟨id, sess⟩ =>
    let (best, rap) := bestSubscription publisher topic id sess.subscriptions
    best.map fun q => (id, qosMin srcQos q, rap)

/-- Hand a message to one of its targets: send it, queue it or drop it. -/
def routeTo (topic : String) (payload : Bytes) (properties : List Property) (retainSrc : Bool)
    (b : Broker H) (target : String × QoS × Bool) : Option (Broker H × List Action) :=
  let (id, qos, rap) := target
  match b.sessions.lookup id with
  | none => some (b, [])
  | some sess => do
    let (packetId, sess) ← allocate sess qos
    let pkt : PublishV5 :=
      { topic, qos, retain := retainSrc && rap, dup := false, packetId, properties, payload }
    if sess.connected then
      return ({ b with sessions := b.sessions.insert id (track sess pkt) },
        [.send id (.publish pkt)])
    else if qos ≠ .atMostOnce then
      return ({ b with
        sessions := b.sessions.insert id { sess with queued := sess.queued ++ [pkt] } }, [])
    else
      return ({ b with sessions := b.sessions.insert id sess }, [])

/-- Fan a message out; the count is of the messages sent, queued or dropped. -/
def routePublish (b : Broker H) (publisher : Option String) (topic : String) (srcQos : QoS)
    (payload : Bytes) (properties : List Property) (retainSrc : Bool) :
    Option (Nat × Broker H × List Action) := do
  let targets := b.targets publisher topic srcQos
  let (b, actions) ← emitAll (routeTo topic payload properties retainSrc) b targets
  let delivered := targets.length
  let metrics := (BrokerMetrics.onMessageSent · payload.length)^[delivered] b.metrics
  return (delivered, { b with metrics := metrics }, actions)

/-- Store a message as the retained one of its topic, if it asks for that. -/
def retain (b : Broker H) (wanted : Bool) (topic : String) (msg : RetainedMessage) : Broker H :=
  if wanted && b.config.retainAvailable then { b with retained := b.retained.apply topic msg }
  else b

/-- Ask the hook. -/
def askHook [BrokerHook H] (b : Broker H) (clientId : String) (p : PublishV5) :
    Broker H × PublishDecision :=
  match b.hook with
  | none => (b, .accept)
  | some h =>
    let (h, decision) := BrokerHook.onPublish h ⟨clientId, p.topic, p.qos, p.retain, p.payload⟩
    ({ b with hook := some h }, decision)

/-- The acknowledgement of a message that was routed. -/
def ackPublish (b : Broker H) (clientId : String) (p : PublishV5) (reason : ReasonCode) :
    Broker H × List Action :=
  match p.qos, p.packetId with
  | .atLeastOnce, some pid => (b, [.send clientId (.pubAck ⟨pid, reason, []⟩)])
  | .exactlyOnce, some pid =>
    (b.updateSession clientId fun s => { s with incomingQos2 := insert pid s.incomingQos2 },
      [pubrec clientId pid reason])
  | _, _ => (b, [])

/-- Is the message a repeat of one that is not released yet? -/
def isDuplicate (b : Broker H) (clientId : String) (p : PublishV5) : Option UInt16 :=
  if p.qos = .exactlyOnce then
    p.packetId.filter fun pid =>
      (b.sessions.lookup clientId).any fun s => decide (pid ∈ s.incomingQos2)
  else none

def onPublish [BrokerHook H] (b : Broker H) (clientId : String) (p : PublishV5) :
    Option (Broker H × List Action) :=
  if !validTopicName p.topic then some (b, ackPublishError clientId p .topicNameInvalid)
  else
    let b := { b with metrics := b.metrics.onMessageReceived p.payload.length }
    let (b, decision) := b.askHook clientId p
    let refused := ({ b with metrics := b.metrics.onMessageDropped },
      ackPublishError clientId p .notAuthorized)
    if decision = .reject then some refused
    else if !b.auth.authorize (b.username clientId) .publish p.topic then some refused
    else
      match b.isDuplicate clientId p with
      | some pid => some (b, [pubrec clientId pid .success])
      | none => do
        let b := b.retain p.retain p.topic ⟨p.payload, p.qos, p.properties⟩
        let (delivered, b, actions) ←
          b.routePublish (some clientId) p.topic p.qos p.payload p.properties p.retain
        let reason := if 0 < delivered then .success else .noMatchingSubscribers
        let (b, ack) := b.ackPublish clientId p reason
        return (b, actions ++ ack)

/-- Mark the session offline; forget it if it must not persist. -/
def detach [BrokerHook H] (b : Broker H) (clientId : String) : Broker H :=
  match b.sessions.lookup clientId with
  | none => b
  | some sess =>
    let b := { b with sessions := b.sessions.insert clientId { sess with connected := false } }
    let b :=
      if sess.connected then
        { b with
          metrics := b.metrics.onClientDisconnected
          hook := b.hook.map (BrokerHook.onDisconnect · clientId) }
      else b
    if sess.sessionExpirySecs = 0 then { b with sessions := b.sessions.erase clientId } else b

def onDisconnect [BrokerHook H] (b : Broker H) (clientId : String) (d : DisconnectV5) :
    Broker H × List Action :=
  let b :=
    if d.reasonCode ≠ .disconnectWithWill then { b with wills := b.wills.erase clientId } else b
  (b.detach clientId, [])

/-- The network is lost: the will is published. -/
def networkDisconnect [BrokerHook H] (b : Broker H) (clientId : String) :
    Option (Broker H × List Action) :=
  match b.wills.lookup clientId with
  | none => some (b.detach clientId, [])
  | some will => do
    let b := { b with wills := b.wills.erase clientId }
    let b := b.retain will.retain will.topic ⟨will.payload, will.qos, will.properties⟩
    let (_, b, actions) ← b.routePublish (some clientId) will.topic will.qos will.payload
      will.properties will.retain
    return (b.detach clientId, actions)

/-! ## Dispatch -/

/-- A packet from a connected client. -/
def handle [BrokerHook H] (b : Broker H) (clientId : String) :
    PacketV5 → Option (Broker H × List Action)
  | .subscribe s => b.onSubscribe clientId s
  | .unsubscribe u => some (b.onUnsubscribe clientId u)
  | .publish p => b.onPublish clientId p
  | .pubAck a =>
    some (b.updateSession clientId fun s =>
      { s with outgoingUnacked := s.outgoingUnacked.erase a.packetId }, [])
  | .pubRec r =>
    some (b.updateSession clientId fun s =>
      { s with
        outgoingUnacked := s.outgoingUnacked.erase r.packetId
        outgoingPubrel := insert r.packetId s.outgoingPubrel },
      [.send clientId (.pubRel ⟨r.packetId, .success, []⟩)])
  | .pubRel r =>
    some (b.updateSession clientId fun s =>
      { s with incomingQos2 := s.incomingQos2.erase r.packetId },
      [.send clientId (.pubComp ⟨r.packetId, .success, []⟩)])
  | .pubComp c =>
    some (b.updateSession clientId fun s =>
      { s with outgoingPubrel := s.outgoingPubrel.erase c.packetId }, [])
  | .pingReq => some (b, [.send clientId .pingResp])
  | .disconnect d => some (b.onDisconnect clientId d)
  | .connect _ | .connAck _ | .subAck _ | .unsubAck _ | .pingResp | .auth _ => some (b, [])

/-- A call the transport makes. -/
inductive Event
  | connect (c : ConnectV5)
  | packet (clientId : String) (packet : PacketV5)
  | networkDisconnect (clientId : String)

def step [BrokerHook H] (b : Broker H) : Event → Option (Broker H × List Action)
  | .connect c => some (b.connect c)
  | .packet clientId packet => b.handle clientId packet
  | .networkDisconnect clientId => b.networkDisconnect clientId

/-- The brokers that calls satisfying `cond` lead to.  Between calls the maps that the broker
iterates over may take another order. -/
inductive Run [BrokerHook H] (cond : Broker H → Event → Prop) (start : Broker H) : Broker H → Prop
  | start : Run cond start start
  | step {b b' : Broker H} {e : Event} {actions : List Action} (hrun : Run cond start b)
      (hcond : cond b e) (hstep : b.step e = some (b', actions)) : Run cond start b'
  | reorder {b : Broker H} {sessions : Dict String Session} {retained : RetainedStore}
      (hrun : Run cond start b) (hsessions : Dict.Reordered b.sessions sessions)
      (hretained : Dict.Reordered b.retained retained) :
      Run cond start { b with sessions, retained }

theorem Run.next [BrokerHook H] {cond : Broker H → Event → Prop} {start b : Broker H} {e : Event}
    (hrun : Run cond start b) (hcond : cond b e) (h : (b.step e).isSome) :
    Run cond start ((b.step e).get h).1 :=
  hrun.step hcond (Option.some_get h).symm

end Broker

end CaveHome.Mqtt
