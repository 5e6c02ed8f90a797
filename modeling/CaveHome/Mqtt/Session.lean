import CaveHome.Lib.Dict
import CaveHome.Mqtt.Codec
import CaveHome.Mqtt.Topic
import Mathlib.Data.Finset.Insert
import Mathlib.Data.Finset.Erase

/-!
# Sessions and retained messages

What the broker keeps for a client identifier, and the last retained message of each topic.
-/

namespace CaveHome.Mqtt

/-- The state kept for one client identifier. -/
structure Session where
  clientId : String
  username : Option String
  sessionExpirySecs : UInt32
  connected : Bool
  subscriptions : List SubscriptionV5
  nextPacketId : UInt16
  /-- Sent and waiting for the first acknowledgement. -/
  outgoingUnacked : Dict UInt16 PublishV5
  /-- Released and waiting for the last acknowledgement. -/
  outgoingPubrel : Finset UInt16
  /-- Received and waiting for the release. -/
  incomingQos2 : Finset UInt16
  /-- Kept while the client is away. -/
  queued : List PublishV5

namespace Session

def new (clientId : String) (sessionExpirySecs : UInt32) : Session where
  clientId := clientId
  username := none
  sessionExpirySecs := sessionExpirySecs
  connected := false
  subscriptions := []
  nextPacketId := 0
  outgoingUnacked := ∅
  outgoingPubrel := ∅
  incomingQos2 := ∅
  queued := []

/-- The packet identifier after this one; zero is skipped. -/
def succId (id : UInt16) : UInt16 := if id + 1 = 0 then 1 else id + 1

/-- Is the packet identifier taken by a message in flight to the client? -/
def inFlight (s : Session) (id : UInt16) : Bool :=
  (s.outgoingUnacked.lookup id).isSome || decide (id ∈ s.outgoingPubrel)

/-- The loop of `nextId`, for at most the given number of rounds. -/
def nextIdLoop (s : Session) : Nat → Option (UInt16 × Session)
  | 0 => none
  | rounds + 1 =>
    let s := { s with nextPacketId := succId s.nextPacketId }
    if s.inFlight s.nextPacketId then s.nextIdLoop rounds else some (s.nextPacketId, s)

/-- The next packet identifier that is not in flight.  The rounds cover every identifier, so
`none` means that the loop goes on for ever. -/
def nextId (s : Session) : Option (UInt16 × Session) := s.nextIdLoop 65535

/-- Add a subscription, or replace the first one with its filter.  Was there one? -/
def addSubscription (s : Session) (sub : SubscriptionV5) : Session × Bool :=
  match s.subscriptions.findIdx? (·.topicFilter == sub.topicFilter) with
  | some i => ({ s with subscriptions := s.subscriptions.set i sub }, true)
  | none => ({ s with subscriptions := s.subscriptions ++ [sub] }, false)

/-- Remove the subscriptions with this filter.  Was there one? -/
def removeSubscription (s : Session) (filter : String) : Session × Bool :=
  let kept := s.subscriptions.filter (·.topicFilter != filter)
  ({ s with subscriptions := kept }, kept.length != s.subscriptions.length)

/-! ## Packet identifiers -/

theorem succId_toNat (id : UInt16) : (succId id).toNat = id.toNat % 65535 + 1 := by
  have hid := id.toNat_lt
  unfold succId
  split
  next h =>
    have h0 : (id.toNat + 1) % 65536 = 0 := by simpa using congrArg UInt16.toNat h
    have : id.toNat = 65535 := by omega
    simp [this]
  next h =>
    have h0 : (id.toNat + 1) % 65536 ≠ 0 := by
      intro h0
      exact h (UInt16.toNat_inj.mp (by simpa using h0))
    have : (id + 1).toNat = (id.toNat + 1) % 65536 := by simp
    omega

theorem succId_iterate_toNat (id : UInt16) (k : Nat) :
    (succId^[k + 1] id).toNat = (id.toNat + k) % 65535 + 1 := by
  induction k with
  | zero => simpa using succId_toNat id
  | succ k ih =>
    rw [Function.iterate_succ_apply', succId_toNat, ih]
    omega

theorem nextIdLoop_eq_none_iff (s : Session) (rounds : Nat) :
    s.nextIdLoop rounds = none ↔
      ∀ k < rounds, s.inFlight (succId^[k + 1] s.nextPacketId) = true := by
  induction rounds generalizing s with
  | zero => simp [nextIdLoop]
  | succ rounds ih =>
    have hstep : ∀ id, ({ s with nextPacketId := succId s.nextPacketId } : Session).inFlight id =
        s.inFlight id := fun _ => rfl
    rw [nextIdLoop]
    simp only [hstep]
    split
    next h =>
      rw [ih, Nat.forall_lt_succ_left]
      simp [hstep, h, Function.iterate_succ_apply]
    next h =>
      simp only [reduceCtorEq, false_iff, not_forall]
      exact ⟨0, by omega, by simpa using h⟩

theorem nextId_eq_none_iff (s : Session) :
    s.nextId = none ↔ ∀ id, id ≠ 0 → s.inFlight id = true := by
  rw [nextId, nextIdLoop_eq_none_iff]
  constructor
  · intro h id hid
    have hid' : id.toNat ≠ 0 := fun h0 => hid (UInt16.toNat_inj.mp (by simpa using h0))
    have hlt := id.toNat_lt
    -- the rounds walk through all identifiers from the last one on
    let k := (id.toNat - 1 + 65535 - s.nextPacketId.toNat % 65535) % 65535
    have hk : succId^[k + 1] s.nextPacketId = id := by
      apply UInt16.toNat_inj.mp
      rw [succId_iterate_toNat]
      omega
    exact hk ▸ h k (Nat.mod_lt _ (by decide))
  · intro h k _
    apply h
    intro h0
    have := succId_iterate_toNat s.nextPacketId k
    rw [h0] at this
    simp at this

theorem nextIdLoop_eq_some {s s' : Session} {rounds : Nat} {id : UInt16}
    (h : s.nextIdLoop rounds = some (id, s')) : s' = { s with nextPacketId := id } := by
  induction rounds generalizing s with
  | zero => simp [nextIdLoop] at h
  | succ rounds ih =>
    rw [nextIdLoop] at h
    dsimp only at h
    split at h
    · have hs' := ih h
      exact hs'
    · rw [Option.some.injEq, Prod.mk.injEq] at h
      obtain ⟨rfl, rfl⟩ := h
      rfl

theorem nextId_eq_some {s s' : Session} {id : UInt16} (h : s.nextId = some (id, s')) :
    s' = { s with nextPacketId := id } := nextIdLoop_eq_some h

theorem addSubscription_mem {s : Session} {sub x : SubscriptionV5}
    (h : x ∈ (s.addSubscription sub).1.subscriptions) : x ∈ s.subscriptions ∨ x = sub := by
  unfold addSubscription at h
  split at h
  · exact List.mem_or_eq_of_mem_set h
  · simpa using h

theorem addSubscription_frame (s : Session) (sub : SubscriptionV5) :
    (s.addSubscription sub).1.username = s.username ∧
      (s.addSubscription sub).1.queued = s.queued := by
  unfold addSubscription
  split <;> exact ⟨rfl, rfl⟩

end Session

/-! ## Retained messages -/

structure RetainedMessage where
  payload : Bytes
  qos : QoS
  properties : List Property
  deriving DecidableEq

/-- The retained message of each topic. -/
abbrev RetainedStore := Dict String RetainedMessage

namespace RetainedStore

/-- Without a payload the message clears the topic. -/
def apply (m : RetainedStore) (topic : String) (msg : RetainedMessage) : RetainedStore :=
  if msg.payload.isEmpty then m.erase topic else m.insert topic msg

/-- The retained messages whose topic the filter matches. -/
def matching (m : RetainedStore) (filter : String) : List (String × RetainedMessage) :=
  (m.entries.filter fun e => topicMatches filter e.1).map fun e => (e.1, e.2)

theorem topicMatches_of_mem_matching {m : RetainedStore} {filter : String}
    {hit : String × RetainedMessage} (h : hit ∈ m.matching filter) :
    topicMatches filter hit.1 = true := by
  obtain ⟨e, he, rfl⟩ := List.mem_map.mp h
  exact (List.mem_filter.mp he).2

end RetainedStore

end CaveHome.Mqtt
