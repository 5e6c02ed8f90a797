import CaveHome.Mqtt.BrokerResume

/-!
# Packet identifiers

The allocation looks for an identifier that is not in flight.  It does not look at the queue, where
messages keep the identifiers they got while the client was away.  The identifiers come in a circle,
so the queue is safe as long as the circle does not close: from its first identifier up to the
cursor every one is held, and an allocation that comes so far has found nothing free.
-/

namespace CaveHome.Mqtt

namespace Session

variable {s s' : Session} {id : UInt16}

/-! ## The circle of identifiers -/

/-- How many identifiers come before this one, from the cursor on. -/
def ahead (cursor id : UInt16) : Nat := (id.toNat - 1 + 65535 - cursor.toNat % 65535) % 65535

theorem toNat_ne_zero (h : id ≠ 0) : id.toNat ≠ 0 := fun h0 =>
  h (UInt16.toNat_inj.mp (by simpa using h0))

theorem succId_ne_zero (cursor : UInt16) (k : Nat) : succId^[k + 1] cursor ≠ 0 := by
  intro h0
  have htoNat := succId_iterate_toNat cursor k
  rw [h0] at htoNat
  simp at htoNat

theorem ahead_iterate (cursor : UInt16) {k : Nat} (hk : k < 65535) :
    ahead cursor (succId^[k + 1] cursor) = k := by
  rw [ahead, succId_iterate_toNat]
  omega

theorem iterate_ahead (cursor : UInt16) (h : id ≠ 0) :
    succId^[ahead cursor id + 1] cursor = id := by
  have hid := toNat_ne_zero h
  have hlt := id.toNat_lt
  apply UInt16.toNat_inj.mp
  rw [succId_iterate_toNat, ahead]
  omega

theorem ahead_inj {cursor id' : UInt16} (h : id ≠ 0) (h' : id' ≠ 0)
    (he : ahead cursor id = ahead cursor id') : id = id' := by
  rw [← iterate_ahead cursor h, he, iterate_ahead cursor h']

theorem ahead_self (h : id ≠ 0) : ahead id id = 65534 := by
  have hid := toNat_ne_zero h
  have hlt := id.toNat_lt
  rw [ahead]
  omega

theorem ahead_le (cursor id : UInt16) : ahead cursor id ≤ 65534 := by
  rw [ahead]
  omega

theorem ahead_of_lt {cursor m : UInt16} (hm : m ≠ 0) (h : id ≠ 0)
    (hlt : ahead cursor m < ahead cursor id) :
    ahead m id = ahead cursor id - ahead cursor m - 1 := by
  have hid := toNat_ne_zero h
  have hid' := id.toNat_lt
  have hm₀ := toNat_ne_zero hm
  have hm' := m.toNat_lt
  simp only [ahead] at hlt ⊢
  omega

theorem nextIdLoop_finds {rounds : Nat} (h : s.nextIdLoop rounds = some (id, s')) :
    ∃ k < rounds, id = succId^[k + 1] s.nextPacketId ∧ s.inFlight id = false ∧
      ∀ j < k, s.inFlight (succId^[j + 1] s.nextPacketId) = true := by
  induction rounds generalizing s with
  | zero => simp [nextIdLoop] at h
  | succ rounds ih =>
    rw [nextIdLoop] at h
    dsimp only at h
    split at h
    next htaken =>
      obtain ⟨k, hk, hid, hfree, hbefore⟩ := ih h
      refine ⟨k + 1, by omega, hid, hfree, fun j hj => ?_⟩
      cases j with
      | zero => exact htaken
      | succ j => exact hbefore j (by omega)
    next hfree =>
      obtain ⟨rfl, -⟩ := Prod.mk.inj (Option.some.inj h)
      exact ⟨0, by omega, rfl, Bool.eq_false_iff.mpr hfree, by omega⟩

theorem nextId_finds (h : s.nextId = some (id, s')) :
    id ≠ 0 ∧ s.inFlight id = false ∧
      ∀ id', id' ≠ 0 → ahead s.nextPacketId id' < ahead s.nextPacketId id →
        s.inFlight id' = true := by
  obtain ⟨k, hk, rfl, hfree, hbefore⟩ := nextIdLoop_finds h
  refine ⟨succId_ne_zero _ k, hfree, fun id' hid' hlt => ?_⟩
  rw [ahead_iterate _ hk] at hlt
  have hearlier := hbefore _ hlt
  rwa [iterate_ahead _ hid'] at hearlier

/-! ## Identifiers that are held -/

/-- A message for the client that is queued or in flight has this identifier. -/
def Holds (s : Session) (id : UInt16) : Prop :=
  s.inFlight id = true ∨ ∃ p ∈ s.queued, p.packetId = some id

instance (s : Session) (id : UInt16) : Decidable (s.Holds id) := by
  unfold Holds
  infer_instance

/-- One of the 65535 identifiers is not held. -/
def HasFreeId (s : Session) : Prop := ∃ id, id ≠ 0 ∧ ¬ s.Holds id

/-- The allocation returns, with an identifier that is not held. -/
def Allocates (s : Session) : Prop :=
  ∃ id s', s.nextId = some (id, s') ∧ id ≠ 0 ∧ ¬ s.Holds id

/-- No two messages that are queued or in flight share an identifier. -/
structure Apart (s : Session) : Prop where
  queued : ∀ p ∈ s.queued, ∃ pid, p.packetId = some pid ∧ pid ≠ 0 ∧ s.inFlight pid = false
  once : (s.queued.map (·.packetId)).Nodup
  released : ∀ pid ∈ s.outgoingPubrel, pid ∉ s.outgoingUnacked

/-- Between a queued identifier and the cursor every identifier is held. -/
def Closed (s : Session) : Prop :=
  ∀ p ∈ s.queued, ∀ pid, p.packetId = some pid → ∀ id, id ≠ 0 →
    ahead s.nextPacketId pid ≤ ahead s.nextPacketId id → s.Holds id

/-- What the broker keeps of every session. -/
structure Ids (s : Session) : Prop where
  apart : s.Apart
  closed : s.Closed

theorem inFlight_iff : s.inFlight id = true ↔ id ∈ s.outgoingUnacked ∨ id ∈ s.outgoingPubrel := by
  rw [inFlight, Bool.or_eq_true, AList.lookup_isSome, decide_eq_true_iff]

theorem Ids.of_released (hqueued : s.queued = [])
    (hreleased : ∀ pid ∈ s.outgoingPubrel, pid ∉ s.outgoingUnacked) : s.Ids where
  apart := ⟨by simp [hqueued], by simp [hqueued], hreleased⟩
  closed := by simp [Closed, hqueued]

theorem Ids.congr (h : s.Ids) (hunacked : s'.outgoingUnacked = s.outgoingUnacked)
    (hpubrel : s'.outgoingPubrel = s.outgoingPubrel) (hqueued : s'.queued = s.queued)
    (hcursor : s'.nextPacketId = s.nextPacketId) : s'.Ids := by
  have hflight : s'.inFlight = s.inFlight := by
    funext pid
    rw [inFlight, inFlight, hunacked, hpubrel]
  obtain ⟨⟨hq, honce, hreleased⟩, hclosed⟩ := h
  refine ⟨⟨?_, ?_, ?_⟩, ?_⟩
  · rwa [hqueued, hflight]
  · rwa [hqueued]
  · rwa [hpubrel, hunacked]
  · simp only [Closed, Holds, hqueued, hcursor, hflight]
    exact hclosed

theorem Ids.allocated_free (h : s.Ids) (hfree : s.HasFreeId) (hnext : s.nextId = some (id, s')) :
    id ≠ 0 ∧ ¬ s.Holds id := by
  obtain ⟨hne, hflight, hbefore⟩ := nextId_finds hnext
  refine ⟨hne, ?_⟩
  rintro (hin | ⟨p, hp, hpid⟩)
  · rw [hflight] at hin
    cases hin
  · obtain ⟨free, hfree, hnot⟩ := hfree
    obtain hlt | hle := Nat.lt_or_ge (ahead s.nextPacketId free) (ahead s.nextPacketId id)
    · exact hnot (.inl (hbefore free hfree hlt))
    · exact hnot (h.closed p hp id hpid free hfree hle)

theorem Ids.allocates_iff (h : s.Ids) : s.Allocates ↔ s.HasFreeId := by
  constructor
  · rintro ⟨id, s', -, hne, hnot⟩
    exact ⟨id, hne, hnot⟩
  · intro hfree
    obtain ⟨free, hne, hnot⟩ := hfree
    have hsome : s.nextId ≠ none := by
      rw [Ne, nextId_eq_none_iff]
      intro hall
      exact hnot (.inl (hall free hne))
    obtain ⟨⟨id, s'⟩, hnext⟩ := Option.ne_none_iff_exists'.mp hsome
    exact ⟨id, s', hnext, h.allocated_free ⟨free, hne, hnot⟩ hnext⟩

/-! ## Recording an allocation -/

theorem Ids.closed_of_allocated {t : Session} (h : s.Ids) (hnext : s.nextId = some (id, s'))
    (hnot : ¬ s.Holds id) (hcursor : t.nextPacketId = id)
    (hholds : ∀ pid, s.Holds pid → t.Holds pid) (hnew : t.Holds id)
    (hqueued : ∀ p ∈ t.queued, p ∈ s.queued ∨ p.packetId = some id) : t.Closed := by
  obtain ⟨hne, -, hbefore⟩ := nextId_finds hnext
  intro p hp pid hpid x hx hle
  rw [hcursor] at hle
  obtain hp | hp := hqueued p hp
  · obtain ⟨pid', hpid', hpid₀, hflight⟩ := h.apart.queued p hp
    obtain rfl : pid' = pid := Option.some.inj (hpid'.symm.trans hpid)
    -- the queued identifier lies beyond the new cursor
    have hbeyond : ahead s.nextPacketId id < ahead s.nextPacketId pid' := by
      by_contra hnear
      obtain hlt | heq := Nat.lt_or_eq_of_le (Nat.le_of_not_lt hnear)
      · rw [hbefore pid' hpid₀ hlt] at hflight
        cases hflight
      · exact hnot (.inr ⟨p, hp, ahead_inj hpid₀ hne heq ▸ hpid⟩)
    rw [ahead_of_lt hne hpid₀ hbeyond] at hle
    obtain hlt | heq | hgt := Nat.lt_trichotomy (ahead s.nextPacketId x) (ahead s.nextPacketId id)
    · exact hholds x (.inl (hbefore x hx hlt))
    · exact ahead_inj hx hne heq ▸ hnew
    · rw [ahead_of_lt hne hx hgt] at hle
      exact hholds x (h.closed p hp pid' hpid x hx (by omega))
  · obtain rfl : id = pid := Option.some.inj (hp.symm.trans hpid)
    have hlast := ahead_self hne
    have hxle := ahead_le id x
    have heq : ahead id x = ahead id id := by omega
    exact ahead_inj hx hne heq ▸ hnew

theorem mem_unacked_track {p : PublishV5} (hp : p.packetId = some id) (s : Session)
    (pid : UInt16) :
    pid ∈ (Broker.track s p).outgoingUnacked ↔ pid = id ∨ pid ∈ s.outgoingUnacked := by
  rw [Broker.track, hp]
  exact AList.mem_insert _

theorem track_frame (s : Session) (p : PublishV5) :
    (Broker.track s p).queued = s.queued ∧
      (Broker.track s p).outgoingPubrel = s.outgoingPubrel ∧
      (Broker.track s p).nextPacketId = s.nextPacketId := by
  unfold Broker.track
  split <;> exact ⟨rfl, rfl, rfl⟩

theorem inFlight_track {p : PublishV5} (hp : p.packetId = some id) (s : Session) (pid : UInt16) :
    (Broker.track s p).inFlight pid = true ↔ pid = id ∨ s.inFlight pid = true := by
  rw [inFlight_iff, inFlight_iff, mem_unacked_track hp, (track_frame s p).2.1, or_assoc]

theorem Ids.track {p : PublishV5} (h : s.Ids) (hfree : s.HasFreeId)
    (hnext : s.nextId = some (id, s')) (hp : p.packetId = some id) : (Broker.track s' p).Ids := by
  obtain ⟨hne, hnot⟩ := h.allocated_free hfree hnext
  have hs' := nextId_eq_some hnext
  -- the allocation moves the cursor, tracking adds to what is unacknowledged
  have hqueued : (Broker.track s' p).queued = s.queued := by rw [(track_frame s' p).1, hs']
  have hpubrel : (Broker.track s' p).outgoingPubrel = s.outgoingPubrel := by
    rw [(track_frame s' p).2.1, hs']
  have hcursor : (Broker.track s' p).nextPacketId = id := by rw [(track_frame s' p).2.2, hs']
  have hmem := mem_unacked_track hp s'
  have hflight : ∀ pid, (Broker.track s' p).inFlight pid = true ↔
      pid = id ∨ s.inFlight pid = true := by
    intro pid
    rw [inFlight_track hp, hs']
    rfl
  refine ⟨⟨fun q hq => ?_, by rw [hqueued]; exact h.apart.once, fun pid hpid hin => ?_⟩, ?_⟩
  · rw [hqueued] at hq
    obtain ⟨pid, hpid, hpid₀, hout⟩ := h.apart.queued q hq
    refine ⟨pid, hpid, hpid₀, ?_⟩
    rw [Bool.eq_false_iff, Ne, hflight]
    rintro (rfl | hin)
    · exact hnot (.inr ⟨q, hq, hpid⟩)
    · exact absurd hin (by simp [hout])
  · rw [hpubrel] at hpid
    obtain rfl | hin := (hmem pid).mp hin
    · exact hnot (.inl (inFlight_iff.mpr (.inr hpid)))
    · rw [hs'] at hin
      exact h.apart.released pid hpid hin
  · refine h.closed_of_allocated hnext hnot hcursor ?_ (.inl ((hflight id).mpr (.inl rfl)))
      fun q hq => .inl (hqueued ▸ hq)
    rintro pid (hin | ⟨q, hq, hqid⟩)
    · exact .inl ((hflight pid).mpr (.inr hin))
    · exact .inr ⟨q, hqueued.symm ▸ hq, hqid⟩

theorem Ids.enqueue {p : PublishV5} (h : s.Ids) (hfree : s.HasFreeId)
    (hnext : s.nextId = some (id, s')) (hp : p.packetId = some id) :
    ({ s' with queued := s'.queued ++ [p] } : Session).Ids := by
  obtain ⟨hne, hnot⟩ := h.allocated_free hfree hnext
  have hout : s.inFlight id = false := (nextId_finds hnext).2.1
  obtain rfl := nextId_eq_some hnext
  refine ⟨⟨fun q hq => ?_, ?_, h.apart.released⟩, ?_⟩
  · obtain hq | hq := List.mem_append.mp hq
    · exact h.apart.queued q hq
    · obtain rfl := List.mem_singleton.mp hq
      exact ⟨id, hp, hne, hout⟩
  · rw [List.map_append, List.nodup_append]
    refine ⟨h.apart.once, List.nodup_singleton _, ?_⟩
    rintro _ hq _ hnew rfl
    obtain ⟨q, hq, hqid⟩ := List.mem_map.mp hq
    rw [List.map_singleton, List.mem_singleton] at hnew
    exact hnot (.inr ⟨q, hq, (hqid.trans hnew).trans hp⟩)
  · refine h.closed_of_allocated hnext hnot rfl ?_ (.inr ⟨p, by simp, hp⟩) fun q hq => ?_
    · rintro pid (hin | ⟨q, hq, hqid⟩)
      · exact .inl hin
      · exact .inr ⟨q, List.mem_append_left _ hq, hqid⟩
    · obtain hq | hq := List.mem_append.mp hq
      · exact .inl hq
      · exact .inr (List.mem_singleton.mp hq ▸ hp)

theorem Ids.flushed (h : s.Ids) : s.flushed.Ids := by
  refine .of_released rfl fun pid hpid hmem => ?_
  obtain hmem | ⟨p, hp, hpid'⟩ := mem_unacked_flushed.mp hmem
  · exact h.apart.released pid hpid hmem
  · obtain ⟨pid', hp', -, hout⟩ := h.apart.queued p hp
    obtain rfl : pid' = pid := Option.some.inj (hp'.symm.trans hpid')
    have hin : s.inFlight pid' = true := inFlight_iff.mpr (.inr hpid)
    rw [hout] at hin
    cases hin

theorem Ids.track_idle {p : PublishV5} (h : s.Ids) (hidle : s.queued = [])
    (hnext : s.nextId = some (id, s')) (hp : p.packetId = some id) : (Broker.track s' p).Ids := by
  obtain ⟨-, hout, -⟩ := nextId_finds hnext
  have hs' := nextId_eq_some hnext
  refine .of_released (by rw [(track_frame s' p).1, hs', hidle]) fun pid hpid hin => ?_
  rw [(track_frame s' p).2.1, hs'] at hpid
  obtain rfl | hin := (mem_unacked_track hp s' pid).mp hin
  · rw [Bool.eq_false_iff, Ne, inFlight_iff] at hout
    exact hout (.inr hpid)
  · rw [hs'] at hin
    exact h.apart.released pid hpid hin

end Session

namespace Broker

variable {H : Type} {b b' : Broker H} {id : String}

/-! ## One call -/

/-- Every session keeps its identifiers apart. -/
def IdsKept (b : Broker H) : Prop := b.sessions.All fun _ s => s.Ids

theorem IdsKept.insert (h : b.IdsKept) {s : Session} (hs : s.Ids) :
    ({ b with sessions := b.sessions.insert id s } : Broker H).IdsKept := Dict.All.insert h hs

theorem IdsKept.updateSession (h : b.IdsKept) {f : Session → Session}
    (hf : ∀ s, b.sessions.lookup id = some s → s.Ids → (f s).Ids) :
    (b.updateSession id f).IdsKept := by
  unfold Broker.updateSession
  split
  next s hs => exact h.insert (hf s hs (h id s hs))
  next => exact h

theorem Delivers.ids {m : Content} {out : List Action} (h : b.IdsKept)
    (hroom : ∀ s, b.sessions.lookup id = some s → s.HasFreeId ∨ s.queued = [])
    (hdelivers : Delivers b id m b' out) : b'.IdsKept := by
  cases hdelivers with
  | absent => exact h
  | sent hs halloc _ =>
    have hids := h id _ hs
    obtain ⟨-, hnone, rfl⟩ | ⟨pid, -, hpid, hnext⟩ := allocate_cases halloc
    · rw [track, hnone]
      exact h.insert hids
    · exact h.insert ((hroom _ hs).elim (fun hfree => hids.track hfree hnext hpid)
        fun hidle => hids.track_idle hidle hnext hpid)

theorem Handed.ids {m : Content} {out : List Action} (h : b.IdsKept)
    (hroom : ∀ s, b.sessions.lookup id = some s → s.HasFreeId)
    (hhanded : Handed b id m b' out) : b'.IdsKept := by
  cases hhanded with
  | delivers hdelivers => exact hdelivers.ids h fun s hs => .inl (hroom s hs)
  | queued hs halloc hqos _ =>
    obtain ⟨heq, -⟩ | ⟨pid, -, hpid, hnext⟩ := allocate_cases halloc
    · exact absurd heq hqos
    · exact h.insert ((h id _ hs).enqueue (hroom _ hs) hnext hpid)
  | dropped hs => exact h.insert (h id _ hs)

theorem emitAll_routeTo_ids {topic : String} {payload : Bytes} {properties : List Property}
    {retainSrc : Bool} {targets : List (String × QoS × Bool)} {out : List Action} (h : b.IdsKept)
    (hnodup : (targets.map (·.1)).Nodup)
    (hroom : ∀ id ∈ targets.map (·.1), ∀ s, b.sessions.lookup id = some s → s.HasFreeId)
    (hloop : emitAll (routeTo topic payload properties retainSrc) b targets = some (b', out)) :
    b'.IdsKept := by
  induction targets generalizing b out with
  | nil =>
    obtain ⟨rfl, -⟩ := Prod.mk.inj (Option.some.inj hloop)
    exact h
  | cons target targets ih =>
    obtain ⟨b₁, out₁, outs, hcall, hrest, -⟩ := emitAll_cons_eq_some.mp hloop
    rw [List.map_cons, List.nodup_cons] at hnodup
    refine ih ((routeTo_handed hcall).ids h (hroom _ (by simp))) hnodup.2 (fun id hid s hs => ?_) hrest
    have hne : id ≠ target.1 := by
      rintro rfl
      exact hnodup.1 hid
    rw [(routeTo_handed hcall).lookup_ne hne] at hs
    exact hroom id (by simp [hid]) s hs

theorem enter_ids {r : Routing} {delivered : Nat} {actions : List Action} (h : b.IdsKept)
    (hroom : b.sessions.All fun _ s => s.HasFreeId)
    (henter : b.enter r = some (delivered, b', actions)) : b'.IdsKept := by
  obtain ⟨b₁, n, hloop, rfl⟩ := routePublish_cases henter
  obtain ⟨hsessions, -, -⟩ := retain_frame b r.retain r.topic ⟨r.payload, r.qos, r.properties⟩
  have hkept : b₁.IdsKept := by
    refine emitAll_routeTo_ids ?_ (targets_nodup _ _ _ _) (fun id _ s hs => ?_) hloop
    · rw [IdsKept, hsessions]
      exact h
    · rw [hsessions] at hs
      exact hroom id s hs
  exact hkept

/-- Nothing is queued for the client. -/
def Idle (b : Broker H) (id : String) : Prop :=
  ∀ s, b.sessions.lookup id = some s → s.queued = []

theorem Idle.of_hands (h : b.Idle id) (hhands : Hands (fun _ => False) b b') : b'.Idle id := by
  intro s' hs'
  have hrel := hhands.sessions id
  rw [hs'] at hrel
  generalize hs : b.sessions.lookup id = o at hrel
  cases hrel with
  | @some s _ hgains =>
    rw [List.eq_nil_iff_forall_not_mem]
    intro p hp
    obtain hp | hp := hgains.queuedFrom p hp
    · rw [h s hs] at hp
      cases hp
    · exact hp

theorem detach_ids [BrokerHook H] (h : b.IdsKept) (cid : String) : (b.detach cid).IdsKept :=
  detach_all h fun _ _ hs => hs.congr rfl rfl rfl rfl

theorem unsubscribeAll_ids (h : b.IdsKept) (filters : List String) :
    (unsubscribeAll id b filters).1.IdsKept := by
  induction filters generalizing b with
  | nil => exact h
  | cons f fs ih => exact ih (h.updateSession fun s _ hs => hs.congr rfl rfl rfl rfl)

theorem opened_ids (h : b.IdsKept) (c : ConnectV5) : (b.opened c).Ids := by
  unfold opened
  cases hres : b.resumed c with
  | none => exact .of_released rfl (by simp [Session.takenBy, Session.new])
  | some s =>
    have hs : b.sessions.lookup (b.assignId c).1 = some s := by
      unfold resumed at hres
      split at hres
      · cases hres
      · exact hres
    have hids := h _ s hs
    exact (hids.congr rfl rfl rfl rfl : (s.takenBy c).Ids).flushed

section

variable [BrokerHook H]

theorem subscribeOne_ids (h : b.IdsKept) (username : Option String) (sub : SubscriptionV5) :
    (b.subscribeOne id username sub).1.IdsKept := by
  unfold subscribeOne
  split
  · exact h
  split
  · exact h
  have hadd : (b.updateSession id fun s =>
      (s.addSubscription { sub with qos := qosMin sub.qos b.config.maxQos }).1).IdsKept := by
    refine h.updateSession fun s _ hs => ?_
    unfold Session.addSubscription
    split
    · exact hs.congr rfl rfl rfl rfl
    · exact hs.congr rfl rfl rfl rfl
  exact hadd

theorem subscribeAll_ids (h : b.IdsKept) (username : Option String)
    (subs : List SubscriptionV5) : (subscribeAll id username b subs).1.IdsKept := by
  induction subs generalizing b with
  | nil => exact h
  | cons sub subs ih => exact ih (subscribeOne_ids h username sub)

theorem onSubscribe_ids {s : SubscribeV5} {actions : List Action} (h : b.IdsKept)
    (hidle : b.Idle id) (hsub : b.onSubscribe id s = some (b', actions)) : b'.IdsKept := by
  obtain ⟨b₂, sends, hloop, heq⟩ := onSubscribe_cases hsub
  obtain ⟨rfl, rfl⟩ := Prod.mk.inj heq
  have hkept : (subscribeAll id (b.username id) b s.subscriptions).1.IdsKept :=
    subscribeAll_ids h (b.username id) s.subscriptions
  have hstill := hidle.of_hands (subscribeAll_hands b id (b.username id) s.subscriptions)
  have hboth := emitAll_rule (I := fun b : Broker H => b.IdsKept ∧ b.Idle id)
    (Q := fun _ => True) (fun b₃ hit b₄ out _ hI hcall =>
      ⟨⟨(sendRetained_delivers hcall).ids hI.1 fun s hs => .inr (hI.2 s hs),
        hI.2.of_hands (sendRetained_delivers hcall).hands.1⟩, fun _ _ => trivial⟩) ⟨hkept, hstill⟩ hloop
  exact hboth.1.1

theorem connect_ids (h : b.IdsKept) (c : ConnectV5) : (b.connect c).1.IdsKept :=
  connect_all h (opened_ids h c)

/-- Every session has an identifier left, and a client sends packets only when nothing is queued
for it: it is connected. -/
def Roomy (b : Broker H) : Event → Prop
  | .packet id _ => (b.sessions.All fun _ s => s.HasFreeId) ∧ b.Idle id
  | _ => b.sessions.All fun _ s => s.HasFreeId

theorem onPublish_ids {p : PublishV5} {r : Broker H × List Action} (h : b.IdsKept)
    (hroom : b.sessions.All fun _ s => s.HasFreeId) (hpub : b.onPublish id p = some r) :
    r.1.IdsKept := by
  obtain ⟨metrics, hook, -, ⟨-, reason, rfl⟩ | ⟨-, delivered, b₁, actions, reason, henter, rfl⟩⟩ :=
    onPublish_cases hpub
  · exact h
  · have hkept : b₁.IdsKept := enter_ids (b := { b with metrics, hook }) h hroom henter
    show (b₁.ackPublish id p reason).1.IdsKept
    unfold ackPublish
    split
    · exact hkept
    · exact hkept.updateSession fun s _ hs => hs.congr rfl rfl rfl rfl
    · exact hkept

theorem handle_ids {packet : PacketV5} {r : Broker H × List Action} (h : b.IdsKept)
    (hroom : b.Roomy (.packet id packet)) (hhandle : b.handle id packet = some r) :
    r.1.IdsKept := by
  cases packet with
  | subscribe s => exact onSubscribe_ids h hroom.2 hhandle
  | publish p => exact onPublish_ids h hroom.1 hhandle
  | unsubscribe u =>
    obtain rfl := Option.some.inj hhandle
    exact unsubscribeAll_ids h u.topicFilters
  | pubAck a =>
    obtain rfl := Option.some.inj hhandle
    refine h.updateSession fun s hs hids => .of_released (hroom.2 s hs) fun pid hpid hmem => ?_
    exact hids.apart.released pid hpid (AList.mem_erase.mp hmem).2
  | pubRec a =>
    obtain rfl := Option.some.inj hhandle
    refine h.updateSession fun s hs hids => .of_released (hroom.2 s hs) fun pid hpid hmem => ?_
    obtain ⟨hne, hmem⟩ := AList.mem_erase.mp hmem
    obtain rfl | hpid := Finset.mem_insert.mp hpid
    · exact hne rfl
    · exact hids.apart.released pid hpid hmem
  | pubRel a =>
    obtain rfl := Option.some.inj hhandle
    exact h.updateSession fun s _ hs => hs.congr rfl rfl rfl rfl
  | pubComp a =>
    obtain rfl := Option.some.inj hhandle
    refine h.updateSession fun s hs hids => .of_released (hroom.2 s hs) fun pid hpid hmem => ?_
    exact hids.apart.released pid (Finset.mem_of_mem_erase hpid) hmem
  | disconnect d =>
    obtain rfl := Option.some.inj hhandle
    refine detach_ids ?_ id
    split
    · exact h
    · exact h
  | _ =>
    obtain rfl := Option.some.inj hhandle
    exact h

theorem step_ids {e : Event} {actions : List Action} (h : b.IdsKept) (hroom : b.Roomy e)
    (hstep : b.step e = some (b', actions)) : b'.IdsKept := by
  cases e with
  | connect c =>
    have hkept := connect_ids h c
    rwa [show b.connect c = (b', actions) from Option.some.inj hstep] at hkept
  | packet cid packet => exact handle_ids h hroom hstep
  | networkDisconnect cid =>
    obtain ⟨-, -, hr⟩ | ⟨m, delivered, b₁, acts, -, henter, hr⟩ := networkDisconnect_cases hstep
    · obtain ⟨rfl, -⟩ := Prod.mk.inj hr
      exact detach_ids h cid
    · obtain ⟨rfl, -⟩ := Prod.mk.inj hr
      exact detach_ids (enter_ids (b := { b with wills := b.wills.erase cid }) h hroom henter) cid

theorem Run.mono {cond cond' : Broker H → Event → Prop} {start : Broker H}
    (hmono : ∀ b e, cond b e → cond' b e) (hrun : Run cond start b) : Run cond' start b := by
  induction hrun with
  | start => exact .start
  | step _ hcond hstep ih => exact ih.step (hmono _ _ hcond) hstep
  | reorder _ hsessions hretained ih => exact ih.reorder hsessions hretained

theorem Run.ids {start : Broker H} (h : start.IdsKept) (hrun : Run Roomy start b) :
    b.IdsKept := by
  induction hrun with
  | start => exact h
  | step _ hcond hstep ih => exact step_ids ih hcond hstep
  | reorder _ hsessions _ ih => exact Dict.All.of_lookup_eq ih hsessions.lookup_eq

/-- As long as no session runs out of identifiers, the messages of a session keep different ones.
The next allocation returns a fresh one exactly when there is one left. -/
theorem packetIds_fresh {config : BrokerConfig} {auth : Authenticator} {hook : Option H}
    {s : Session} (hrun : Run Roomy (new config auth hook) b)
    (hs : b.sessions.lookup id = some s) : s.Apart ∧ (s.Allocates ↔ s.HasFreeId) := by
  have hstart : (new config auth hook).IdsKept := Dict.all_empty
  have hids := hrun.ids hstart id s hs
  exact ⟨hids.apart, hids.allocates_iff⟩

end

/-! ## A tablet that is away for long -/

/-- The session of the tablet while it is away: what is queued and the last identifier. -/
def tabletSession (queued : List PublishV5) (last : UInt16) : Session :=
  { Session.new "tablet" 3600 with
    subscriptions := [⟨"door", .atLeastOnce, false, false, .doNotSend⟩]
    nextPacketId := last
    queued }

theorem tabletSession_nextId (queued : List PublishV5) (last : UInt16) :
    (tabletSession queued last).nextId =
      some (Session.succId last, tabletSession queued (Session.succId last)) := rfl

def doorConnect : ConnectV5 := ⟨"door", true, 0, [], none, none, none⟩

/-- The door is connected, the tablet is away. -/
def hall (queued : List PublishV5) (last : UInt16) (metrics : BrokerMetrics) : Broker Unit where
  config := {}
  auth := familyRules
  retained := ∅
  sessions := AList.insert "tablet" (tabletSession queued last)
    (AList.insert "door" { Session.new "door" 0 with connected := true } ∅)
  wills := ∅
  nextAuto := 0
  metrics
  hook := none

/-- The message of the door under another identifier. -/
def ring (id : UInt16) : PublishV5 := { doorMessage with packetId := some id }

theorem hall_rings (queued : List PublishV5) (last : UInt16) (metrics : BrokerMetrics) :
    (hall queued last metrics).step doorPublishes =
      some (hall (queued ++ [ring (Session.succId last)]) (Session.succId last)
        ((metrics.onMessageReceived 1).onMessageSent 1),
        [.send "door" (.pubAck ⟨1, .success, []⟩)]) := rfl

theorem free_of_entries {m : Dict String Session} (id : UInt16) (h0 : id ≠ 0)
    (h : ∀ e ∈ m.entries, ¬ e.2.Holds id) : m.All fun _ s => s.HasFreeId :=
  fun k s hk => ⟨id, h0, h ⟨k, s⟩ (Dict.mem_entries_iff.mpr hk)⟩

theorem idle_of_lookup {s : Session} (hs : b.sessions.lookup id = some s) (h : s.queued = []) :
    b.Idle id := fun s' hs' => by
  obtain rfl := Option.some.inj (hs.symm.trans hs')
  exact h

theorem hall_reached :
    Run Roomy (new {} familyRules none)
      (hall [] 0 ({} : BrokerMetrics).onClientConnected.onClientConnected.onClientDisconnected) := by
  have hstart : Run Roomy (new {} familyRules (none : Option Unit)) _ := .start
  have hdoor := hstart.step (e := .connect doorConnect) Dict.all_empty rfl
  have htablet := hdoor.step (e := .connect tabletConnect)
    (free_of_entries 9 (by decide) (by decide)) rfl
  have hsubscribed := htablet.step (e := tabletSubscribes)
    ⟨free_of_entries 9 (by decide) (by decide), idle_of_lookup rfl rfl⟩ rfl
  exact hsubscribed.step (e := .networkDisconnect "tablet")
    (free_of_entries 9 (by decide) (by decide)) rfl

theorem hall_rung (n : Nat) :
    ∃ later metrics, Run (fun _ _ => True) (new {} familyRules none)
      (hall (ring 1 :: later) (Session.succId^[n + 1] 0) metrics) := by
  induction n with
  | zero =>
    have hany : Run (fun _ _ => True) _ _ := hall_reached.mono fun _ _ _ => trivial
    have hfirst := hany.step trivial (hall_rings _ _ _)
    exact ⟨[], _, hfirst⟩
  | succ n ih =>
    obtain ⟨later, metrics, hrun⟩ := ih
    rw [Function.iterate_succ_apply' _ (n + 1)]
    exact ⟨later ++ [_], _, hrun.step trivial (hall_rings _ _ _)⟩

/-- After 65535 rings the circle is closed: the allocation returns the identifier of the first
message, which is still queued. -/
theorem packetIds_repeated :
    ¬ ∀ (config : BrokerConfig) (auth : Authenticator) (hook : Option Unit) (b : Broker Unit)
      (id : String) (s : Session), Run (fun _ _ => True) (new config auth hook) b →
      b.sessions.lookup id = some s → s.Apart ∧ s.Allocates := by
  intro h
  obtain ⟨later, metrics, hrun⟩ := hall_rung 65534
  have hlast : Session.succId^[65534 + 1] 0 = 65535 := by
    apply UInt16.toNat_inj.mp
    rw [Session.succId_iterate_toNat]
    decide
  rw [hlast] at hrun
  obtain ⟨id, s', hnext, -, hfree⟩ :=
    (h {} familyRules none _ "tablet" (tabletSession (ring 1 :: later) 65535) hrun rfl).2
  -- nothing is in flight, so the allocation takes the identifier after the last one
  have hwrapped : Session.succId 65535 = 1 := by decide
  obtain ⟨rfl, -⟩ := Prod.mk.inj (Option.some.inj ((tabletSession_nextId _ _).symm.trans hnext))
  exact hfree (.inr ⟨ring 1, List.mem_cons_self, by rw [hwrapped]; rfl⟩)

/-- The door rings once while the tablet is away: the next identifier is fresh. -/
theorem packetIds_fresh_tablet :
    (tabletSession [ring 1] 1).Apart ∧
      ((tabletSession [ring 1] 1).Allocates ↔ (tabletSession [ring 1] 1).HasFreeId) := by
  have hrung := hall_reached.step (e := doorPublishes)
    ⟨free_of_entries 9 (by decide) (by decide), idle_of_lookup rfl rfl⟩ (hall_rings _ _ _)
  exact packetIds_fresh hrung (rfl : AList.lookup "tablet" _ = _)

end Broker

end CaveHome.Mqtt
