import CaveHome.Mqtt.BrokerStep

/-!
# Connections

The tasks that serve connections share a broker and a registry of writers, each behind a lock of
its own.  A task gives way between any two of the locked sections, so each of these is a step here.
The connection number in the registry keeps a task that was taken over from tearing down the
connection of its successor; only the teardown looks at it.
-/

namespace CaveHome.Mqtt

/-- What is put into the queue of a connection's writer. -/
inductive ConnMsg
  | packet (p : PacketV5)
  | close

/-- Where the task of a connection is. -/
inductive Phase
  /-- The first packet has not arrived. -/
  | waiting
  /-- The broker has answered the connect packet; these actions are still to be applied. -/
  | greeting (rest : List Action) (clientId : Option String) (accepted : Bool)
  | numbered (clientId : String) (connId : Nat)
  | serving (clientId : String) (connId : Nat)
  /-- The broker has answered a packet; the task ends after a disconnect packet. -/
  | dispatching (clientId : String) (connId : Nat) (actions : List Action) (last : Bool)
  | closing (clientId : String) (connId : Nat)
  /-- The registry entry is removed, and the broker does not know yet. -/
  | removed (clientId : String)
  | notifying (actions : List Action)
  | closed

/-- The connection number of a task, while it has one. -/
def Phase.connId : Phase → Option Nat
  | .numbered _ n | .serving _ n | .dispatching _ n _ _ | .closing _ n => some n
  | _ => none

/-- What a task does next; all but the reading is determined. -/
inductive Act
  | connect (c : ConnectV5)
  | refuse
  | packet (p : PacketV5)
  | hangUp
  | proceed

structure Hub (H : Type) where
  broker : Broker H
  /-- The connection number and the task that holds the writer, for each client. -/
  conns : Dict String (Nat × Nat)
  nextConn : Nat
  phase : Nat → Phase
  /-- What was put into the writers' queues. -/
  outbox : List (Nat × ConnMsg)
  /-- The tasks whose connect packet the broker accepted, in this order, with their client. -/
  accepted : List (Nat × String)

namespace Hub

variable {H : Type}

def new (broker : Broker H) : Hub H where
  broker := broker
  conns := ∅
  nextConn := 1
  phase := fun _ => .waiting
  outbox := []
  accepted := []

def goto (hub : Hub H) (i : Nat) (phase : Phase) : Hub H :=
  { hub with phase := Function.update hub.phase i phase }

/-- Put something into the queue of a writer. -/
def post (hub : Hub H) (i : Nat) (msg : ConnMsg) : Hub H :=
  { hub with outbox := hub.outbox ++ [(i, msg)] }

/-- Apply an action through the registry. -/
def apply (hub : Hub H) : Action → Hub H
  | .send clientId packet =>
    match hub.conns.lookup clientId with
    | some (_, j) => hub.post j (.packet packet)
    | none => hub
  | .drop clientId _ =>
    match hub.conns.lookup clientId with
    | some (_, j) => hub.post j .close
    | none => hub

def dispatch (hub : Hub H) (actions : List Action) : Hub H := actions.foldl apply hub

/-- The client whose connect packet the actions accept. -/
def acceptedId (actions : List Action) : Option String :=
  actions.findSome? fun
    | .send clientId (.connAck ack) => if ack.reasonCode = .success then some clientId else none
    | _ => none

/-- Apply one answer to a connect packet: packets go to the task's own writer. -/
def greet (hub : Hub H) (i : Nat) (action : Action) (rest : List Action)
    (clientId : Option String) (accepted : Bool) : Hub H :=
  match action with
  | .drop old reason => (hub.apply (.drop old reason)).goto i (.greeting rest clientId accepted)
  | .send cid packet =>
    let (clientId, accepted) :=
      match packet with
      | .connAck ack => (some cid, decide (ack.reasonCode = .success))
      | _ => (clientId, accepted)
    (hub.post i (.packet packet)).goto i (.greeting rest clientId accepted)

/-- One step of the task `i`; `none` when it cannot take it, or the broker does not return. -/
def step [BrokerHook H] (hub : Hub H) (i : Nat) (act : Act) : Option (Hub H) :=
  match hub.phase i, act with
  | .waiting, .connect c =>
    let (broker, actions) := hub.broker.connect c
    let accepted := (acceptedId actions).toList.map fun clientId => (i, clientId)
    some ({ hub with broker, accepted := hub.accepted ++ accepted }.goto i
      (.greeting actions none false))
  | .waiting, .refuse => some ((hub.post i .close).goto i .closed)
  | .greeting (action :: rest) clientId accepted, .proceed =>
    some (hub.greet i action rest clientId accepted)
  | .greeting [] (some clientId) true, .proceed =>
    some ({ hub with nextConn := hub.nextConn + 1 }.goto i (.numbered clientId hub.nextConn))
  | .greeting [] (some _) false, .proceed => some ((hub.post i .close).goto i .closed)
  | .greeting [] none _, .proceed => some (hub.goto i .closed)
  | .numbered clientId connId, .proceed =>
    some ({ hub with conns := hub.conns.insert clientId (connId, i) }.goto i
      (.serving clientId connId))
  | .serving clientId connId, .packet packet => do
    let (broker, actions) ← hub.broker.handle clientId packet
    let last := match packet with | .disconnect _ => true | _ => false
    return { hub with broker }.goto i (.dispatching clientId connId actions last)
  | .serving clientId connId, .hangUp => some (hub.goto i (.closing clientId connId))
  | .dispatching clientId connId actions last, .proceed =>
    some ((hub.dispatch actions).goto i
      (if last then .closing clientId connId else .serving clientId connId))
  | .closing clientId connId, .proceed =>
    match hub.conns.lookup clientId with
    | some (cid, _) =>
      if cid = connId then
        some ({ hub with conns := hub.conns.erase clientId }.goto i (.removed clientId))
      else some ((hub.post i .close).goto i .closed)
    | none => some ((hub.post i .close).goto i .closed)
  | .removed clientId, .proceed => do
    let (broker, actions) ← hub.broker.networkDisconnect clientId
    return { hub with broker }.goto i (.notifying actions)
  | .notifying actions, .proceed => some (((hub.dispatch actions).post i .close).goto i .closed)
  | _, _ => none

/-- The hubs that steps satisfying `cond` lead to, with the tasks taking turns in any order. -/
inductive Run [BrokerHook H] (cond : Hub H → Nat → Act → Prop) (start : Hub H) : Hub H → Prop
  | start : Run cond start start
  | step {hub hub' : Hub H} {i : Nat} {act : Act} (hrun : Run cond start hub)
      (hcond : cond hub i act) (hstep : hub.step i act = some hub') : Run cond start hub'
  | reorder {hub : Hub H} {sessions : Dict String Session} {retained : RetainedStore}
      (hrun : Run cond start hub) (hsessions : Dict.Reordered hub.broker.sessions sessions)
      (hretained : Dict.Reordered hub.broker.retained retained) :
      Run cond start { hub with broker := { hub.broker with sessions, retained } }

theorem Run.next [BrokerHook H] {cond : Hub H → Nat → Act → Prop} {start hub : Hub H}
    (hrun : Run cond start hub) (i : Nat) (act : Act) (hcond : cond hub i act)
    (h : (hub.step i act).isSome) : Run cond start ((hub.step i act).get h) :=
  hrun.step hcond (Option.some_get h).symm

theorem Run.mono [BrokerHook H] {cond cond' : Hub H → Nat → Act → Prop} {start hub : Hub H}
    (hrun : Run cond start hub) (hcond : ∀ hub i act, cond hub i act → cond' hub i act) :
    Run cond' start hub := by
  induction hrun with
  | start => exact .start
  | step _ h hstep ih => exact ih.step (hcond _ _ _ h) hstep
  | reorder _ hsessions hretained ih => exact ih.reorder hsessions hretained

/-- The broker accepted the task `j` after the task `i`, for the same client. -/
def Newer (hub : Hub H) (clientId : String) (i j : Nat) : Prop :=
  [(i, clientId), (j, clientId)].Sublist hub.accepted

/-- A newer connection of the client was accepted. -/
def Superseded (hub : Hub H) (i : Nat) (clientId : String) : Prop :=
  ∃ j, hub.Newer clientId i j

/-! ## What a step can do -/

theorem apply_eq (hub : Hub H) (action : Action) : ∃ outbox, hub.apply action = { hub with outbox } := by
  unfold apply
  split <;> split
  · exact ⟨_, rfl⟩
  · exact ⟨hub.outbox, rfl⟩
  · exact ⟨_, rfl⟩
  · exact ⟨hub.outbox, rfl⟩

theorem dispatch_eq (hub : Hub H) (actions : List Action) :
    ∃ outbox, hub.dispatch actions = { hub with outbox } := by
  unfold dispatch
  induction actions generalizing hub with
  | nil => exact ⟨hub.outbox, rfl⟩
  | cons action actions ih =>
    obtain ⟨outbox, happly⟩ := hub.apply_eq action
    rw [List.foldl_cons, happly]
    exact ih _

/-- What a step of the task `i` can do. -/
inductive Moves [BrokerHook H] (hub : Hub H) (i : Nat) : Act → Hub H → Prop
  | quiet {act : Act} {ph : Phase} {outbox : List (Nat × ConnMsg)} (hph : ph ≠ .waiting)
      (hconn : ∀ n, ph.connId = some n → (hub.phase i).connId = some n) :
      Moves hub i act ({ hub with outbox }.goto i ph)
  | connect {c : ConnectV5} {ph : Phase} {accepted : List (Nat × String)}
      (hwaiting : hub.phase i = .waiting) (hph : ph ≠ .waiting) (hconn : ph.connId = none)
      (haccepted : ∃ o : Option String, accepted = o.toList.map fun clientId => (i, clientId)) :
      Moves hub i (.connect c) ({ hub with
        broker := (hub.broker.connect c).1, accepted := hub.accepted ++ accepted }.goto i ph)
  | number {clientId : String} :
      Moves hub i .proceed
        ({ hub with nextConn := hub.nextConn + 1 }.goto i (.numbered clientId hub.nextConn))
  | register {clientId : String} {connId : Nat} (hnumbered : hub.phase i = .numbered clientId connId) :
      Moves hub i .proceed ({ hub with conns := hub.conns.insert clientId (connId, i) }.goto i
        (.serving clientId connId))
  | packet {clientId : String} {connId : Nat} {p : PacketV5} {broker : Broker H}
      {actions : List Action} {last : Bool} (hserving : hub.phase i = .serving clientId connId)
      (hhandle : hub.broker.handle clientId p = some (broker, actions)) :
      Moves hub i (.packet p)
        ({ hub with broker }.goto i (.dispatching clientId connId actions last))
  | remove {clientId : String} {connId j : Nat} (hclosing : hub.phase i = .closing clientId connId)
      (hentry : hub.conns.lookup clientId = some (connId, j)) :
      Moves hub i .proceed
        ({ hub with conns := hub.conns.erase clientId }.goto i (.removed clientId))
  | disconnect {clientId : String} {broker : Broker H} {actions : List Action}
      (hremoved : hub.phase i = .removed clientId)
      (hdisconnect : hub.broker.networkDisconnect clientId = some (broker, actions)) :
      Moves hub i .proceed ({ hub with broker }.goto i (.notifying actions))

variable [BrokerHook H] {hub hub' : Hub H} {i : Nat} {act : Act} {clientId : String}

theorem greet_moves (action : Action) (rest : List Action) (cid : Option String)
    (accepted : Bool) : hub.Moves i act (hub.greet i action rest cid accepted) := by
  unfold greet
  split
  next old reason =>
    obtain ⟨outbox, happly⟩ := hub.apply_eq (.drop old reason)
    rw [happly]
    exact .quiet (by simp) (by simp [Phase.connId])
  next => exact .quiet (by simp) (by simp [Phase.connId])

theorem step_moves (h : hub.step i act = some hub') : hub.Moves i act hub' := by
  unfold step at h
  split at h
  next c hwaiting =>
    obtain rfl := Option.some.inj h
    exact .connect hwaiting (by simp) rfl ⟨_, rfl⟩
  next hwaiting =>
    obtain rfl := Option.some.inj h
    exact .quiet (by simp) (by simp [Phase.connId])
  next action rest cid accepted hgreeting =>
    obtain rfl := Option.some.inj h
    exact greet_moves action rest cid accepted
  next cid hgreeting =>
    obtain rfl := Option.some.inj h
    exact .number
  next cid hgreeting =>
    obtain rfl := Option.some.inj h
    exact .quiet (by simp) (by simp [Phase.connId])
  next hgreeting =>
    obtain rfl := Option.some.inj h
    exact .quiet (by simp) (by simp [Phase.connId])
  next cid connId hnumbered =>
    obtain rfl := Option.some.inj h
    exact .register hnumbered
  next cid connId p hserving =>
    simp only [Option.bind_eq_bind, Option.bind_eq_some_iff, Prod.exists, Option.pure_def,
      Option.some.injEq] at h
    obtain ⟨broker, actions, hhandle, rfl⟩ := h
    exact .packet hserving hhandle
  next cid connId hserving =>
    obtain rfl := Option.some.inj h
    exact .quiet (by simp) (by simp [Phase.connId, hserving])
  next cid connId actions last hdispatching =>
    obtain rfl := Option.some.inj h
    obtain ⟨outbox, hdispatch⟩ := hub.dispatch_eq actions
    rw [hdispatch]
    refine .quiet ?_ ?_
    · split <;> simp
    · intro n hn
      rw [hdispatching]
      split at hn <;> exact hn
  next cid connId hclosing =>
    split at h
    next n j hentry =>
      split at h
      next heq =>
        obtain rfl := Option.some.inj h
        subst heq
        exact .remove hclosing hentry
      next =>
        obtain rfl := Option.some.inj h
        exact .quiet (by simp) (by simp [Phase.connId])
    next =>
      obtain rfl := Option.some.inj h
      exact .quiet (by simp) (by simp [Phase.connId])
  next cid hremoved =>
    simp only [Option.bind_eq_bind, Option.bind_eq_some_iff, Prod.exists, Option.pure_def,
      Option.some.injEq] at h
    obtain ⟨broker, actions, hdisconnect, rfl⟩ := h
    exact .disconnect hremoved hdisconnect
  next actions hnotifying =>
    obtain rfl := Option.some.inj h
    obtain ⟨outbox, hdispatch⟩ := hub.dispatch_eq actions
    rw [hdispatch]
    exact .quiet (by simp) (by simp [Phase.connId])
  next => cases h

/-! ## Connection numbers -/

/-- The task has the connection number, or an entry of the registry says so. -/
def Holds (hub : Hub H) (n i : Nat) : Prop :=
  (hub.phase i).connId = some n ∨ ∃ clientId, hub.conns.lookup clientId = some (n, i)

/-- Each task is accepted once, after its start, and no number is given twice. -/
structure Tidy (hub : Hub H) : Prop where
  once : (hub.accepted.map (·.1)).Nodup
  started : ∀ i clientId, (i, clientId) ∈ hub.accepted → hub.phase i ≠ .waiting
  bound : ∀ n i, hub.Holds n i → n < hub.nextConn
  unique : ∀ n i j, hub.Holds n i → hub.Holds n j → i = j

omit [BrokerHook H] in
theorem tidy_new (broker : Broker H) : (new broker).Tidy where
  once := List.nodup_nil
  started _ _ h := by cases h
  bound n i h := by simp [Holds, new, Phase.connId] at h
  unique n i j h := by simp [Holds, new, Phase.connId] at h

omit [BrokerHook H] in
theorem goto_phase (hub : Hub H) (i j : Nat) (ph : Phase) :
    (hub.goto i ph).phase j = if j = i then ph else hub.phase j := by
  unfold goto Function.update
  by_cases h : j = i <;> simp [h]

omit [BrokerHook H] in
theorem Holds.of_goto {hub₁ : Hub H} {ph : Phase} {n j : Nat} (h : (hub₁.goto i ph).Holds n j)
    (hphase : hub₁.phase = hub.phase) (hph : ph.connId = some n → hub.Holds n i)
    (hconns : ∀ clientId, hub₁.conns.lookup clientId = some (n, j) → hub.Holds n j) :
    hub.Holds n j := by
  obtain h | ⟨clientId, h⟩ := h
  · rw [goto_phase] at h
    split at h
    next heq => exact heq ▸ hph h
    next => exact .inl (hphase ▸ h)
  · exact hconns clientId h

theorem Moves.holds (hmoves : hub.Moves i act hub') {n j : Nat} (h : hub'.Holds n j) :
    hub.Holds n j ∨ (n = hub.nextConn ∧ j = i ∧ hub'.nextConn = hub.nextConn + 1) := by
  have hsame : ∀ clientId, hub.conns.lookup clientId = some (n, j) → hub.Holds n j :=
    fun clientId hentry => .inr ⟨clientId, hentry⟩
  cases hmoves with
  | quiet _ hconn => exact .inl (h.of_goto rfl (fun hn => .inl (hconn n hn)) hsame)
  | connect _ _ hconn _ =>
    exact .inl (h.of_goto rfl (fun hn => by rw [hconn] at hn; cases hn) hsame)
  | number =>
    obtain h | ⟨clientId, h⟩ := h
    · rw [goto_phase] at h
      split at h
      next heq => exact .inr ⟨(Option.some.inj h).symm, heq, rfl⟩
      next => exact .inl (.inl h)
    · exact .inl (hsame clientId h)
  | @register cid connId hnumbered =>
    have hown : hub.Holds connId i := .inl (by rw [hnumbered]; rfl)
    refine .inl (h.of_goto rfl (fun hn => Option.some.inj hn ▸ hown) fun clientId hentry => ?_)
    by_cases heq : clientId = cid
    · subst heq
      rw [AList.lookup_insert, Option.some.injEq, Prod.mk.injEq] at hentry
      obtain ⟨rfl, rfl⟩ := hentry
      exact hown
    · exact hsame clientId ((AList.lookup_insert_ne heq).symm.trans hentry)
  | @packet cid connId _ _ _ _ hserving _ =>
    have hown : hub.Holds connId i := .inl (by rw [hserving]; rfl)
    exact .inl (h.of_goto rfl (fun hn => Option.some.inj hn ▸ hown) hsame)
  | @remove cid connId _ _ _ =>
    refine .inl (h.of_goto rfl (fun hn => by cases hn) fun clientId hentry => ?_)
    by_cases heq : clientId = cid
    · subst heq
      rw [AList.lookup_erase] at hentry
      cases hentry
    · exact hsame clientId ((AList.lookup_erase_ne heq).symm.trans hentry)
  | disconnect => exact .inl (h.of_goto rfl (fun hn => by cases hn) hsame)

theorem Moves.accepted (hmoves : hub.Moves i act hub') :
    hub'.phase i ≠ .waiting ∧ (∀ j, j ≠ i → hub'.phase j = hub.phase j) ∧
      hub.nextConn ≤ hub'.nextConn ∧
      (hub'.accepted = hub.accepted ∨
        hub.phase i = .waiting ∧ ∃ clientId, hub'.accepted = hub.accepted ++ [(i, clientId)]) := by
  have hgoto : ∀ (hub₁ : Hub H) (ph : Phase), hub₁.phase = hub.phase → ph ≠ .waiting →
      (hub₁.goto i ph).phase i ≠ .waiting ∧
        ∀ j, j ≠ i → (hub₁.goto i ph).phase j = hub.phase j := by
    intro hub₁ ph hphase hph
    refine ⟨by rwa [goto_phase, if_pos rfl], fun j hj => ?_⟩
    rw [goto_phase, if_neg hj, hphase]
  cases hmoves with
  | quiet hph _ =>
    obtain ⟨h₁, h₂⟩ := hgoto _ _ rfl hph
    exact ⟨h₁, h₂, Nat.le_refl _, .inl rfl⟩
  | connect hwaiting hph _ haccepted =>
    obtain ⟨h₁, h₂⟩ := hgoto _ _ rfl hph
    refine ⟨h₁, h₂, Nat.le_refl _, ?_⟩
    obtain ⟨o, rfl⟩ := haccepted
    cases o with
    | none => exact .inl (List.append_nil _)
    | some clientId => exact .inr ⟨hwaiting, clientId, rfl⟩
  | number =>
    exact ⟨(hgoto _ _ rfl (by simp)).1, (hgoto _ _ rfl (by simp)).2, Nat.le_succ _, .inl rfl⟩
  | register | packet | remove | disconnect =>
    exact ⟨(hgoto _ _ rfl (by simp)).1, (hgoto _ _ rfl (by simp)).2, Nat.le_refl _, .inl rfl⟩

theorem Tidy.step (htidy : hub.Tidy) (h : hub.step i act = some hub') : hub'.Tidy := by
  have hmoves := step_moves h
  obtain ⟨hstarted, hothers, hnext, haccepted⟩ := hmoves.accepted
  have hphase : ∀ j, hub.phase j ≠ .waiting → hub'.phase j ≠ .waiting := by
    intro j hj
    by_cases heq : j = i
    · exact heq ▸ hstarted
    · rwa [hothers j heq]
  refine ⟨?_, fun j clientId hj => ?_, fun n j hn => ?_, fun n j k hj hk => ?_⟩
  · obtain heq | ⟨hwaiting, clientId, heq⟩ := haccepted
    · rw [heq]
      exact htidy.once
    · rw [heq, List.map_append, List.map_singleton, ← List.concat_eq_append]
      refine htidy.once.concat fun hmem => ?_
      obtain ⟨⟨j, cid⟩, hj, rfl⟩ := List.mem_map.mp hmem
      exact htidy.started j cid hj hwaiting
  · obtain heq | ⟨-, cid, heq⟩ := haccepted
    · exact hphase j (htidy.started j clientId (heq ▸ hj))
    · rw [heq, List.mem_append, List.mem_singleton] at hj
      obtain hj | hj := hj
      · exact hphase j (htidy.started j clientId hj)
      · obtain ⟨rfl, -⟩ := Prod.mk.inj hj
        exact hstarted
  · obtain hn | ⟨rfl, -, hgrown⟩ := hmoves.holds hn
    · exact lt_of_lt_of_le (htidy.bound n j hn) hnext
    · omega
  · obtain hj | ⟨rfl, rfl, -⟩ := hmoves.holds hj
    · obtain hk | ⟨rfl, -, -⟩ := hmoves.holds hk
      · exact htidy.unique n j k hj hk
      · exact absurd (htidy.bound _ j hj) (lt_irrefl _)
    · obtain hk | ⟨-, rfl, -⟩ := hmoves.holds hk
      · exact absurd (htidy.bound _ k hk) (lt_irrefl _)
      · rfl

theorem Run.tidy {cond : Hub H → Nat → Act → Prop} {broker : Broker H}
    (hrun : Run cond (new broker) hub) : hub.Tidy := by
  induction hrun with
  | start => exact tidy_new broker
  | step _ _ hstep ih => exact ih.step hstep
  | reorder _ _ _ ih => exact ⟨ih.once, ih.started, ih.bound, ih.unique⟩

/-! ## Taking a connection over -/

/-- What a newer connection relies on: the session of the client stays connected, its will stays,
and so does the registry entry of a connection accepted after `i`. -/
structure Harmless (hub hub' : Hub H) (clientId : String) (i : Nat) : Prop where
  session : ∀ s ∈ hub.broker.sessions.lookup clientId, s.connected = true →
    ∃ s' ∈ hub'.broker.sessions.lookup clientId, s'.connected = true
  will : hub'.broker.wills.lookup clientId = hub.broker.wills.lookup clientId
  entry : ∀ n j, hub.Newer clientId i j → hub.conns.lookup clientId = some (n, j) →
    hub'.conns.lookup clientId = some (n, j)

/-- The step is not one of those with which a connection that was taken over does harm: it handles
no disconnect packet, does not report the network lost, and does not replace the entry of a newer
connection. -/
def Orderly (hub : Hub H) (i : Nat) (act : Act) : Prop :=
  match hub.phase i, act with
  | .serving clientId _, .packet (.disconnect _) => ¬ hub.Superseded i clientId
  | .removed clientId, .proceed => ¬ hub.Superseded i clientId
  | .numbered clientId _, .proceed =>
    ∀ n j, hub.conns.lookup clientId = some (n, j) → ¬ hub.Newer clientId i j
  | _, _ => True

theorem broker_harmless {broker : Broker H} {e : Broker.Event} {actions : List Action}
    (h : hub.broker.step e = some (broker, actions)) (hbinds : ¬ hub.broker.Binds e clientId) :
    (∀ s ∈ hub.broker.sessions.lookup clientId, s.connected = true →
      ∃ s' ∈ broker.sessions.lookup clientId, s'.connected = true) ∧
    broker.wills.lookup clientId = hub.broker.wills.lookup clientId := by
  refine ⟨fun s hs hconnected => ?_, (Broker.step_effect h).wills clientId hbinds⟩
  have hchange := Broker.step_change h clientId
  rw [Option.mem_def.mp hs] at hchange
  generalize broker.sessions.lookup clientId = o at hchange ⊢
  cases hchange with
  | hand hgains => exact ⟨_, rfl, hgains.connected.trans hconnected⟩
  | @connect _ c he hid _ => exact absurd (.inr ⟨c, he, hid⟩) hbinds
  | pubAck => exact ⟨_, rfl, hconnected⟩
  | pubRec => exact ⟨_, rfl, hconnected⟩
  | pubRel => exact ⟨_, rfl, hconnected⟩
  | leave he => exact absurd (.inl he) hbinds
  | expire he => exact absurd (.inl he) hbinds

omit [BrokerHook H] in
theorem Tidy.ne_of_newer (htidy : hub.Tidy) {j : Nat} (h : hub.Newer clientId i j) : i ≠ j := by
  have hnodup := htidy.once.sublist (h.map (·.1))
  simpa using hnodup

theorem Moves.harmless (hmoves : hub.Moves i act hub') (htidy : hub.Tidy)
    (horderly : hub.Orderly i act) (hold : hub.Superseded i clientId) :
    Harmless hub hub' clientId i := by
  cases hmoves with
  | quiet => exact ⟨fun s hs hc => ⟨s, hs, hc⟩, rfl, fun _ _ _ h => h⟩
  | number => exact ⟨fun s hs hc => ⟨s, hs, hc⟩, rfl, fun _ _ _ h => h⟩
  | connect hwaiting _ _ _ =>
    -- a task that has not connected has no successor
    obtain ⟨j, hnewer⟩ := hold
    exact absurd hwaiting (htidy.started i clientId (hnewer.subset (by simp)))
  | @register cid connId hnumbered =>
    refine ⟨fun s hs hc => ⟨s, hs, hc⟩, rfl, fun n j hnewer hentry => ?_⟩
    simp only [Orderly, hnumbered] at horderly
    have hne : clientId ≠ cid := by
      rintro rfl
      exact horderly n j hentry hnewer
    exact (AList.lookup_insert_ne hne).trans hentry
  | @packet cid connId p broker actions _ hserving hhandle =>
    simp only [Orderly, hserving] at horderly
    have hbinds : ¬ hub.broker.Binds (.packet cid p) clientId := by
      rintro (hleaves | ⟨c, he, -⟩)
      · cases p with
        | disconnect d =>
          obtain rfl : cid = clientId := hleaves
          exact horderly hold
        | _ => exact hleaves
      · cases he
    obtain ⟨hsession, hwill⟩ := broker_harmless (e := .packet cid p) hhandle hbinds
    exact ⟨hsession, hwill, fun _ _ _ h => h⟩
  | @remove cid connId k hclosing hown =>
    refine ⟨fun s hs hc => ⟨s, hs, hc⟩, rfl, fun n j hnewer hentry => ?_⟩
    have hne : clientId ≠ cid := by
      rintro rfl
      obtain ⟨rfl, rfl⟩ := Prod.mk.inj (Option.some.inj (hown.symm.trans hentry))
      have hi : hub.Holds connId i := .inl (by rw [hclosing]; rfl)
      exact htidy.ne_of_newer hnewer (htidy.unique connId i k hi (.inr ⟨_, hown⟩))
    exact (AList.lookup_erase_ne hne).trans hentry
  | @disconnect cid broker actions hremoved hdisconnect =>
    simp only [Orderly, hremoved] at horderly
    have hbinds : ¬ hub.broker.Binds (.networkDisconnect cid) clientId := by
      rintro (hleaves | ⟨c, he, -⟩)
      · obtain rfl : cid = clientId := hleaves
        exact horderly hold
      · cases he
    obtain ⟨hsession, hwill⟩ := broker_harmless (e := .networkDisconnect cid) hdisconnect hbinds
    exact ⟨hsession, hwill, fun _ _ _ h => h⟩

/-- In an orderly run no step of a connection that was taken over harms its successors. -/
theorem superseded_harmless {broker : Broker H} (hrun : Run Orderly (new broker) hub)
    (horderly : hub.Orderly i act) (hstep : hub.step i act = some hub')
    (hold : hub.Superseded i clientId) : Harmless hub hub' clientId i :=
  (step_moves hstep).harmless hrun.tidy horderly hold

/-! ## A lamp that connects twice -/

def lampConnect : ConnectV5 := ⟨"lamp", true, 0, [], none, none, none⟩

def lampBroker : Broker Unit := .new {} (({} : Authenticator).setAnonymous true) none

/-- The task 0 has connected for the lamp and serves it. -/
def lampServed : Hub Unit :=
  ((new lampBroker).step 0 (.connect lampConnect)).bind (·.step 0 .proceed)
    |>.bind (·.step 0 .proceed) |>.bind (·.step 0 .proceed) |>.getD (new lampBroker)

theorem run_lampServed : Run Orderly (new lampBroker) lampServed := by
  have hstart : Run Orderly (new lampBroker) _ := .start
  have hconnect := hstart.next 0 (.connect lampConnect) trivial rfl
  have hgreet := hconnect.next 0 .proceed trivial rfl
  have hnumber := hgreet.next 0 .proceed trivial rfl
  exact hnumber.next 0 .proceed (fun n j h => by cases h) rfl

/-- The broker has accepted a second connection of the lamp. -/
def lampTakenOver : Hub Unit :=
  (lampServed.step 1 (.connect lampConnect)).getD lampServed

theorem run_lampTakenOver : Run Orderly (new lampBroker) lampTakenOver :=
  run_lampServed.next 1 (.connect lampConnect) trivial rfl

theorem superseded_lamp : lampTakenOver.Superseded 0 "lamp" := by
  refine ⟨1, ?_⟩
  unfold Newer
  decide

/-- The first connection still gets a ping answered. -/
theorem superseded_harmless_lamp :
    ∃ hub' : Hub Unit, lampTakenOver.step 0 (.packet .pingReq) = some hub' ∧
      Harmless lampTakenOver hub' "lamp" 0 := by
  have hping : lampTakenOver.step 0 (.packet .pingReq) = some _ := rfl
  have horderly : lampTakenOver.Orderly 0 (.packet .pingReq) := trivial
  exact ⟨_, hping, superseded_harmless run_lampTakenOver horderly hping superseded_lamp⟩

/-- The first connection sends a disconnect packet after the second one was accepted: the session,
which the second one holds, is gone. -/
theorem superseded_disconnects :
    ¬ ∀ (broker : Broker Unit) (hub hub' : Hub Unit) (i : Nat) (act : Act) (clientId : String),
      Run (fun _ _ _ => True) (new broker) hub → hub.step i act = some hub' →
      hub.Superseded i clientId → Harmless hub hub' clientId i := by
  intro h
  have hharmless := h lampBroker lampTakenOver _ 0 (.packet (.disconnect ⟨.success, []⟩)) "lamp"
    (run_lampTakenOver.mono fun _ _ _ _ => trivial) rfl superseded_lamp
  obtain ⟨s', hs', -⟩ := hharmless.session _ rfl rfl
  cases hs'

end Hub

end CaveHome.Mqtt
