import CaveHome.Scheduler.Preemption
import Mathlib.Data.Option.Basic

/-!
# The binding cycle

A pod is assumed on its node, and the plugins of five stages and the sink are asked one after the
other.  Where one of them does not agree, the Reserve plugins that were asked are told so in reverse
order, and the pod is forgotten.  The host is then as before, unless its totals wrapped around when
the pod was assumed or met an end of their range when it was forgotten.
-/

namespace CaveHome.Scheduler

/-! ## Plugins -/

def Status.isWait (s : Status) : Bool := s.code == .wait

def Status.message (s : Status) : String := "; ".intercalate s.reasons

def CacheError.message : CacheError → String
  | .nodeNotFound name => "node " ++ name ++ " not found in cache"
  | .podAlreadyAssumed uid => "pod " ++ uid ++ " already assumed on another node"

structure ReservePlugin where
  name : String
  reserve : CycleState → Pod → String → CycleState × Status
  unreserve : CycleState → Pod → String → CycleState

structure PermitPlugin where
  name : String
  permit : CycleState → Pod → String → CycleState × Status
  /-- How long the plugin lets a pod wait, in nanoseconds. -/
  permitTimeout : Nat := 0

structure PreBindPlugin where
  name : String
  preBind : CycleState → Pod → String → CycleState × Status

structure BindPlugin where
  name : String
  bind : CycleState → Pod → String → CycleState × Status

structure PostBindPlugin where
  name : String
  postBind : CycleState → Pod → String → CycleState

structure BindingRegistry where
  reserves : List ReservePlugin := []
  permits : List PermitPlugin := []
  preBinds : List PreBindPlugin := []
  binds : List BindPlugin := []
  postBinds : List PostBindPlugin := []

inductive PermitDecision
  | allow
  | reject (reason : String)

/-- How a wait ends: with a decision, without one, or by the clock. -/
inductive WaitOutcome
  | decided (decision : PermitDecision)
  | dropped
  | elapsed

inductive SourceSinkError
  | apiserver (message : String)
  | notFound (namespaceName name : String)
  | conflict (namespaceName name : String)

def SourceSinkError.message : SourceSinkError → String
  | .apiserver message => "apiserver: " ++ message
  | .notFound namespaceName name => "pod " ++ namespaceName ++ "/" ++ name ++ " not found"
  | .conflict namespaceName name => "conflict on bind for pod " ++ namespaceName ++ "/" ++ name

/-- What those outside the scheduler decide. -/
structure Outside where
  /-- What comes of a pod that waits at most so long. -/
  wait : Pod → Nat → WaitOutcome
  /-- The sink's answer to a binding. -/
  bind : Pod → String → Except SourceSinkError Unit

/-! ## The cycle -/

/-- A call of a Reserve plugin. -/
inductive ReserveCall
  | reserve (plugin : ReservePlugin)
  | unreserve (plugin : ReservePlugin)

/-- The cache and the variables of a cycle, with the calls of Reserve plugins so far. -/
structure Cycle where
  cache : SchedulerCache
  state : CycleState := {}
  reserved : Nat := 0
  waitTimeout : Option Nat := none
  bound : Bool := false
  calls : List ReserveCall := []

namespace BindingRegistry

variable (registry : BindingRegistry) (outside : Outside) (pod : Pod) (host : String)

def unreserveStep (c : Cycle) (plugin : ReservePlugin) : Cycle :=
  { c with
    state := plugin.unreserve c.state pod host
    calls := c.calls ++ [.unreserve plugin] }

/-- Tell the Reserve plugins that were asked, and forget the pod. -/
def unwind (c : Cycle) : Cycle :=
  let c := (registry.reserves.take c.reserved).reverse.foldl (unreserveStep pod host) c
  { c with cache := c.cache.forgetPod pod.uid }

def reserveStep (c : Cycle) (plugin : ReservePlugin) : Except (Cycle × String) Cycle :=
  let (state, status) := plugin.reserve c.state pod host
  let c := { c with reserved := c.reserved + 1, state, calls := c.calls ++ [.reserve plugin] }
  if status.isSuccess then .ok c
  else
    .error (registry.unwind pod host c,
      "reserve " ++ plugin.name ++ " failed: " ++ status.message)

/-- A plugin that wants the pod to wait shortens the wait, if there is one already. -/
def permitStep (c : Cycle) (plugin : PermitPlugin) : Except (Cycle × String) Cycle :=
  let (state, status) := plugin.permit c.state pod host
  let c := { c with state }
  if status.isWait then
    let t := plugin.permitTimeout
    .ok { c with waitTimeout := some ((c.waitTimeout.map (min · t)).getD t) }
  else if status.isSuccess then .ok c
  else
    .error (registry.unwind pod host c,
      "permit " ++ plugin.name ++ " denied: " ++ status.message)

def waitOnPermit (timeout : Nat) : Except String Unit :=
  match outside.wait pod timeout with
  | .decided .allow => .ok ()
  | .decided (.reject reason) => .error ("permit rejected while waiting: " ++ reason)
  | .dropped => .error "permit wait aborted"
  | .elapsed =>
    .error ("permit wait timed out after " ++ toString (timeout / 1000000) ++ "ms")

def waitStep (c : Cycle) : Except (Cycle × String) Cycle :=
  match c.waitTimeout with
  | none => .ok c
  | some timeout =>
    match waitOnPermit outside pod timeout with
    | .ok () => .ok c
    | .error reason => .error (registry.unwind pod host c, reason)

def preBindStep (c : Cycle) (plugin : PreBindPlugin) : Except (Cycle × String) Cycle :=
  let (state, status) := plugin.preBind c.state pod host
  let c := { c with state }
  if status.isSuccess then .ok c
  else
    .error (registry.unwind pod host c,
      "prebind " ++ plugin.name ++ " failed: " ++ status.message)

/-- The first plugin that does not skip owns the bind; those after it are not asked. -/
def bindStep (c : Cycle) (plugin : BindPlugin) : Except (Cycle × String) Cycle :=
  if c.bound then .ok c
  else
    let (state, status) := plugin.bind c.state pod host
    let c := { c with state }
    if status.code = .skip then .ok c
    else if status.isSuccess then .ok { c with bound := true }
    else
      .error (registry.unwind pod host c,
        "bind " ++ plugin.name ++ " failed: " ++ status.message)

/-- What no plugin has bound, the sink binds. -/
def sinkStep (c : Cycle) : Except (Cycle × String) Cycle :=
  if c.bound then .ok c
  else
    match outside.bind pod host with
    | .ok () => .ok c
    | .error e => .error (registry.unwind pod host c, "bind failed: " ++ e.message)

def postBindStep (c : Cycle) (plugin : PostBindPlugin) : Cycle :=
  { c with state := plugin.postBind c.state pod host }

/-- The stages after the pod was assumed. -/
def runStages (c : Cycle) : Except (Cycle × String) Cycle := do
  let c ← registry.reserves.foldlM (registry.reserveStep pod host) c
  let c ← registry.permits.foldlM (registry.permitStep pod host) c
  let c ← registry.waitStep outside pod host c
  let c ← registry.preBinds.foldlM (registry.preBindStep pod host) c
  let c ← registry.binds.foldlM (registry.bindStep pod host) c
  let c ← registry.sinkStep outside pod host c
  return registry.postBinds.foldl (postBindStep pod host) c

def runBindingCycle (cache : SchedulerCache) : Cycle × Except String Unit :=
  match cache.assumePod pod host with
  | (cache, .error e) => ({ cache }, .error ("assume failed: " ++ e.message))
  | (cache, .ok ()) =>
    match registry.runStages outside pod host { cache } with
    | .ok c => (c, .ok ())
    | .error (c, reason) => (c, .error reason)

end BindingRegistry

/-! ## Every way out -/

/-- The Reserve plugins that were asked, the first of the registry, were all told once, in reverse
order. -/
def Unwound (registry : BindingRegistry) (calls : List ReserveCall) : Prop :=
  ∃ asked, asked <+: registry.reserves ∧
    calls = asked.map .reserve ++ asked.reverse.map .unreserve

namespace BindingRegistry

variable {registry : BindingRegistry} {outside : Outside} {pod : Pod} {host : String}
  {cache : SchedulerCache} {c : Cycle}

/-- The pod is assumed, and the Reserve plugins counted so far were asked. -/
structure Held (registry : BindingRegistry) (cache : SchedulerCache) (c : Cycle) : Prop where
  cache : c.cache = cache
  calls : c.calls = (registry.reserves.take c.reserved).map .reserve

/-- A stage leaves a cycle that can go on, or one that was taken back. -/
def Kept (registry : BindingRegistry) (pod : Pod) (cache : SchedulerCache) :
    Except (Cycle × String) Cycle → Prop
  | .ok c => Held registry cache c
  | .error (c, _) => c.cache = cache.forgetPod pod.uid ∧ Unwound registry c.calls

theorem Kept.bind {result : Except (Cycle × String) Cycle}
    {next : Cycle → Except (Cycle × String) Cycle} (h : Kept registry pod cache result)
    (hnext : ∀ c, Held registry cache c → Kept registry pod cache (next c)) :
    Kept registry pod cache (result >>= next) := by
  cases result with
  | ok c => exact hnext c h
  | error e => exact h

theorem kept_foldlM {α : Type} {step : Cycle → α → Except (Cycle × String) Cycle}
    (hstep : ∀ c a, Held registry cache c → Kept registry pod cache (step c a)) (as : List α)
    (h : Held registry cache c) : Kept registry pod cache (as.foldlM step c) := by
  induction as generalizing c with
  | nil => exact h
  | cons a as ih =>
    rw [List.foldlM_cons]
    exact (hstep c a h).bind fun c' hc' => ih hc'

theorem foldl_unreserveStep (pod : Pod) (host : String) (plugins : List ReservePlugin) (c : Cycle) :
    (plugins.foldl (unreserveStep pod host) c).cache = c.cache ∧
      (plugins.foldl (unreserveStep pod host) c).calls = c.calls ++ plugins.map .unreserve := by
  induction plugins generalizing c with
  | nil => exact ⟨rfl, (List.append_nil _).symm⟩
  | cons plugin plugins ih =>
    obtain ⟨hcache, hcalls⟩ := ih (unreserveStep pod host c plugin)
    refine ⟨hcache, ?_⟩
    rw [List.foldl_cons, hcalls, unreserveStep, List.append_assoc, List.singleton_append,
      List.map_cons]

theorem Held.unwind (h : Held registry cache c) (reason : String) :
    Kept registry pod cache (.error (registry.unwind pod host c, reason)) := by
  obtain ⟨hcache, hcalls⟩ :=
    foldl_unreserveStep pod host (registry.reserves.take c.reserved).reverse c
  refine ⟨?_, registry.reserves.take c.reserved, List.take_prefix _ _, ?_⟩
  · rw [BindingRegistry.unwind, hcache, h.cache]
  · rw [BindingRegistry.unwind, hcalls, h.calls]

theorem Held.withState (h : Held registry cache c) (state : CycleState) :
    Held registry cache { c with state } :=
  ⟨h.cache, h.calls⟩

theorem reserves_kept {asked rest : List ReservePlugin} (hsplit : registry.reserves = asked ++ rest)
    (h : Held registry cache c) (hasked : c.reserved = asked.length) :
    Kept registry pod cache (rest.foldlM (registry.reserveStep pod host) c) := by
  induction rest generalizing asked c with
  | nil => exact h
  | cons plugin rest ih =>
    -- the cycle once the plugin was asked, whatever it says
    have hheld (state : CycleState) :
        Held registry cache { c with
          reserved := c.reserved + 1, state, calls := c.calls ++ [.reserve plugin] } := by
      refine ⟨h.cache, ?_⟩
      have htake (n : Nat) (hn : n = asked.length) :
          registry.reserves.take (n + 1) = registry.reserves.take n ++ [plugin] := by
        subst hn
        rw [hsplit, List.take_left, List.take_append]
        simp
      rw [h.calls, htake c.reserved hasked, List.map_append, List.map_singleton]
    rw [List.foldlM_cons, reserveStep]
    dsimp only
    split
    · have hsplit' : registry.reserves = (asked ++ [plugin]) ++ rest := by
        rw [hsplit, List.append_assoc, List.singleton_append]
      refine ih hsplit' (hheld _) ?_
      rw [List.length_append, List.length_singleton, hasked]
    · exact (hheld _).unwind _

theorem permitStep_kept (h : Held registry cache c) (plugin : PermitPlugin) :
    Kept registry pod cache (registry.permitStep pod host c plugin) := by
  rw [permitStep]
  dsimp only
  split
  · exact ⟨h.cache, h.calls⟩
  · split
    · exact ⟨h.cache, h.calls⟩
    · exact (h.withState _).unwind _

theorem waitStep_kept (h : Held registry cache c) :
    Kept registry pod cache (registry.waitStep outside pod host c) := by
  rw [waitStep]
  split
  · exact h
  · split
    · exact h
    · exact h.unwind _

theorem preBindStep_kept (h : Held registry cache c) (plugin : PreBindPlugin) :
    Kept registry pod cache (registry.preBindStep pod host c plugin) := by
  rw [preBindStep]
  dsimp only
  split
  · exact ⟨h.cache, h.calls⟩
  · exact (h.withState _).unwind _

theorem bindStep_kept (h : Held registry cache c) (plugin : BindPlugin) :
    Kept registry pod cache (registry.bindStep pod host c plugin) := by
  rw [bindStep]
  dsimp only
  split
  · exact h
  · split
    · exact ⟨h.cache, h.calls⟩
    · split
      · exact ⟨h.cache, h.calls⟩
      · exact (h.withState _).unwind _

theorem sinkStep_kept (h : Held registry cache c) :
    Kept registry pod cache (registry.sinkStep outside pod host c) := by
  rw [sinkStep]
  split
  · exact h
  · split
    · exact h
    · exact h.unwind _

theorem foldl_postBindStep_held (plugins : List PostBindPlugin) (h : Held registry cache c) :
    Held registry cache (plugins.foldl (postBindStep pod host) c) := by
  induction plugins generalizing c with
  | nil => exact h
  | cons plugin plugins ih => exact ih (h.withState _)

theorem runStages_kept (registry : BindingRegistry) (outside : Outside) (pod : Pod) (host : String)
    (cache : SchedulerCache) :
    Kept registry pod cache (registry.runStages outside pod host { cache }) := by
  have hstart : Held registry cache { cache } := ⟨rfl, rfl⟩
  refine (reserves_kept (List.nil_append _).symm hstart rfl).bind fun c hc => ?_
  refine (kept_foldlM (fun c p hc => permitStep_kept hc p) _ hc).bind fun c hc => ?_
  refine (waitStep_kept hc).bind fun c hc => ?_
  refine (kept_foldlM (fun c p hc => preBindStep_kept hc p) _ hc).bind fun c hc => ?_
  refine (kept_foldlM (fun c p hc => bindStep_kept hc p) _ hc).bind fun c hc => ?_
  refine (sinkStep_kept hc).bind fun c hc => ?_
  exact foldl_postBindStep_held _ hc

end BindingRegistry

/-! ## The host afterwards -/

namespace NodeInfo

variable {info : NodeInfo} {pod : Pod}

/-- The same pods and totals, and the same ports as often. -/
structure Same (info info' : NodeInfo) : Prop where
  node : info'.node = info.node
  pods : info'.pods = info.pods
  requested : ∀ r, info'.requested r = info.requested r
  ports : info'.usedHostPorts.Perm info.usedHostPorts

theorem Same.refl (info : NodeInfo) : Same info info := ⟨rfl, rfl, fun _ => rfl, .refl _⟩

theorem foldl_addContainer_wrap (h : ∀ r, I64.Fits (info.requested r)) (cs : List Container)
    (r : ResourceName) : (cs.foldl addContainer info).requested r =
      I64.wrap (info.requested r + (cs.map (·.asks r)).sum) := by
  induction cs generalizing info with
  | nil =>
    rw [List.map_nil, List.sum_nil, Int.add_zero]
    exact (I64.wrap_eq (h r).1 (h r).2).symm
  | cons c cs ih =>
    have hc : (info.addContainer c).requested r = I64.wrap (info.requested r + c.asks r) := by
      simp only [addContainer, Container.asks]
      cases c.requests r with
      | none => exact (I64.wrap_eq (h r).1 (h r).2).symm.trans (congrArg _ (Int.add_zero _).symm)
      | some q => rfl
    rw [List.foldl_cons, ih (fits_addContainer h c), hc, List.map_cons, List.sum_cons,
      ← Int.add_assoc]
    exact I64.wrappingAdd_wrap _ _

theorem addPod_removePod (h : ∀ r, I64.Fits (info.requested r))
    (hnew : ∀ p ∈ info.pods, p.uid ≠ pod.uid) :
    Same info ((info.addPod pod).removePod pod) ↔
      ∀ r, I64.Returnable (info.requested r) (pod.spec.containers.map (·.asks r)) := by
  have hnone : info.pods.find? (·.uid == pod.uid) = none := by
    rw [List.find?_eq_none]
    exact fun p hp => by simpa using hnew p hp
  have hfind : (info.addPod pod).pods.find? (·.uid == pod.uid) = some pod := by
    rw [addPod_pods, List.find?_append, hnone]
    simp
  have hrequested (r : ResourceName) : (info.addPod pod).requested r =
      I64.wrap (info.requested r + (pod.spec.containers.map (·.asks r)).sum) :=
    foldl_addContainer_wrap h _ r
  have hadded (r : ResourceName) : I64.Fits ((info.addPod pod).requested r) := by
    rw [hrequested]
    exact I64.fits_wrap _
  have hiff (r : ResourceName) :
      ((info.addPod pod).removePod pod).requested r = info.requested r ↔
        I64.Returnable (info.requested r) (pod.spec.containers.map (·.asks r)) := by
    rw [removePod_takeBack hadded hfind, hrequested, I64.takeBack_wrap_eq_iff (h r)]
  refine ⟨fun hsame r => (hiff r).mp (hsame.requested r), fun hreturn => ⟨?_, ?_, ?_, ?_⟩⟩
  · rw [removePod_node, addPod_node]
  · rw [removePod_pods, addPod_pods, List.eraseP_append_right _ fun p hp => by simpa using hnew p hp]
    simp
  · exact fun r => (hiff r).mpr (hreturn r)
  · rw [NodeInfo.removePod, hfind]
    dsimp only
    rw [foldl_removeContainer_usedHostPorts]
    refine diff_perm ?_
    rw [addPod_usedHostPorts]
    exact List.perm_append_comm

end NodeInfo

namespace SchedulerCache

variable {c : SchedulerCache} {pod : Pod} {host : String} {info : NodeInfo}

/-- The same nodes under the same names, and the same pods assumed. -/
structure Restored (c c' : SchedulerCache) : Prop where
  assumed : ∀ uid, c'.assumed.lookup uid = c.assumed.lookup uid
  nodes : ∀ name, Option.Rel NodeInfo.Same (c.nodes.lookup name) (c'.nodes.lookup name)

theorem Restored.refl (c : SchedulerCache) : Restored c c := by
  refine ⟨fun uid => rfl, fun name => ?_⟩
  cases c.nodes.lookup name with
  | none => exact .none
  | some info => exact .some (.refl info)

/-- The totals are 64-bit numbers. -/
def Machine (c : SchedulerCache) : Prop :=
  Dict.All (fun _ info => ∀ r, I64.Fits (info.requested r)) c.nodes

theorem Run.machine {cond : SchedulerCache → Op → Prop} {ops : List Op} (hrun : Run cond ops c) :
    c.Machine := by
  have hreached : Dict.All (fun _ info => NodeInfo.Reached (fun _ _ => True) info) c.nodes := by
    induction hrun with
    | start => exact Dict.all_empty
    | call _ op _ ih =>
      refine step_all (fun node info hinfo => ?_) (fun _ _ pod h => h.call (.addPod pod) trivial)
        (fun _ _ pod h => h.call (.removePod pod) trivial) ih op
      obtain h | rfl := hinfo
      · exact h.call (.setNode node) trivial
      · exact (NodeInfo.Reached.new node).call (.setNode node) trivial
  exact fun name info hinfo r => (hreached name info hinfo).fits r

theorem onNode_eq (hinfo : c.nodes.lookup host = some info) (f : NodeInfo → NodeInfo) :
    c.onNode host f = ({ c with nodes := c.nodes.insert host (f info) }, .ok ()) := by
  unfold onNode
  rw [hinfo]

theorem assumePod_eq (hassumed : c.isAssumed pod.uid = false)
    (hinfo : c.nodes.lookup host = some info) :
    c.assumePod pod host =
      ({ nodes := c.nodes.insert host (info.addPod (pod.onto host))
         assumed := c.assumed.insert pod.uid (pod.onto host) }, .ok ()) := by
  unfold isAssumed at hassumed
  rw [assumePod, hassumed, if_neg Bool.false_ne_true, onNode_eq hinfo]

theorem assumePod_forgetPod (hassumed : c.isAssumed pod.uid = false)
    (hinfo : c.nodes.lookup host = some info) (hfits : ∀ r, I64.Fits (info.requested r))
    (hnew : ∀ p ∈ info.pods, p.uid ≠ pod.uid) :
    Restored c ((c.assumePod pod host).1.forgetPod pod.uid) ↔
      ∀ r, I64.Returnable (info.requested r) (pod.spec.containers.map (·.asks r)) := by
  have hnone : c.assumed.lookup pod.uid = none := by
    rwa [isAssumed, Option.isSome_eq_false_iff, Option.isNone_iff_eq_none] at hassumed
  have hnode : NodeInfo.Same info ((info.addPod (pod.onto host)).removePod (pod.onto host)) ↔
      ∀ r, I64.Returnable (info.requested r) (pod.spec.containers.map (·.asks r)) :=
    NodeInfo.addPod_removePod hfits hnew
  have hforgotten : (c.assumePod pod host).1.forgetPod pod.uid =
      { nodes := (c.nodes.insert host (info.addPod (pod.onto host))).insert host
          ((info.addPod (pod.onto host)).removePod (pod.onto host))
        assumed := (c.assumed.insert pod.uid (pod.onto host)).erase pod.uid } := by
    rw [assumePod_eq hassumed hinfo, forgetPod, AList.lookup_insert]
    exact congrArg Prod.fst (onNode_eq (AList.lookup_insert _) _)
  rw [← hnode, hforgotten]
  constructor
  · rintro ⟨-, hnodes⟩
    have hhost := hnodes host
    rw [AList.lookup_insert, hinfo] at hhost
    cases hhost with
    | some hsame => exact hsame
  · intro hsame
    refine ⟨fun uid => ?_, fun name => ?_⟩
    · rw [Dict.lookup_erase_if, Dict.lookup_insert_if]
      split
      next heq => rw [← hnone, heq]
      next => rfl
    · rw [Dict.lookup_insert_if, Dict.lookup_insert_if]
      split
      next heq =>
        rw [← heq, hinfo]
        exact .some hsame
      next => exact (Restored.refl c).nodes name

end SchedulerCache

namespace BindingRegistry

theorem runBindingCycle_error {registry : BindingRegistry} {outside : Outside} {pod : Pod}
    {host : String} {cache : SchedulerCache} {reason : String}
    (hok : (cache.assumePod pod host).2 = .ok ())
    (herror : (registry.runBindingCycle outside pod host cache).2 = .error reason) :
    (registry.runBindingCycle outside pod host cache).1.cache =
        (cache.assumePod pod host).1.forgetPod pod.uid ∧
      Unwound registry (registry.runBindingCycle outside pod host cache).1.calls := by
  have hkept := runStages_kept registry outside pod host (cache.assumePod pod host).1
  unfold runBindingCycle at herror ⊢
  cases hassume : cache.assumePod pod host with
  | mk cache' result =>
    rw [hassume] at hok hkept herror
    dsimp only at hok hkept herror
    subst hok
    dsimp only at herror ⊢
    cases hstages : registry.runStages outside pod host { cache := cache' } with
    | ok c =>
      rw [hstages] at herror
      cases herror
    | error e =>
      rw [hstages] at hkept
      exact hkept

/-- A cycle that fails for a pod that was neither assumed nor on the host tells the Reserve plugins
that were asked, each once and in reverse order.  It leaves the cache as it was exactly when the
totals of the host can give back what the pod requests. -/
theorem runBindingCycle_restores_iff (registry : BindingRegistry) (outside : Outside) {pod : Pod}
    {host : String} {cache : SchedulerCache} (hmachine : cache.Machine)
    (hassumed : cache.isAssumed pod.uid = false)
    (hhost : ∀ info, cache.nodes.lookup host = some info → ∀ p ∈ info.pods, p.uid ≠ pod.uid)
    {reason : String}
    (herror : (registry.runBindingCycle outside pod host cache).2 = .error reason) :
    (cache.Restored (registry.runBindingCycle outside pod host cache).1.cache ∧
        Unwound registry (registry.runBindingCycle outside pod host cache).1.calls) ↔
      ∀ info, cache.nodes.lookup host = some info → ∀ r,
        I64.Returnable (info.requested r) (pod.spec.containers.map (·.asks r)) := by
  cases hinfo : cache.nodes.lookup host with
  | none =>
    -- the host is not known, and the cycle ends before it has begun
    have hassume : cache.assumePod pod host = (cache, .error (.nodeNotFound host)) := by
      unfold SchedulerCache.isAssumed at hassumed
      rw [SchedulerCache.assumePod, hassumed, if_neg Bool.false_ne_true, SchedulerCache.onNode,
        hinfo]
    rw [runBindingCycle, hassume]
    exact iff_of_true ⟨.refl cache, [], List.nil_prefix, rfl⟩ fun _ h => by cases h
  | some info =>
    obtain ⟨hcache, hcalls⟩ := runBindingCycle_error
      (congrArg (·.2) (SchedulerCache.assumePod_eq hassumed hinfo)) herror
    rw [hcache, and_iff_left hcalls, SchedulerCache.assumePod_forgetPod hassumed hinfo
      (hmachine host info hinfo) (hhost info hinfo)]
    exact ⟨fun h _ heq => Option.some.inj heq ▸ h, fun h => h info rfl⟩

/-! ## A sink that is gone -/

/-- The attic with a pod on it that requests `amount` of everything. -/
def occupied (amount : Int) : SchedulerCache :=
  (SchedulerCache.step {} (.addNode NodeInfo.attic)).step
    (.addPod ((NodeInfo.asking "fan" amount 80).onto "attic"))

theorem run_occupied (amount : Int) : ∃ ops, SchedulerCache.Run (fun _ _ => True) ops
    (occupied amount) :=
  ⟨_, (SchedulerCache.Run.start.call (.addNode NodeInfo.attic) trivial).call
    (.addPod ((NodeInfo.asking "fan" amount 80).onto "attic")) trivial⟩

theorem occupied_lookup {amount : Int} {info : NodeInfo}
    (h : (occupied amount).nodes.lookup "attic" = some info) :
    info = (NodeInfo.new NodeInfo.attic).addPod ((NodeInfo.asking "fan" amount 80).onto "attic") :=
  (Option.some.inj h).symm

theorem occupied_pods {amount : Int} {info : NodeInfo}
    (h : (occupied amount).nodes.lookup "attic" = some info) :
    ∀ p ∈ info.pods, p.uid ≠ (NodeInfo.asking "lamp" 1 80).uid := by
  obtain rfl := occupied_lookup h
  rw [NodeInfo.addPod_pods]
  simp [NodeInfo.new, NodeInfo.asking, Pod.onto, Pod.uid]

/-- No sink answers, and no pod waits. -/
def gone : Outside where
  wait _ _ := .elapsed
  bind _ _ := .error (.apiserver "gone")

/-- One plugin that reserves whatever it is asked to. -/
def oneReserve : BindingRegistry where
  reserves := [{
    name := "quota"
    reserve := fun state _ _ => (state, .success)
    unreserve := fun state _ _ => state }]

theorem oneReserve_gone (amount : Int) :
    (oneReserve.runBindingCycle gone (NodeInfo.asking "lamp" 1 80) "attic" (occupied amount)).2 =
      .error "bind failed: apiserver: gone" := rfl

/-- There is room for another pod, and the binding that fails leaves no trace. -/
theorem runBindingCycle_restores_room :
    (occupied 5).Restored (oneReserve.runBindingCycle gone (NodeInfo.asking "lamp" 1 80) "attic"
        (occupied 5)).1.cache ∧
      Unwound oneReserve (oneReserve.runBindingCycle gone (NodeInfo.asking "lamp" 1 80) "attic"
        (occupied 5)).1.calls := by
  obtain ⟨ops, hrun⟩ := run_occupied 5
  refine (runBindingCycle_restores_iff oneReserve gone hrun.machine rfl
    (fun info h => occupied_pods h) (oneReserve_gone 5)).mpr fun info h r => ?_
  obtain rfl := occupied_lookup h
  cases r <;> decide

/-- The total was as great as it can be, wrapped around and comes back as the least there is. -/
theorem runBindingCycle_wraps :
    ¬ ∀ (registry : BindingRegistry) (outside : Outside) (pod : Pod) (host : String)
      (cache : SchedulerCache) (reason : String),
      (∃ ops, SchedulerCache.Run (fun _ _ => True) ops cache) →
      cache.isAssumed pod.uid = false →
      (∀ info, cache.nodes.lookup host = some info → ∀ p ∈ info.pods, p.uid ≠ pod.uid) →
      (registry.runBindingCycle outside pod host cache).2 = .error reason →
      cache.Restored (registry.runBindingCycle outside pod host cache).1.cache ∧
        Unwound registry (registry.runBindingCycle outside pod host cache).1.calls := by
  intro h
  obtain ⟨hrestored, -⟩ := h oneReserve gone (NodeInfo.asking "lamp" 1 80) "attic"
    (occupied I64.maxValue) _ (run_occupied _) rfl (fun info h => occupied_pods h)
    (oneReserve_gone _)
  have hnodes := hrestored.nodes "attic"
  have htotal : ∀ info info', (occupied I64.maxValue).nodes.lookup "attic" = some info →
      (oneReserve.runBindingCycle gone (NodeInfo.asking "lamp" 1 80) "attic"
        (occupied I64.maxValue)).1.cache.nodes.lookup "attic" = some info' →
      info'.requested .cpu ≠ info.requested .cpu := by
    rintro info info' ⟨⟩ ⟨⟩
    decide
  cases hnodes with
  | some hsame => exact htotal _ _ rfl rfl (hsame.requested .cpu)

end BindingRegistry

end CaveHome.Scheduler
