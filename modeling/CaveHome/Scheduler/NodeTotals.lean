import CaveHome.Lib.Saturate
import CaveHome.Scheduler.CacheAccounts

/-!
# The totals of a node

What a node has on record is what its pods request together and the ports they use, whatever the
sign of the requests and however often a name of a pod is used, as long as no addition and no
subtraction leaves the range.
-/

namespace CaveHome.Scheduler

namespace NodeInfo

/-! ## Calls -/

/-- A call that changes a node. -/
inductive Op
  | addPod (pod : Pod)
  | removePod (pod : Pod)
  | setNode (node : Node)

def step (info : NodeInfo) : Op → NodeInfo
  | .addPod pod => info.addPod pod
  | .removePod pod => info.removePod pod
  | .setNode node => info.setNode node

/-- In a loop over containers that changes the totals by `op`, with `f` for one container, no
result leaves the range. -/
def FitsAlong (op : Int → Int → Int) (f : NodeInfo → Container → NodeInfo) (info : NodeInfo) :
    List Container → Prop
  | [] => True
  | c :: cs => (∀ r, ∀ q ∈ c.requests r, I64.Fits (op (info.requested r) q)) ∧
      FitsAlong op f (f info c) cs

/-- The call does not make a number leave the range. -/
def NoOverflow (info : NodeInfo) : Op → Prop
  | .addPod pod => FitsAlong (· + ·) addContainer info pod.spec.containers
  | .removePod pod => ∀ removed ∈ info.pods.find? (·.uid == pod.uid),
      FitsAlong (· - ·) removeContainer info removed.spec.containers
  | .setNode _ => True

/-- The nodes that calls satisfying `cond` lead to from a new one. -/
inductive Reached (cond : NodeInfo → Op → Prop) : NodeInfo → Prop
  | new (node : Node) : Reached cond (new node)
  | call {info : NodeInfo} (h : Reached cond info) (op : Op) (hop : cond info op) :
      Reached cond (info.step op)

theorem addContainer_requested {info : NodeInfo} {c : Container} {r : ResourceName}
    (h : ∀ q ∈ c.requests r, I64.Fits (info.requested r + q)) :
    (info.addContainer c).requested r = info.requested r + c.asks r := by
  simp only [addContainer, Container.asks]
  cases hq : c.requests r with
  | none => exact (Int.add_zero _).symm
  | some q => exact I64.wrappingAdd_eq (h q hq).1 (h q hq).2

theorem removeContainer_requested {info : NodeInfo} {c : Container} {r : ResourceName}
    (h : ∀ q ∈ c.requests r, I64.Fits (info.requested r - q)) :
    (info.removeContainer c).requested r = info.requested r - c.asks r := by
  simp only [removeContainer, Container.asks]
  cases hq : c.requests r with
  | none => exact (Int.sub_zero _).symm
  | some q => exact I64.saturatingSub_eq (h q hq).1 (h q hq).2

variable {info : NodeInfo} {pod : Pod}

theorem foldl_addContainer_exact {cs : List Container}
    (h : FitsAlong (· + ·) addContainer info cs) (r : ResourceName) :
    (cs.foldl addContainer info).requested r = info.requested r + (cs.map (·.asks r)).sum := by
  induction cs generalizing info with
  | nil => exact (Int.add_zero _).symm
  | cons c cs ih =>
    obtain ⟨hc, hcs⟩ := h
    rw [List.foldl_cons, ih hcs, addContainer_requested (hc r), List.map_cons, List.sum_cons,
      Int.add_assoc]

theorem foldl_removeContainer_exact {cs : List Container}
    (h : FitsAlong (· - ·) removeContainer info cs) (r : ResourceName) :
    (cs.foldl removeContainer info).requested r = info.requested r - (cs.map (·.asks r)).sum := by
  induction cs generalizing info with
  | nil => exact (Int.sub_zero _).symm
  | cons c cs ih =>
    obtain ⟨hc, hcs⟩ := h
    rw [List.foldl_cons, ih hcs, removeContainer_requested (hc r), List.map_cons, List.sum_cons,
      Int.sub_sub]

/-! ## The books of a node -/

/-- The totals and the ports are those of the pods. -/
structure Exact (info : NodeInfo) : Prop where
  requested : ∀ r, info.requested r = (info.pods.map (·.total r)).sum
  ports : info.usedHostPorts.Perm (info.pods.flatMap (·.hostPorts))

theorem Exact.addPod (h : info.Exact) (hop : info.NoOverflow (.addPod pod)) :
    (info.addPod pod).Exact where
  requested r := by
    have hadd : (info.addPod pod).requested r = info.requested r + pod.total r :=
      foldl_addContainer_exact hop r
    rw [hadd, addPod_pods, List.map_append, List.sum_append, h.requested r]
    simp
  ports := by
    rw [addPod_usedHostPorts, addPod_pods, List.flatMap_append]
    simpa using h.ports.append_right pod.hostPorts

theorem Exact.removePod (h : info.Exact) (hop : info.NoOverflow (.removePod pod)) :
    (info.removePod pod).Exact := by
  cases hfind : info.pods.find? (·.uid == pod.uid) with
  | none =>
    rw [NodeInfo.removePod, hfind]
    exact h
  | some removed =>
    -- the stored pod and the rest are all the pods
    have hsplit := find_perm_eraseP hfind
    refine ⟨fun r => ?_, ?_⟩
    · have hloop : (info.removePod pod).requested r = info.requested r - removed.total r := by
        rw [NodeInfo.removePod, hfind]
        exact (foldl_removeContainer_requested _ _ r).trans
          ((foldl_removeContainer_requested info _ r).symm.trans
            (foldl_removeContainer_exact (hop removed hfind) r))
      rw [hloop, removePod_pods, h.requested r, (hsplit.map _).sum_eq, List.map_cons, List.sum_cons]
      omega
    · rw [removePod_pods, NodeInfo.removePod, hfind]
      dsimp only
      rw [foldl_removeContainer_usedHostPorts]
      exact diff_perm (h.ports.trans (hsplit.flatMap_right _))

theorem Exact.step (h : info.Exact) {op : Op} (hop : info.NoOverflow op) : (info.step op).Exact := by
  cases op with
  | addPod pod => exact h.addPod hop
  | removePod pod => exact h.removePod hop
  | setNode node => exact ⟨h.requested, h.ports⟩

/-- On every node that calls without overflow lead to, the record is exactly what the pods ask
for. -/
theorem Reached.requested_and_ports (h : Reached NoOverflow info) :
    (∀ r, info.requested r = (info.pods.map (·.total r)).sum) ∧
      info.usedHostPorts.Perm (info.pods.flatMap (·.hostPorts)) := by
  have hexact : info.Exact := by
    induction h with
    | new node => exact ⟨fun r => rfl, .refl _⟩
    | call _ op hop ih => exact ih.step hop
  exact ⟨hexact.requested, hexact.ports⟩

/-- A pod that asks for `amount` of everything and uses the port `port` of the host. -/
def asking (uid : String) (amount port : Int) : Pod where
  metadata := { name := uid, uid := uid }
  spec := { containers := [{ requests := fun _ => some amount, ports := [{ hostPort := port }] }] }

/-- The node that the calls below are made on. -/
def attic : Node := { metadata := { name := "attic" } }

/-- Two pods of one name, of which the first goes, and one that was never there. -/
theorem requested_and_ports_attic :
    let calls := [Op.addPod (asking "lamp" 600 80), .addPod (asking "lamp" (-200) 80),
      .removePod (asking "lamp" 0 0), .removePod (asking "fan" 1 1), .setNode attic]
    let info := calls.foldl step (new attic)
    Reached NoOverflow info ∧ (∀ r, info.requested r = (info.pods.map (·.total r)).sum) ∧
      info.usedHostPorts.Perm (info.pods.flatMap (·.hostPorts)) := by
  intro calls info
  have hfirst : (new attic).NoOverflow (.addPod (asking "lamp" 600 80)) :=
    ⟨by rintro (_ | _) _ ⟨⟩ <;> decide, trivial⟩
  have hsecond : ((new attic).addPod (asking "lamp" 600 80)).NoOverflow
      (.addPod (asking "lamp" (-200) 80)) :=
    ⟨by rintro (_ | _) _ ⟨⟩ <;> decide, trivial⟩
  have hthird : (((new attic).addPod (asking "lamp" 600 80)).addPod
      (asking "lamp" (-200) 80)).NoOverflow (.removePod (asking "lamp" 0 0)) := by
    rintro _ ⟨⟩
    exact ⟨by rintro (_ | _) _ ⟨⟩ <;> decide, trivial⟩
  have hfourth : ((((new attic).addPod (asking "lamp" 600 80)).addPod
      (asking "lamp" (-200) 80)).removePod (asking "lamp" 0 0)).NoOverflow
      (.removePod (asking "fan" 1 1)) := by
    rintro _ ⟨⟩
  have h : Reached NoOverflow info :=
    ((((Reached.new attic).call _ hfirst).call _ hsecond).call _ hthird).call _ hfourth
      |>.call (.setNode attic) trivial
  exact ⟨h, Reached.requested_and_ports h⟩

end NodeInfo

end CaveHome.Scheduler
